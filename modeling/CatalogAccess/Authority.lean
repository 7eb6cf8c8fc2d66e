import CatalogAccess.Error
import CatalogAccess.Page
import CatalogAccess.Policy.Signature
import CatalogAccess.Role

/-!
# The policy authority

The authority owns the policies and the roles, by identifiers that it assigns, and knows the groups
of each user. Writes of policies with certain names can be made to fail. Every operation either
returns its result with the new state, or an error; after an error the state is as before.
-/

namespace CatalogAccess

/-- The state of the policy authority. -/
structure Authority where
  /-- The policies by identifier. -/
  policies : NameMap Policy := ∅
  /-- The roles by identifier. -/
  roles : NameMap Role := ∅
  /-- The groups of each user. -/
  userGroups : NameMap NameSet := ∅
  /-- The number of the last identifier assigned. -/
  lastId : Nat := 0
  /-- The names of the policies whose writes fail. -/
  failing : NameSet := ∅
  /-- How many writes of policies have succeeded. -/
  mutations : Nat := 0

namespace Authority

/-- The identifier of a number: at least four digits behind the kind of object. -/
def identifier (kind : String) (n : Nat) : String :=
  let digits := (Nat.repr n).toList
  kind ++ "-" ++ String.ofList (List.replicate (4 - digits.length) '0' ++ digits)

/-- The identifier that is assigned next. -/
def nextId (a : Authority) (kind : String) : String := identifier kind (a.lastId + 1)

/-- Stores a policy as it is, assigning an identifier only where it has none. -/
def seedPolicy (a : Authority) (p : Policy) : Authority :=
  match p.id with
  | some id => { a with policies := a.policies.insert id p }
  | none =>
    let id := a.nextId "policy"
    { a with lastId := a.lastId + 1, policies := a.policies.insert id { p with id := some id } }

/-- Stores a role as it is, assigning an identifier only where it has none. -/
def seedRole (a : Authority) (r : Role) : Role × Authority :=
  match r.id with
  | some id => (r, { a with roles := a.roles.insert id r })
  | none =>
    let id := a.nextId "role"
    let stored := { r with id := some id }
    (stored, { a with lastId := a.lastId + 1, roles := a.roles.insert id stored })

/-- Fails for the names whose writes fail. -/
def checkFailure (a : Authority) (operation name : String) : Except AccessError Unit :=
  if a.failing.contains name then
    .error (.authority operation ("injected failure for " ++ name))
  else .ok ()

/-- Creates a policy under a new identifier. -/
def createPolicy (a : Authority) (p : Policy) : Except AccessError (Policy × Authority) := do
  a.checkFailure "create policy" p.name
  let id := a.nextId "policy"
  let created := { p with id := some id }
  return (created, { a with
    lastId := a.lastId + 1, policies := a.policies.insert id created
    mutations := a.mutations + 1 })

/-- Replaces a policy. -/
def updatePolicy (a : Authority) (p : Policy) : Except AccessError (Policy × Authority) :=
  match p.id with
  | none => .error (.authority "update policy" "policy has no id")
  | some id => do
    a.checkFailure "update policy" p.name
    if a.policies.contains id then
      return (p, { a with policies := a.policies.insert id p, mutations := a.mutations + 1 })
    else .error (.authority "update policy" ("no policy " ++ id))

/-- Deletes a policy. -/
def deletePolicy (a : Authority) (id : String) : Except AccessError Authority := do
  let stored := a.policies.get? id
  a.checkFailure "delete policy" ((stored.map Policy.name).getD "")
  if stored.isSome then
    return { a with policies := a.policies.erase id, mutations := a.mutations + 1 }
  else .error (.authority "delete policy" ("no policy " ++ id))

/-- The policies with a label, by identifier. -/
def withLabel (a : Authority) (label : String) : List Policy :=
  a.policies.values.filter (·.labels.contains label)

/-- Whether a resource map has all dimensions of another, with a value in common in each. -/
def overlaps (candidate requested : ResourceMap) : Bool :=
  requested.toList.all fun d =>
    (candidate.get? d.1).any fun values => d.2.any values.contains

/-- The policies of a service whose resources overlap those requested, by identifier. -/
def withResources (a : Authority) (service : Policy.Service) (resources : ResourceMap) :
    List Policy :=
  a.policies.values.filter fun p => p.service == service && overlaps p.resources resources

/-- The policies of a service, by identifier. -/
def ofService (a : Authority) (service : Policy.Service) : List Policy :=
  a.policies.values.filter (·.service == service)

/-- Creates a role under a new identifier. -/
def createRole (a : Authority) (r : Role) : Except AccessError (Role × Authority) :=
  if a.roles.values.any (·.name == r.name) then
    .error (.authority "create role" ("role " ++ r.name ++ " exists"))
  else
    let id := a.nextId "role"
    let created := { r with id := some id }
    .ok (created, { a with lastId := a.lastId + 1, roles := a.roles.insert id created })

/-- Replaces a role. -/
def updateRole (a : Authority) (r : Role) : Except AccessError (Role × Authority) :=
  match r.id with
  | none => .error (.authority "update role" "role has no id")
  | some id =>
    if a.roles.contains id then .ok (r, { a with roles := a.roles.insert id r })
    else .error (.authority "update role" ("no role " ++ id))

/-- Deletes a role, if it is there. -/
def deleteRole (a : Authority) (id : String) : Authority := { a with roles := a.roles.erase id }

end Authority

end CatalogAccess
