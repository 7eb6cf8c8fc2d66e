import CatalogAccess.Json.Record

/-!
# Roles

A role groups users, user groups and member roles: whoever holds a member role holds the role.
-/

namespace CatalogAccess

/-- A role of the policy authority. -/
structure Role where
  /-- The identifier, once the authority has assigned one. -/
  id : Option String := none
  /-- The name by which policies and other roles refer to the role. -/
  name : String
  /-- The users that hold the role. -/
  users : List String := []
  /-- The user groups whose members hold the role. -/
  groups : List String := []
  /-- The member roles. -/
  roles : List String := []
deriving DecidableEq, Repr

namespace Role

/-- Whether the role names the user. -/
def hasUser (r : Role) (user : String) : Bool := r.users.contains user

/-- Reads a role. -/
def ofDocument? (d : Document) : Option Role := do
  let r ← d.record? ["id", "name", "users", "groups", "roles"] 2
  let id ← r.optional "id" Document.string?
  let name ← r.required "name" Document.string?
  let users ← r.withDefault "users" [] Document.strings?
  let groups ← r.withDefault "groups" [] Document.strings?
  let roles ← r.withDefault "roles" [] Document.strings?
  return { id, name, users, groups, roles }

/-- The JSON form of a role. -/
def toJson (r : Role) : Json :=
  .obj ([("groups", Json.strings r.groups)] ++
    Json.memberOf "id" r.id ++
    [("name", .str r.name), ("roles", Json.strings r.roles), ("users", Json.strings r.users)])

end Role

end CatalogAccess
