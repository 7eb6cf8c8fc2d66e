import CatalogAccess.FanOut
import CatalogAccess.Subjects

/-!
# Managing personas

The five operations on personas and their policies. Each checks the request first, then plans the
changes of concrete policies from what the policy authority holds, and applies the plan at last. A
failed read ends the request, while failed writes of the plan are reported.

Concrete policies are shared: personas whose policies have the same target are named by items of
one concrete policy. Labels tell which personas and persona policies a concrete policy serves.
-/

namespace CatalogAccess

/-- What persona management is set to. -/
structure ServiceSettings where
  /-- The length of the pages in which listings are read. -/
  pageSize : Nat := 25
  /-- The deadline of a write in milliseconds. -/
  deadlineMs : Nat := 10000
  /-- The tenant of personas that name none. -/
  tenant : String := "tenant"

/-- A saved persona with what happened to its concrete policies. -/
structure PersonaOutcome where
  /-- The persona. -/
  persona : Persona
  /-- What happened to its concrete policies. -/
  report : Report

/-- A saved persona policy with what happened to its concrete policies. -/
structure PolicyOutcome where
  /-- The persona policy. -/
  policy : PersonaPolicy
  /-- What happened to its concrete policies. -/
  report : Report

/-- The labels that a persona policy drops from a concrete policy it lets go of. -/
def PersonaPolicy.droppedLabels (persona : Persona) (policy : PersonaPolicy) : List String :=
  [Label.personaPolicy policy.guid, Label.persona persona.guid]

namespace PersonaService

/-- The persona of an identifier, which must exist. -/
def requirePersona (guid : String) : Operation Persona := do
  match ← Operation.read (·.persona? guid) with
  | some persona => return persona
  | none => throw (.notFound ("persona " ++ guid))

/-- Refuses a persona that is not in use. -/
def requireActive (persona : Persona) : Except AccessError Unit :=
  if persona.isActive then .ok ()
  else .error (.validation ("persona " ++ persona.guid ++ " is not active"))

/-- Refuses the name of another persona in use. -/
def ensureUniqueName (name : String) (except : Option String) (personas : List Persona) :
    Except AccessError Unit :=
  if personas.any fun p => p.name == name && p.isActive && some p.guid != except then
    .error (.validation ("persona with name " ++ name ++ " already exists"))
  else .ok ()

/-- Refuses the name of another policy of the persona in use. -/
def ensureUniquePolicyName (policy : PersonaPolicy) (siblings : List PersonaPolicy) :
    Except AccessError Unit :=
  if siblings.any fun s => s.guid != policy.guid && s.isActive && s.name == policy.name then
    .error (.validation ("persona policy with name " ++ policy.name ++ " already exists"))
  else .ok ()

/-- Whether another policy of the persona in use is about the same assets in the same way. -/
def duplicates (policy s : PersonaPolicy) : Bool :=
  s.guid != policy.guid && s.isActive && s.category == policy.category && s.sameAssets policy &&
    s.isDataMask == policy.isDataMask

/-- Refuses the assets of another policy of the persona in use. -/
def ensureUniqueAssets (policy : PersonaPolicy) (siblings : List PersonaPolicy) :
    Except AccessError Unit :=
  match siblings.find? (duplicates policy) with
  | some other =>
    .error (.conflict ("persona policy " ++ other.name ++ " already targets the same assets"))
  | none => .ok ()

/-- Refuses a user who does not administer the connection of the policy. -/
def ensureConnectionAdmin (subjects : Subjects) (user : String) (policy : PersonaPolicy) :
    Except AccessError Unit :=
  let connection := policy.connectionId.getD ""
  if !policy.category.requiresConnection ||
      (subjects.rolesFor user).contains (connectionAdminRole connection) then .ok ()
  else .error (.unauthorized user "manage persona policy" ("connection " ++ connection))

/-- Refuses an update that changes the category of a policy, or of a policy that is not in use. -/
def ensureUpdatable (policy prior : PersonaPolicy) : Except AccessError Unit :=
  if prior.category != policy.category then
    .error (.validation "persona policy category cannot be changed")
  else if !prior.isActive then
    .error (.validation ("persona policy " ++ prior.guid ++ " is not active"))
  else .ok ()

/-- Merges a provisional policy into the policy with its target, in the plan or in the authority,
or plans its creation. -/
def place (pageSize : Nat) (role : String) (s : System) (plan : Plan) (provisional : Policy) :
    Except AccessError Plan :=
  match plan.findSameTarget? provisional with
  | some (.tracked id) =>
    .ok (match plan.get? id with
      | some existing => plan.mergeTracked existing provisional role
      | none => plan)
  | some (.planned index) => .ok (plan.mergePlanned index provisional role)
  | none => do
    match ← s.sameTarget? pageSize provisional with
    | some existing =>
      let plan := plan.load existing
      return match plan.get? (existing.id.getD "") with
        | some current => plan.mergeTracked current provisional role
        | none => plan
    | none => return plan.create provisional

/-- Places provisional policies one after the other. -/
def placeAll (pageSize : Nat) (role : String) (s : System) (plan : Plan)
    (provisionals : List Policy) : Except AccessError Plan :=
  provisionals.foldlM (place pageSize role s) plan

/-- Plans the policies that a persona policy needs. -/
def planCreate (σ : ServiceSettings) (persona : Persona) (plan : Plan) (policy : PersonaPolicy) :
    Operation Plan := do
  let provisionals ← Operation.synthesize persona policy policy.actions
  Operation.read fun s => placeAll σ.pageSize persona.roleName s plan provisionals

/-- Whether an update changes what the concrete policies of a persona policy target. -/
def mustRecreate (policy prior : PersonaPolicy) : Bool :=
  prior.allow != policy.allow || !prior.sameAssets policy || policy.maskKindChanged prior

/-- Merges a provisional policy into its counterpart among the labelled policies, or places it; the
identifiers of counterparts are collected. -/
def mapProvisional (pageSize : Nat) (role : String) (s : System) (existing : List Policy)
    (state : Plan × NameSet) (provisional : Policy) : Except AccessError (Plan × NameSet) :=
  match existing.find? (·.sameTarget provisional) with
  | some counterpart =>
    .ok (state.1.mergeTracked counterpart provisional role,
      match counterpart.id with
      | some id => state.2.insert id
      | none => state.2)
  | none => do
    let plan ← place pageSize role s state.1 provisional
    return (plan, state.2)

/-- Plans an update of the concrete policies of a persona policy. When their targets change, the
role leaves all labelled policies first. Otherwise it leaves those that no provisional policy maps
to, because actions were dropped or an earlier request was not carried out in full. -/
def planUpdate (σ : ServiceSettings) (persona : Persona) (prior policy : PersonaPolicy) :
    Operation Plan := do
  let role := persona.roleName
  let labels := policy.droppedLabels persona
  let existing ← Operation.read
    (·.policiesWithLabel σ.pageSize (Label.personaPolicy policy.guid))
  let plan := existing.foldl Plan.load {}
  let provisionals ← Operation.synthesize persona policy policy.actions
  if mustRecreate policy prior then
    -- a policy that is emptied here comes back when a provisional policy has its target
    let plan := plan.stripAll existing role labels
    Operation.read fun s => placeAll σ.pageSize role s plan provisionals
  else
    let (plan, mapped) ← Operation.read fun s =>
      provisionals.foldlM (mapProvisional σ.pageSize role s existing) (plan, ∅)
    -- what no provisional policy maps to is left over, from dropped actions or failed writes
    let excess := existing.filter fun p => p.id.any fun id => !mapped.contains id
    return excess.foldl (fun plan p => plan.apply (p.stripRole role labels)) plan

/-- Plans that a persona policy lets go of its concrete policies. -/
def planStrip (σ : ServiceSettings) (persona : Persona) (policy : PersonaPolicy) :
    Operation Plan := do
  let labelled ← Operation.read
    (·.policiesWithLabel σ.pageSize (Label.personaPolicy policy.guid))
  return Plan.stripAll {} labelled persona.roleName (policy.droppedLabels persona)

/-- Plans that a persona lets go of all concrete policies. -/
def planClean (σ : ServiceSettings) (persona : Persona) : Operation Plan := do
  let labelled ← Operation.read (·.policiesWithLabel σ.pageSize (Label.persona persona.guid))
  let policies ← Operation.read (·.policiesOf persona.guid)
  let labels := Label.persona persona.guid :: policies.map fun p => Label.personaPolicy p.guid
  return Plan.stripAll {} labelled persona.roleName labels

/-- Creates a persona and its role. -/
def createPersona (σ : ServiceSettings) (persona : Persona) : Operation Persona := do
  persona.check
  let personas ← Operation.read System.personas
  ensureUniqueName persona.name none personas
  let unique ← Operation.fresh
  let persona := { persona with qualifiedName := persona.tenantId.getD σ.tenant ++ "/" ++ unique }
  let role ← Operation.createRole
    { name := persona.roleName, users := persona.users, groups := persona.groups }
  Operation.savePersona { persona with roleId := role.id }

/-- Gives the role of a persona the persona's members. -/
def updateRoleMembers (persona : Persona) : Operation Unit := do
  match persona.roleId with
  | none => return
  | some roleId =>
    match ← Operation.read (·.role? roleId) with
    | none => throw (.notFound ("role " ++ roleId))
    | some role =>
      let _ ← Operation.updateRole { role with users := persona.users, groups := persona.groups }

/-- The persona that an update makes of an existing one: tenant, qualified name, role and status
stay. -/
def updatedPersona (update existing : Persona) : Persona :=
  { update with
    qualifiedName := existing.qualifiedName, tenantId := existing.tenantId
    roleId := existing.roleId, status := existing.status }

/-- Plans the concrete policies of an updated persona: disabling it removes its role from all of
them, and enabling it synthesizes the policies of its persona policies in use. -/
def planToggle (σ : ServiceSettings) (persona existing : Persona) : Operation Plan :=
  match existing.enabled, persona.enabled with
  | true, false => planClean σ persona
  | false, true => do
    let policies ← Operation.read (·.policiesOf persona.guid)
    (policies.filter PersonaPolicy.isActive).foldlM (planCreate σ persona) {}
  | _, _ => return {}

/-- Renames a persona, enables or disables it, or changes its members. -/
def updatePersona (σ : ServiceSettings) (update : Persona) : Operation PersonaOutcome := do
  update.check
  let existing ← requirePersona update.guid
  requireActive existing
  if update.roleId.isSome && update.roleId != existing.roleId then
    throw (.validation "persona role id cannot be changed")
  if update.name != existing.name then
    let personas ← Operation.read System.personas
    ensureUniqueName update.name (some existing.guid) personas
  let persona := updatedPersona update existing
  if persona.users != existing.users || persona.groups != existing.groups then
    updateRoleMembers persona
  let plan ← planToggle σ persona existing
  let report ← Operation.execute σ.deadlineMs plan.mutations
  let persona ← Operation.savePersona persona
  return { persona, report }

/-- Deletes a persona with its grants, its role and its policies. -/
def deletePersona (σ : ServiceSettings) (guid : String) : Operation Report := do
  let persona ← requirePersona guid
  let plan ← planClean σ persona
  let report ← Operation.execute σ.deadlineMs plan.mutations
  if let some roleId := persona.roleId then
    Operation.deleteRole roleId
  Operation.deletePersona guid
  return report

/-- The stored policy that a request updates, which must be updatable; nothing when the request
creates one. -/
def priorPolicy (policy : PersonaPolicy) : Operation (Option PersonaPolicy) := do
  if policy.guid.isEmpty then
    return none
  else
    match ← Operation.read (·.personaPolicy? policy.guid) with
    | none => return none
    | some prior =>
      ensureUpdatable policy prior
      return some prior

/-- Checks a policy against the others of its persona and against the rights of the user. -/
def admitPolicy (subjects : Subjects) (user : String) (persona : Persona)
    (policy : PersonaPolicy) : Operation Unit := do
  let siblings ← Operation.read (·.policiesOf persona.guid)
  ensureUniquePolicyName policy siblings
  ensureConnectionAdmin subjects user policy
  ensureUniqueAssets policy siblings

/-- Saves a policy, under a qualified name of its own when it has none. -/
def storePolicy (persona : Persona) (policy : PersonaPolicy) : Operation PersonaPolicy := do
  let unique ← Operation.fresh
  Operation.savePersonaPolicy
    (if policy.qualifiedName.isEmpty then
      { policy with qualifiedName := persona.qualifiedName ++ "/" ++ unique }
    else policy)

/-- Plans the concrete policies of a saved policy; a persona that is disabled has none. -/
def planPolicy (σ : ServiceSettings) (persona : Persona) (prior : Option PersonaPolicy)
    (saved : PersonaPolicy) : Operation Plan :=
  if persona.enabled then
    match prior with
    | none => planCreate σ persona {} saved
    | some prior => planUpdate σ persona prior saved
  else return {}

/-- Creates a persona policy, or updates the one with its identifier. -/
def putPolicy (σ : ServiceSettings) (subjects : Subjects) (user : String)
    (policy : PersonaPolicy) : Operation PolicyOutcome := do
  policy.check
  let persona ← requirePersona policy.personaGuid
  requireActive persona
  let prior ← priorPolicy policy
  admitPolicy subjects user persona policy
  let saved ← storePolicy persona policy
  let plan ← planPolicy σ persona prior saved
  let report ← Operation.execute σ.deadlineMs plan.mutations
  return { policy := saved, report }

/-- Deletes a persona policy and its grants. -/
def deletePolicy (σ : ServiceSettings) (guid : String) : Operation Report := do
  match ← Operation.read (·.personaPolicy? guid) with
  | none => throw (.notFound ("persona policy " ++ guid))
  | some policy =>
    let persona ← requirePersona policy.personaGuid
    let plan ← planStrip σ persona policy
    let report ← Operation.execute σ.deadlineMs plan.mutations
    Operation.deletePersonaPolicy guid
    return report

end PersonaService

end CatalogAccess
