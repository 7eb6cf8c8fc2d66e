import CatalogAccess.Accessors
import CatalogAccess.Audit
import CatalogAccess.EntitySource
import CatalogAccess.PersonaService
import CatalogAccess.SearchIndex

/-!
# A deployment

Everything that answers requests together: the stores of persona management, the snapshots that
decisions are taken by, the source of entities, the search index and the audit trail. Snapshots
change only when they are published, all at once.

Requests that are decided leave an audit record, also when the caller is refused.
-/

namespace CatalogAccess

/-- The state of a deployment. -/
structure Deployment where
  /-- What persona management is set to. -/
  settings : ServiceSettings := {}
  /-- How many clauses a search query may list side by side. -/
  clauseLimit : Nat := 1024
  /-- The stores of persona management. -/
  system : System := {}
  /-- The published roles and user groups. -/
  subjects : Subjects := {}
  /-- The published policies. -/
  policies : PolicySnapshot := {}
  /-- The entities and types. -/
  source : EntitySource := {}
  /-- The indexed entities, in the order of arrival. -/
  index : List Entity := []
  /-- The records of all decisions. -/
  audit : List AuditRecord := []

/-- A request to a deployment, which ends with a result or with an error. -/
abbrev Request (α : Type) := ExceptT AccessError (StateM Deployment) α

namespace Deployment

/-- What decisions are taken by. -/
def view (d : Deployment) : AccessView := ⟨d.policies, d.subjects, d.clauseLimit⟩

/-- Fails when a call with a deadline does. -/
def checkCall (d : Deployment) (label call argument : String) : Except AccessError Unit :=
  d.system.faults.checkWithin d.settings.deadlineMs label call argument

/-- The policies of a service, as they are fetched for a snapshot. -/
def fetchPolicies (d : Deployment) (service : Policy.Service) :
    Except AccessError (List Policy) := do
  d.checkCall "fetch policies" "fetch_policies" service.text
  return d.system.authority.ofService service

/-- The deployment with snapshots of what the authority holds; nothing is published when something
cannot be fetched. -/
def refresh (d : Deployment) : Except AccessError Deployment := do
  let resource ← d.fetchPolicies .resource
  let tag ← d.fetchPolicies .tag
  let condition ← d.fetchPolicies .condition
  d.checkCall "fetch roles" "fetch_roles" ""
  d.checkCall "fetch user groups" "fetch_user_groups" ""
  -- everything has been fetched: both snapshots change at once
  let a := d.system.authority
  return { d with
    subjects := ⟨a.roles.values, a.userGroups⟩
    policies := ⟨resource, tag, condition⟩ }

/-- The entity of an identifier with the ancestors of its type, which are looked up when the entity
brings none. -/
def resolve (d : Deployment) (guid : String) : Except AccessError Entity := do
  d.checkCall "resolve entity" "resolve_entity" guid
  match d.source.entities.get? guid with
  | none => throw (.notFound ("entity " ++ guid))
  | some e =>
    if e.superTypeNames.isEmpty then
      d.checkCall "type ancestors" "type_ancestors" e.typeName
      return { e with superTypeNames := (d.source.ancestors e.typeName).toList }
    else return e

/-- The hits of a query among the indexed entities. -/
def search (d : Deployment) (query : Json) (size : Nat) : Except AccessError (List SearchHit) :=
  searchDocuments query size d.index

/-- The hits of a query, searched for within a deadline. -/
def searchWithin (d : Deployment) (label : String) (query : Json) (size : Nat) :
    Except AccessError (List SearchHit) :=
  match d.checkCall label "search" "" with
  | .error (.authority _ text) => .error (.search text)
  | .error e => .error e
  | .ok () => d.search query size

/-- The deployment with the record of a decision. -/
def record (d : Deployment) (user action target : String) (decision : Decision) : Deployment :=
  { d with audit := d.audit ++ [⟨user, action, target, decision.policyId, decision.allowed⟩] }

end Deployment

namespace Request

/-- Reads the deployment. -/
def read {α : Type} (f : Deployment → Except AccessError α) : Request α := fun d => (f d, d)

/-- Changes the deployment. -/
def update (f : Deployment → Deployment) : Request Unit := fun d => (.ok (), f d)

/-- Runs an operation on the stores of persona management. -/
def manage {α : Type} (f : Deployment → Operation α) : Request α := fun d =>
  let (r, s) := f d d.system
  (r, { d with system := s })

/-- Publishes new snapshots. -/
def refresh : Request Unit := fun d =>
  match d.refresh with
  | .ok d' => (.ok (), d')
  | .error e => (.error e, d)

/-- Publishes new snapshots, or keeps the old ones when that fails. -/
def tryRefresh : Request Unit := fun d =>
  match d.refresh with
  | .ok d' => (.ok (), d')
  | .error _ => (.ok (), d)

/-- Decides on an action and records the decision. -/
def decide (user action : String) (t : Target) : Request Decision := do
  let decision ← read fun d => .ok (d.view.decide user action t)
  update (·.record user action t.display decision)
  return decision

/-- Decides on an action and refuses a caller who may not take it. -/
def verify (user action : String) (t : Target) : Request Decision := do
  let decision ← decide user action t
  AccessView.require decision user action t.display

/-- Decides on an action on the entity of an identifier, and refuses a caller who may not take
it. -/
def verifyByGuid (user action guid : String) : Request Decision := do
  let e ← read (·.resolve guid)
  verify user action (.entity e)

/-- Decides on an action by searching for the entity. -/
def checkBySearch (user guid action : String) : Request Decision := do
  let hits ← read fun d =>
    d.searchWithin "access search" (d.view.entityCheckQuery user guid action) 1
  let decision := Decision.ofEntityHits guid hits
  update (·.record user action guid decision)
  return decision

/-- Decides on an action by searching for both ends of a relationship. -/
def checkRelationshipBySearch (user action relationshipType guidOne guidTwo : String) :
    Request Decision := do
  let hits ← read fun d =>
    d.searchWithin "relationship access search"
      (d.view.relationshipCheckQuery user action relationshipType guidOne guidTwo) 2
  let decision := Decision.ofRelationshipHits guidOne guidTwo hits
  let target := relationshipType ++ "(" ++ guidOne ++ " -> " ++ guidTwo ++ ")"
  update (·.record user action target decision)
  return decision

end Request

end CatalogAccess
