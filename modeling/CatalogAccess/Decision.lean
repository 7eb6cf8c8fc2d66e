import CatalogAccess.Criteria.Evaluation
import CatalogAccess.Error
import CatalogAccess.Policy.Coverage
import CatalogAccess.PolicySnapshot

/-!
# Decisions

Whether a user may take an action on an entity or on a relationship. A denial takes precedence over
every grant, and without a grant nothing is allowed. The decision names the policy it rests on: the
first that applies, condition policies coming before resource policies and these before tag
policies.
-/

namespace CatalogAccess

/-- The outcome of a request, with the policy that it rests on. -/
structure Decision where
  /-- Whether the action may be taken. -/
  allowed : Bool
  /-- The policy that grants or denies; nothing when none applies. -/
  policyId : Option String
deriving DecidableEq, Repr

namespace Decision

/-- The grant by a policy. -/
def grant (policyId : String) : Decision := ⟨true, some policyId⟩

/-- The denial by a policy, or for want of a grant. -/
def denial (policyId : Option String) : Decision := ⟨false, policyId⟩

/-- The outcome when these policies are the first to deny and to grant. -/
def ofMatches (denying granting : Option String) : Decision :=
  match denying, granting with
  | some id, _ => denial (some id)
  | none, some id => grant id
  | none, none => denial none

/-- Reads a decision. -/
def ofDocument? (d : Document) : Option Decision := do
  let r ← d.record? ["allowed", "policyId"] 2
  let allowed ← r.required "allowed" Document.bool?
  let policyId ← r.optional "policyId" Document.string?
  return { allowed, policyId }

/-- The JSON form of a decision. -/
def toJson (d : Decision) : Json :=
  .obj [("allowed", .bool d.allowed), ("policyId", Json.ofOption d.policyId)]

end Decision

/-- What decisions are taken on. -/
inductive Target where
  /-- An entity. -/
  | entity (e : Entity)
  /-- A relationship. -/
  | relationship (r : Relationship)

namespace Target

/-- The category of the policies that apply to a target. -/
def category : Target → Policy.Category
  | entity _ => .entity
  | relationship _ => .relationship

/-- How the target appears in audit records. -/
def display : Target → String
  | entity e => e.display
  | relationship r => r.display

end Target

/-- Whether criteria hold for a target. For a relationship the criteria of both ends are needed. -/
def Criteria.holdFor (c : Criteria) : Target → Bool
  | .entity e => c.entity.any fun t => t.evaluate e
  | .relationship r =>
    match c.endOne, c.endTwo with
    | some one, some two => one.evaluate r.endOne && two.evaluate r.endTwo
    | _, _ => false

/-- Whether the resource map of a policy covers a target for a user. -/
def Policy.covers (p : Policy) (user : String) : Target → Bool
  | .entity e => p.coversEntity user e
  | .relationship r => p.coversRelationship user r

/-- Whether a relevant policy of a collection applies to a target for a user: a condition policy by
its criteria and any other by its resource map. -/
def Policy.appliesTo (p : Policy) (service : Policy.Service) (user : String) (t : Target) : Bool :=
  match service with
  | .condition => (Criteria.ofPolicy? p).any fun c => c.holdFor t
  | _ => p.covers user t

/-- The policies and subjects that decisions are taken by. -/
structure AccessView where
  /-- The policies. -/
  policies : PolicySnapshot := {}
  /-- The roles and user groups. -/
  subjects : Subjects := {}
  /-- How many clauses a search query may list side by side. -/
  clauseLimit : Nat := 1024

namespace AccessView

/-- The services in the order in which decisions consult them. -/
def serviceOrder : List Policy.Service := [.condition, .resource, .tag]

/-- The policies of a service relevant to an action on targets of a category, for a subject or for
everyone. -/
def relevant (v : AccessView) (subject : Option Subject) (action : String) (effect : Effect)
    (category : Policy.Category) (service : Policy.Service) : List Policy :=
  v.policies.relevant { service, effect, actions := [action], subject, category := some category }

/-- The policies relevant to an action of a user on a target that apply to it, in the order in
which decisions consult them. -/
def applying (v : AccessView) (user action : String) (t : Target) (effect : Effect) : List Policy :=
  let subject := v.subjects.resolve user
  serviceOrder.flatMap fun service =>
    (v.relevant (some subject) action effect t.category service).filter (·.appliesTo service user t)

/-- The decision on an action of a user on a target. -/
def decide (v : AccessView) (user action : String) (t : Target) : Decision :=
  Decision.ofMatches ((v.applying user action t .deny).head?.map Policy.displayId)
    ((v.applying user action t .allow).head?.map Policy.displayId)

/-- The error of a caller who needs an action that is denied. -/
def require (d : Decision) (user action target : String) : Except AccessError Decision :=
  if d.allowed then .ok d else .error (.unauthorized user action target)

end AccessView

end CatalogAccess
