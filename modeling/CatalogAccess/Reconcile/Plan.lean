import CatalogAccess.Policy.Signature
import CatalogAccess.Reconcile.Strip

/-!
# Reconciliation plans

A plan is the working copy of the policies that one request touches: those read from the authority,
by identifier, and those to be created. Later steps see the effects of earlier ones, so that a
policy is never written twice, and a policy emptied by one step can be revived by a later one. The
mutations of a plan are the writes that bring the authority to the planned state; policies that
were only read are not written.
-/

namespace CatalogAccess

/-- A write to the policy authority. -/
inductive Mutation where
  /-- A new policy. -/
  | create (p : Policy)
  /-- A new version of a policy. -/
  | update (p : Policy)
  /-- The end of a policy. -/
  | delete (id name : String)
deriving DecidableEq

/-- How a mutation appears in reports. -/
def Mutation.describe : Mutation → String
  | create p => "create " ++ p.name
  | update p => "update " ++ p.displayId
  | delete id name => "delete " ++ id ++ " (" ++ name ++ ")"

namespace Plan

/-- What a plan does with a policy of the authority. -/
inductive Fate where
  /-- It stays as it was read. -/
  | unchanged
  /-- It is written. -/
  | updated
  /-- It is deleted. -/
  | deleted
deriving DecidableEq, Repr

/-- A policy of the authority in a plan, with its working copy. -/
structure Tracked where
  /-- What becomes of it. -/
  fate : Fate
  /-- The working copy. -/
  policy : Policy
deriving DecidableEq

/-- Where a policy stands in a plan. -/
inductive Place where
  /-- Among the policies of the authority, by identifier. -/
  | tracked (id : String)
  /-- Among the policies to be created, by position. -/
  | planned (index : Nat)
deriving DecidableEq, Repr

end Plan

/-- The working copy of the policies that a request touches. -/
structure Plan where
  /-- The policies of the authority, by identifier. -/
  tracked : NameMap Plan.Tracked := ∅
  /-- The policies to be created. -/
  creates : List Policy := []

namespace Plan

/-- Takes a policy of the authority into the plan, as it was read. One that is there stays. -/
def load (plan : Plan) (p : Policy) : Plan :=
  match p.id with
  | none => plan
  | some id =>
    if plan.tracked.contains id then plan
    else { plan with tracked := plan.tracked.insert id ⟨.unchanged, p⟩ }

/-- The working copy of a policy of the authority, also when it is to be deleted. -/
def get? (plan : Plan) (id : String) : Option Policy := (plan.tracked.get? id).map Tracked.policy

/-- Whether a policy of the authority is to be deleted. -/
def isDeleted (plan : Plan) (id : String) : Bool :=
  (plan.tracked.get? id).any fun t => t.fate == .deleted

/-- Plans the creation of a policy. -/
def create (plan : Plan) (p : Policy) : Plan := { plan with creates := plan.creates ++ [p] }

/-- Plans a new version of a policy; one without identifier is created. -/
def put (plan : Plan) (p : Policy) : Plan :=
  match p.id with
  | none => plan.create p
  | some id => { plan with tracked := plan.tracked.insert id ⟨.updated, p⟩ }

/-- Plans the deletion of a policy. -/
def delete (plan : Plan) (p : Policy) : Plan :=
  match p.id with
  | none => plan
  | some id => { plan with tracked := plan.tracked.insert id ⟨.deleted, p⟩ }

/-- Plans what remains of a policy without a role. -/
def apply (plan : Plan) : Stripped → Plan
  | .unchanged => plan
  | .updated p => plan.put p
  | .emptied p => plan.delete p

/-- Where a policy with the same target stands in the plan: the policies of the authority come
first, those to be deleted included. -/
def findSameTarget? (plan : Plan) (provisional : Policy) : Option Place :=
  match plan.tracked.toList.find? fun e => e.2.policy.sameTarget provisional with
  | some e => some (.tracked e.1)
  | none => (plan.creates.findIdx? fun p => p.sameTarget provisional).map .planned

/-- A policy to be created, by position. -/
def planned? (plan : Plan) (index : Nat) : Option Policy := plan.creates[index]?

/-- Replaces a policy to be created. -/
def replacePlanned (plan : Plan) (index : Nat) (p : Policy) : Plan :=
  { plan with creates := plan.creates.set index p }

/-- The write that a policy of the authority needs. -/
def Tracked.mutation? (id : String) (t : Tracked) : Option Mutation :=
  match t.fate with
  | .unchanged => none
  | .updated => some (.update t.policy)
  | .deleted => some (.delete id t.policy.name)

/-- The writes of a plan: those to policies of the authority by identifier, then the creations. -/
def mutations (plan : Plan) : List Mutation :=
  plan.tracked.toList.filterMap (fun e => e.2.mutation? e.1) ++ plan.creates.map .create

/-- Merges a provisional policy into the working copy of a policy of the authority. One that was to
be deleted is kept when the provisional policy finds it already as it should be. -/
def mergeTracked (plan : Plan) (existing provisional : Policy) (role : String) : Plan :=
  let id := existing.id.getD ""
  let current := (plan.get? id).getD existing
  match current.mergeRoleItem provisional role with
  | some merged => plan.put merged
  | none => if plan.isDeleted id then plan.put current else plan

/-- Merges a provisional policy into a policy to be created. -/
def mergePlanned (plan : Plan) (index : Nat) (provisional : Policy) (role : String) : Plan :=
  match (plan.planned? index).bind fun p => p.mergeRoleItem provisional role with
  | some merged => plan.replacePlanned index merged
  | none => plan

/-- Strips a role and labels from policies of the authority. -/
def stripAll (plan : Plan) (policies : List Policy) (role : String) (labels : List String) : Plan :=
  policies.foldl (fun plan p => (plan.load p).apply (p.stripRole role labels)) plan

end Plan

end CatalogAccess
