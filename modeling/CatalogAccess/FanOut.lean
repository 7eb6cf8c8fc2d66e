import CatalogAccess.System

/-!
# Applying mutations

The mutations of a plan are applied to the policy authority one after the other, each within a
deadline. Every mutation is attempted: one that fails is reported and does not keep the others from
being applied.
-/

namespace CatalogAccess

/-- A mutation that did not go through. -/
structure FailedMutation where
  /-- The mutation. -/
  target : String
  /-- What went wrong. -/
  error : String
deriving DecidableEq, Repr

/-- What happened to a batch of mutations. -/
structure Report where
  /-- How many mutations were attempted. -/
  attempted : Nat := 0
  /-- How many went through. -/
  succeeded : Nat := 0
  /-- The mutations that did not, in the order of the batch. -/
  failures : List FailedMutation := []
deriving DecidableEq, Repr

namespace Report

/-- Whether every mutation went through. -/
def isComplete (r : Report) : Bool := r.failures.isEmpty && r.succeeded == r.attempted

/-- Orders failures by mutation, and those of one mutation by what went wrong. -/
def failureOrder (a b : FailedMutation) : Bool :=
  a.target < b.target || (a.target == b.target && a.error ≤ b.error)

/-- The JSON form of a report, with its failures in order. -/
def toJson (r : Report) : Json :=
  .obj [("attempted", Json.nat r.attempted), ("complete", .bool r.isComplete),
    ("failures", .arr ((r.failures.mergeSort failureOrder).map fun f =>
      .obj [("error", .str f.error), ("target", .str f.target)])),
    ("succeeded", Json.nat r.succeeded)]

end Report

namespace System

/-- The policy authority after a mutation. -/
def applyMutation (s : System) (deadlineMs : Nat) (m : Mutation) : Except AccessError Authority :=
  match m with
  | .create p => do
    s.faults.checkWithin deadlineMs m.describe "create_policy" p.name
    return (← s.authority.createPolicy p).2
  | .update p => do
    s.faults.checkWithin deadlineMs m.describe "update_policy" p.displayId
    return (← s.authority.updatePolicy p).2
  | .delete id _ => do
    s.faults.checkWithin deadlineMs m.describe "delete_policy" id
    s.authority.deletePolicy id

/-- The report and the system after one more mutation. -/
def attempt (deadlineMs : Nat) (state : Report × System) (m : Mutation) : Report × System :=
  let (r, s) := state
  match s.applyMutation deadlineMs m with
  | .ok a =>
    ({ r with attempted := r.attempted + 1, succeeded := r.succeeded + 1 },
      { s with authority := a })
  | .error e =>
    ({ r with
        attempted := r.attempted + 1, failures := r.failures ++ [⟨m.describe, e.message⟩] }, s)

/-- Attempts every mutation. -/
def execute (s : System) (deadlineMs : Nat) (mutations : List Mutation) : Report × System :=
  mutations.foldl (attempt deadlineMs) ({}, s)

end System

/-- Attempts every mutation of a plan. -/
def Operation.execute (deadlineMs : Nat) (mutations : List Mutation) : Operation Report := fun s =>
  let (r, s') := s.execute deadlineMs mutations
  (.ok r, s')

end CatalogAccess
