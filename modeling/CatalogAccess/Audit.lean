import CatalogAccess.Json.Record

/-!
# The audit log

Every decision leaves a record. Records wait in a bounded queue, from which a writer takes them in
batches and delivers them to a sink; a record that finds the queue full is dropped. The log moves by
calls (`log`, `start`, `requestStop`) and by steps of the writer (`step`), in any order. `stop` asks
the writer to end and lets it run until it has: a writer ends only when the queue is empty.
-/

namespace CatalogAccess

/-- The record of a decision. -/
structure AuditRecord where
  /-- The user. -/
  principal : String
  /-- The action. -/
  action : String
  /-- What the action was to be taken on. -/
  target : String
  /-- The policy that the decision rests on. -/
  policyId : Option String
  /-- Whether the action was allowed. -/
  allowed : Bool
deriving DecidableEq, Repr

/-- The JSON form of a record: its fields in a list. -/
def AuditRecord.toJson (r : AuditRecord) : Json :=
  .arr [.str r.principal, .str r.action, .str r.target, Json.ofOption r.policyId, .bool r.allowed]

namespace AuditLog

/-- What the writer is doing. -/
inductive Writer where
  /-- There is no writer. -/
  | absent
  /-- It waits for a record. -/
  | waiting
  /-- It has begun a batch. -/
  | filling (batch : List AuditRecord)
  /-- It delivers a batch. -/
  | delivering (batch : List AuditRecord)
deriving DecidableEq, Repr

end AuditLog

/-- The state of the audit log. -/
structure AuditLog where
  /-- The length of the queue, before the least bound of one is applied. -/
  capacity : Nat
  /-- The length of batches, before the least bound of one is applied. -/
  batchSize : Nat
  /-- The records that wait. -/
  queue : List AuditRecord := []
  /-- The writer. -/
  writer : AuditLog.Writer := .absent
  /-- The sink that the writer delivers to. -/
  sink : Nat := 0
  /-- Whether the writer has not been asked to end. -/
  running : Bool := false
  /-- The batches delivered, each with its sink. -/
  delivered : List (Nat × List AuditRecord) := []
  /-- How many records were accepted. -/
  logged : Nat := 0
  /-- How many records were dropped. -/
  dropped : Nat := 0
  /-- How many records were delivered. -/
  flushed : Nat := 0

namespace AuditLog

/-- How many records can wait. -/
def bound (l : AuditLog) : Nat := max l.capacity 1

/-- How many records a batch holds at most. -/
def batchBound (l : AuditLog) : Nat := max l.batchSize 1

/-- Accepts a record, or drops it when the queue is full. -/
def log (l : AuditLog) (r : AuditRecord) : AuditLog :=
  if l.queue.length < l.bound then { l with queue := l.queue ++ [r], logged := l.logged + 1 }
  else { l with dropped := l.dropped + 1 }

/-- Whether there is a writer. -/
def isStarted (l : AuditLog) : Bool := l.writer != .absent

/-- Starts a writer for a sink, unless there is one. -/
def start (l : AuditLog) (sink : Nat) : AuditLog :=
  if l.isStarted then l else { l with writer := .waiting, sink, running := true }

/-- Asks the writer to end. -/
def requestStop (l : AuditLog) : AuditLog := { l with running := false }

/-- The next step of the writer, when it has one: it takes a record, closes a batch that is full or
finds the queue empty, delivers a batch, or ends. -/
def step? (l : AuditLog) : Option AuditLog :=
  match l.writer, l.queue with
  | .absent, _ => none
  | .waiting, r :: rest => some { l with queue := rest, writer := .filling [r] }
  | .waiting, [] => if l.running then none else some { l with writer := .absent }
  | .filling batch, [] => some { l with writer := .delivering batch }
  | .filling batch, r :: rest =>
    if batch.length < l.batchBound then
      some { l with queue := rest, writer := .filling (batch ++ [r]) }
    else some { l with writer := .delivering batch }
  | .delivering batch, _ =>
    some { l with
      writer := .waiting, delivered := l.delivered ++ [(l.sink, batch)]
      flushed := l.flushed + batch.length }

/-- How much the writer has left to do. -/
def workLeft (l : AuditLog) : Nat :=
  3 * l.queue.length + match l.writer with
    | .absent => 0
    | .waiting => 1
    | .filling _ => 3
    | .delivering _ => 2

theorem workLeft_of_step? {l l' : AuditLog} (h : l.step? = some l') : l'.workLeft < l.workLeft := by
  unfold step? at h
  split at h
  · simp at h
  · rename_i r rest hw hq
    simp only [Option.some.injEq] at h
    subst h; simp only [workLeft, hw, hq, List.length_cons]; omega
  · rename_i hw hq
    split at h
    · simp at h
    · simp only [Option.some.injEq] at h
      subst h; simp [workLeft, hw, hq]
  · rename_i hw hq
    simp only [Option.some.injEq] at h
    subst h; simp [workLeft, hw, hq]
  · rename_i batch r rest hw hq
    split at h <;> simp only [Option.some.injEq] at h <;> subst h <;>
      simp only [workLeft, hw, hq, List.length_cons] <;> omega
  · rename_i hw
    simp only [Option.some.injEq] at h
    subst h; simp only [workLeft, hw]; omega

/-- Lets the writer run until it has nothing to do. -/
def settle (l : AuditLog) : AuditLog :=
  match h : l.step? with
  | none => l
  | some l' => have := workLeft_of_step? h; l'.settle
termination_by l.workLeft

/-- Asks the writer to end, and waits until it has delivered all that waits. -/
def stop (l : AuditLog) : AuditLog := l.requestStop.settle

/-- The batches delivered to a sink. -/
def batchesOf (l : AuditLog) (sink : Nat) : List (List AuditRecord) :=
  (l.delivered.filter (·.1 == sink)).map Prod.snd

end AuditLog

end CatalogAccess
