import CatalogAccess.Audit

/-!
# The audit log neither loses, duplicates nor reorders records

Callers and the writer move the log in any order (`Event`). Queueing a record and counting it is one
move, and so is delivering a batch and counting it. What is counted at every point of such a history
is `Accounts`: the records delivered, then the batch in hand, then the queue are the records
that were accepted, in the order in which they came. One lemma for each event says that it keeps the
accounts, `Accounts.run` that every history does, and `accounts_balance` puts together what follows
for the counters, the batches and the end of a writer.
-/

namespace CatalogAccess.AuditLog

variable {l l' : AuditLog}

/-! ### The writer's steps -/

/-- The records that a writer has taken and not delivered. -/
def Writer.batch : Writer → List AuditRecord
  | absent | waiting => []
  | filling batch | delivering batch => batch

/-- What one step of the writer does. -/
inductive Step (l : AuditLog) : AuditLog → Prop where
  /-- It takes the first record of a batch. -/
  | begins {r : AuditRecord} {rest : List AuditRecord} (hwriter : l.writer = .waiting)
      (hqueue : l.queue = r :: rest) :
    Step l { l with queue := rest, writer := .filling [r] }
  /-- It ends, for it was asked to and nothing waits. -/
  | ends (hwriter : l.writer = .waiting) (hqueue : l.queue = []) (hasked : l.running = false) :
    Step l { l with writer := .absent }
  /-- It adds a record to a batch that is not full. -/
  | adds {batch : List AuditRecord} {r : AuditRecord} {rest : List AuditRecord}
      (hwriter : l.writer = .filling batch) (hqueue : l.queue = r :: rest)
      (hroom : batch.length < l.batchBound) :
    Step l { l with queue := rest, writer := .filling (batch ++ [r]) }
  /-- It closes a batch. -/
  | closes {batch : List AuditRecord} (hwriter : l.writer = .filling batch) :
    Step l { l with writer := .delivering batch }
  /-- It delivers a batch. -/
  | delivers {batch : List AuditRecord} (hwriter : l.writer = .delivering batch) :
    Step l { l with
      writer := .waiting, delivered := l.delivered ++ [(l.sink, batch)]
      flushed := l.flushed + batch.length }

theorem step_of_step? (h : l.step? = some l') : Step l l' := by
  unfold step? at h
  split at h
  case h_1 => exact absurd h.symm (Option.some_ne_none l')
  case h_2 r rest hwriter hqueue =>
    obtain rfl := Option.some.inj h
    exact .begins hwriter hqueue
  case h_3 hwriter hqueue =>
    split at h
    · exact absurd h.symm (Option.some_ne_none l')
    · rename_i hasked
      obtain rfl := Option.some.inj h
      exact .ends hwriter hqueue (Bool.eq_false_iff.mpr hasked)
  case h_4 batch hwriter hqueue =>
    obtain rfl := Option.some.inj h
    exact .closes hwriter
  case h_5 batch r rest hwriter hqueue =>
    split at h
    · rename_i hroom
      obtain rfl := Option.some.inj h
      exact .adds hwriter hqueue hroom
    · obtain rfl := Option.some.inj h
      exact .closes hwriter
  case h_6 batch hwriter =>
    obtain rfl := Option.some.inj h
    exact .delivers hwriter

/-- The writer has nothing to do when there is none, or when it waits for a record. -/
theorem idle_of_step? (h : l.step? = none) :
    l.writer = .absent ∨ l.writer = .waiting ∧ l.queue = [] ∧ l.running = true := by
  unfold step? at h
  split at h
  case h_1 hwriter => exact .inl hwriter
  case h_3 hwriter hqueue =>
    split at h
    · exact .inr ⟨hwriter, hqueue, ‹_›⟩
    · exact absurd h (Option.some_ne_none _)
  case h_5 => split at h <;> exact absurd h (Option.some_ne_none _)
  all_goals exact absurd h (Option.some_ne_none _)

/-- What every step keeps, settling keeps. -/
theorem settle_induction {P : AuditLog → Prop} (hstep : ∀ l l', Step l l' → P l → P l') (h : P l) :
    P l.settle := by
  fun_induction settle l with
  | case1 l hnone => exact h
  | case2 l l' hsome _ ih => exact ih (hstep l l' (step_of_step? hsome) h)

theorem step?_settle : l.settle.step? = none := by
  fun_induction settle l with
  | case1 l hnone => exact hnone
  | case2 l l' hsome _ ih => exact ih

/-! ### The end of a writer -/

/-- A step that ends the writer leaves nothing in the queue. -/
theorem Step.queue_eq_nil (h : Step l l') (hends : l'.writer = .absent) : l'.queue = [] := by
  cases h with
  | ends _ hqueue _ => exact hqueue
  | begins => exact nomatch hends
  | adds => exact nomatch hends
  | closes => exact nomatch hends
  | delivers => exact nomatch hends

/-- No step asks the writer to end, or takes such a request back. -/
theorem Step.running_eq (h : Step l l') : l'.running = l.running := by cases h <;> rfl

/-- The writer has been asked to end, and has not left anything behind. -/
structure Ending (l : AuditLog) : Prop where
  /-- The writer has been asked to end. -/
  asked : l.running = false
  /-- If it has ended, nothing waits. -/
  done : l.writer = .absent → l.queue = []

theorem Ending.step (h : Step l l') (hending : l.Ending) : l'.Ending :=
  ⟨h.running_eq.trans hending.asked, h.queue_eq_nil⟩

theorem isStarted_iff : l.isStarted = true ↔ l.writer ≠ .absent := bne_iff_ne

theorem isStarted_eq_false_iff : l.isStarted = false ↔ l.writer = .absent := bne_eq_false_iff_eq

/-- When a writer has been stopped, there is none, and nothing waits. -/
theorem stop_of_isStarted (h : l.isStarted = true) : l.stop.writer = .absent ∧ l.stop.queue = [] := by
  have hending : l.stop.Ending :=
    settle_induction (fun _ _ => Ending.step) ⟨rfl, fun habsent => absurd habsent (isStarted_iff.mp h)⟩
  obtain habsent | ⟨-, -, hrunning⟩ := idle_of_step? (step?_settle (l := l.requestStop))
  · exact ⟨habsent, hending.done habsent⟩
  · exact absurd hrunning (Bool.eq_false_iff.mp hending.asked)

/-! ### Histories -/

/-- What can happen to the log. -/
inductive Event where
  /-- A record comes. -/
  | log (r : AuditRecord)
  /-- A writer is started for a sink. -/
  | start (sink : Nat)
  /-- The writer is asked to end, and nobody waits for it yet. -/
  | requestStop
  /-- The writer is stopped. -/
  | stop
  /-- The writer takes a step, if it has one. -/
  | step
deriving DecidableEq, Repr

/-- The log after an event. -/
def apply (l : AuditLog) : Event → AuditLog
  | .log r => l.log r
  | .start sink => l.start sink
  | .requestStop => l.requestStop
  | .stop => l.stop
  | .step => l.step?.getD l

/-- The log after a history. -/
def run (l : AuditLog) (events : List Event) : AuditLog := events.foldl apply l

/-- The record that comes with an event. -/
def Event.record? : Event → Option AuditRecord
  | log r => some r
  | _ => none

/-- The record that comes with an event, when there is room for it in the queue. -/
def admitted (l : AuditLog) : Event → List AuditRecord
  | .log r => if l.queue.length < l.bound then [r] else []
  | _ => []

/-- The records that were accepted in the course of a history, in the order in which they came. -/
def accepted (l : AuditLog) : List Event → List AuditRecord
  | [] => []
  | e :: events => l.admitted e ++ (l.apply e).accepted events

/-- The records that have been delivered, in order. -/
def deliveredRecords (l : AuditLog) : List AuditRecord := l.delivered.flatMap Prod.snd

/-! ### The accounts -/

/-- What is counted of a log with given bounds, when some records have been accepted and a number
of records have come. -/
structure Accounts (capacity batchSize : Nat) (accepted : List AuditRecord) (came : Nat)
    (l : AuditLog) : Prop where
  /-- The length of the queue is the one configured. -/
  bound_eq : l.bound = max capacity 1
  /-- The length of batches is the one configured. -/
  batchBound_eq : l.batchBound = max batchSize 1
  /-- What was accepted is delivered, in hand, or waits. -/
  records : l.deliveredRecords ++ l.writer.batch ++ l.queue = accepted
  /-- The queue is bounded. -/
  waits : l.queue.length ≤ l.bound
  /-- The accepted records are counted. -/
  logged : l.logged = accepted.length
  /-- Every record that came is counted. -/
  total : l.logged + l.dropped = came
  /-- The delivered records are counted. -/
  flushed : l.flushed = l.deliveredRecords.length
  /-- A batch that was begun is of a length that a batch may have. -/
  inHand : l.writer ≠ .absent → l.writer ≠ .waiting →
    1 ≤ l.writer.batch.length ∧ l.writer.batch.length ≤ l.batchBound
  /-- So is every batch that was delivered. -/
  batches : ∀ b ∈ l.delivered, 1 ≤ b.2.length ∧ b.2.length ≤ l.batchBound

namespace Accounts

variable {capacity batchSize came : Nat} {accepted : List AuditRecord}

/-- A step hands records on: from the queue to the batch in hand, and from there to the sink. -/
theorem step (h : Step l l') (hl : Accounts capacity batchSize accepted came l) :
    Accounts capacity batchSize accepted came l' := by
  have hrecords := hl.records
  have hwaits := hl.waits
  cases h with
  | @begins r rest hwriter hqueue =>
    rw [hwriter, hqueue] at hrecords
    rw [hqueue] at hwaits
    refine { hl with
      records := ?_, waits := Nat.le_of_succ_le hwaits
      inHand := fun _ _ => ⟨Nat.le_refl 1, Nat.le_max_right l.batchSize 1⟩ }
    calc l.deliveredRecords ++ [r] ++ rest
        = l.deliveredRecords ++ [] ++ r :: rest := by rw [List.append_nil, List.append_assoc]; rfl
      _ = accepted := hrecords
  | ends hwriter _ _ =>
    rw [hwriter] at hrecords
    exact { hl with records := hrecords, inHand := fun habsent => absurd rfl habsent }
  | @adds batch r rest hwriter hqueue hroom =>
    rw [hwriter, hqueue] at hrecords
    rw [hqueue] at hwaits
    have hlength : (batch ++ [r]).length = batch.length + 1 := List.length_append
    refine { hl with
      records := ?_, waits := Nat.le_of_succ_le hwaits
      inHand := fun _ _ => ⟨hlength ▸ Nat.le_add_left 1 _, hlength ▸ hroom⟩ }
    calc l.deliveredRecords ++ (batch ++ [r]) ++ rest
        = l.deliveredRecords ++ batch ++ r :: rest := by simp only [List.append_assoc]; rfl
      _ = accepted := hrecords
  | @closes batch hwriter =>
    have hbatch := hl.inHand (by simp [hwriter]) (by simp [hwriter])
    rw [hwriter] at hrecords hbatch
    exact { hl with records := hrecords, inHand := fun _ _ => hbatch }
  | @delivers batch hwriter =>
    have hbatch := hl.inHand (by simp [hwriter]) (by simp [hwriter])
    rw [hwriter] at hrecords hbatch
    have hdelivered : (l.delivered ++ [(l.sink, batch)]).flatMap Prod.snd =
        l.deliveredRecords ++ batch := by
      rw [List.flatMap_append, List.flatMap_singleton]; rfl
    refine { hl with
      records := ?_, flushed := ?_, inHand := fun _ hwaiting => absurd rfl hwaiting, batches := ?_ }
    · show (l.delivered ++ [(l.sink, batch)]).flatMap Prod.snd ++ [] ++ l.queue = accepted
      rw [hdelivered, List.append_nil]
      exact hrecords
    · show l.flushed + batch.length = ((l.delivered ++ [(l.sink, batch)]).flatMap Prod.snd).length
      rw [hdelivered, List.length_append, hl.flushed]
    · intro b hb
      obtain hold | hnew := List.mem_append.mp hb
      · exact hl.batches b hold
      · obtain rfl := List.mem_singleton.mp hnew
        exact hbatch

/-- A record is accepted when there is room for it, and dropped when there is none. -/
theorem log (hl : Accounts capacity batchSize accepted came l) (r : AuditRecord) :
    Accounts capacity batchSize (accepted ++ l.admitted (.log r)) (came + 1) (l.log r) := by
  have htotal := hl.total
  by_cases hroom : l.queue.length < l.bound
  · rw [AuditLog.log, admitted, if_pos hroom, if_pos hroom]
    refine { hl with records := ?_, waits := ?_, logged := ?_, total := ?_ }
    · rw [← hl.records]
      exact (List.append_assoc _ _ _).symm
    · exact Nat.le_trans (Nat.le_of_eq List.length_append) hroom
    · rw [List.length_append, ← hl.logged]
      rfl
    · show l.logged + 1 + l.dropped = came + 1
      omega
  · rw [AuditLog.log, admitted, if_neg hroom, if_neg hroom, List.append_nil]
    refine { hl with total := ?_ }
    show l.logged + (l.dropped + 1) = came + 1
    omega

theorem start (hl : Accounts capacity batchSize accepted came l) (sink : Nat) :
    Accounts capacity batchSize accepted came (l.start sink) := by
  have hrecords := hl.records
  cases hstarted : l.isStarted with
  | true =>
    rw [AuditLog.start, if_pos hstarted]
    exact hl
  | false =>
    have habsent : l.writer = .absent := isStarted_eq_false_iff.mp hstarted
    rw [habsent] at hrecords
    rw [AuditLog.start, if_neg (Bool.eq_false_iff.mp hstarted)]
    exact { hl with records := hrecords, inHand := fun _ hwaiting => absurd rfl hwaiting }

theorem requestStop (hl : Accounts capacity batchSize accepted came l) :
    Accounts capacity batchSize accepted came l.requestStop := { hl with }

theorem stop (hl : Accounts capacity batchSize accepted came l) :
    Accounts capacity batchSize accepted came l.stop :=
  settle_induction (fun _ _ => step) hl.requestStop

/-- Every event keeps the accounts. -/
theorem apply (hl : Accounts capacity batchSize accepted came l) (e : Event) :
    Accounts capacity batchSize (accepted ++ l.admitted e) (came + e.record?.toList.length)
      (l.apply e) := by
  cases e with
  | log r => exact hl.log r
  | start sink => exact (List.append_nil accepted).symm ▸ hl.start sink
  | requestStop => exact (List.append_nil accepted).symm ▸ hl.requestStop
  | stop => exact (List.append_nil accepted).symm ▸ hl.stop
  | step =>
    refine (List.append_nil accepted).symm ▸ ?_
    rw [AuditLog.apply]
    cases hstep : l.step? with
    | none => exact hl
    | some l' => exact hl.step (step_of_step? hstep)

/-- Every history keeps the accounts. -/
theorem run (hl : Accounts capacity batchSize accepted came l) (events : List Event) :
    Accounts capacity batchSize (accepted ++ l.accepted events)
      (came + (events.filterMap Event.record?).length) (l.run events) := by
  induction events generalizing l accepted came with
  | nil => exact (List.append_nil accepted).symm ▸ hl
  | cons e events ih =>
    have hrest := ih (hl.apply e)
    have hcame : (came + e.record?.toList.length) + (events.filterMap Event.record?).length =
        came + ((e :: events).filterMap Event.record?).length := by
      rw [List.filterMap_cons]
      cases e.record? with
      | none => rfl
      | some r => simp only [Option.toList_some, List.length_cons, List.length_nil]; omega
    rw [List.append_assoc, hcame] at hrest
    exact hrest

/-- The accounts of a log that nothing has happened to. -/
theorem empty (capacity batchSize : Nat) :
    Accounts capacity batchSize [] 0 { capacity, batchSize } :=
  ⟨rfl, rfl, rfl, Nat.zero_le _, rfl, rfl, rfl, fun habsent => absurd rfl habsent,
    fun _ hb => absurd hb List.not_mem_nil⟩

/-- The number of dropped records changes when a record finds the queue full, and only then. -/
theorem dropped_ne_iff (hl : Accounts capacity batchSize accepted came l) (r : AuditRecord) :
    (l.log r).dropped ≠ l.dropped ↔ l.queue.length = max capacity 1 := by
  rw [← hl.bound_eq]
  have hwaits := hl.waits
  unfold AuditLog.log
  split
  · exact ⟨fun hne => absurd rfl hne, fun hfull => by omega⟩
  · exact ⟨fun _ => by omega, fun _ => Nat.succ_ne_self _⟩

end Accounts

/-- Whatever the order in which callers and the writer move the log: the records delivered, followed
by the batch in hand and by the queue, are the records accepted, in the order in which they came. A
record is dropped when the queue is full and only then, the counters are the numbers that they stand
for, no batch is empty or longer than configured, a writer ends only when the queue is empty, and one
that is stopped has delivered all that was accepted. -/
theorem accounts_balance (capacity batchSize : Nat) (events : List Event) :
    let start : AuditLog := { capacity, batchSize }
    let l := start.run events
    l.deliveredRecords ++ l.writer.batch ++ l.queue = start.accepted events ∧
    (l.writer.batch = [] → l.deliveredRecords ++ l.queue = start.accepted events) ∧
    (∀ r, (l.log r).dropped ≠ l.dropped ↔ l.queue.length = max capacity 1) ∧
    l.logged = (start.accepted events).length ∧
    l.logged + l.dropped = (events.filterMap Event.record?).length ∧
    l.flushed = l.deliveredRecords.length ∧
    (∀ b ∈ l.delivered, 1 ≤ b.2.length ∧ b.2.length ≤ max batchSize 1) ∧
    (∀ l', l.step? = some l' → l'.isStarted = false → l'.queue = []) ∧
    (l.isStarted = true → l.stop.queue = [] ∧ l.stop.isStarted = false ∧
      l.stop.deliveredRecords = start.accepted events) := by
  intro start l
  have hl : Accounts capacity batchSize (start.accepted events)
      (events.filterMap Event.record?).length l := by
    simpa using (Accounts.empty capacity batchSize).run events
  refine ⟨hl.records, fun hbatch => ?_, hl.dropped_ne_iff, hl.logged, hl.total, hl.flushed,
    hl.batchBound_eq ▸ hl.batches, fun l' hstep hends => ?_, fun hstarted => ?_⟩
  · have hrecords := hl.records
    rwa [hbatch, List.append_nil] at hrecords
  · exact (step_of_step? hstep).queue_eq_nil (isStarted_eq_false_iff.mp hends)
  · obtain ⟨habsent, hqueue⟩ := stop_of_isStarted hstarted
    have hrecords := hl.stop.records
    rw [habsent, hqueue] at hrecords
    refine ⟨hqueue, isStarted_eq_false_iff.mpr habsent, ?_⟩
    simpa [Writer.batch] using hrecords

/-- Two records find room before there is a writer, and the third does not. The first writer is asked
to end while it has a batch in hand, and delivers all that waits before it ends. What comes after that
is delivered by the second, to another sink. -/
example :
    let record (principal : String) : AuditRecord := ⟨principal, "read", "t", none, true⟩
    let l := ({ capacity := 2, batchSize := 0 } : AuditLog).run
      [.log (record "a"), .log (record "b"), .log (record "c"), .start 0, .step, .requestStop, .step,
        .step, .log (record "d"), .step, .step, .step, .step, .step, .step, .step,
        .log (record "e"), .start 1, .step, .step, .step]
    l.delivered = [(0, [record "a"]), (0, [record "b"]), (0, [record "d"]), (1, [record "e"])] ∧
      (l.logged, l.dropped, l.flushed) = (4, 1, 4) ∧ l.queue = [] := by decide

end CatalogAccess.AuditLog
