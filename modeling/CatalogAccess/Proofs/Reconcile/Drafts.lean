import CatalogAccess.Proofs.Reconcile.Plan
import CatalogAccess.Proofs.Reconcile.Stripping

/-!
# Plans of any steps

A plan may be drafted by steps in any order: stored policies are loaded, policies that have been loaded
are written or deleted or given what stripping leaves of them, and new policies are planned and replaced
(`Plan.Drafted`). However the steps follow each other, what the plan holds of a policy is what the last
step about it has said (`Plan.Drafted.tracked`, `Plan.Drafted.planned`). A stored policy that was only
loaded stays as it is stored, whatever has been done to others in between (`Plan.Drafted.mirrors`).
-/

namespace CatalogAccess

namespace Plan

/-! ### Steps -/

/-- A step of drafting a plan. -/
inductive Step where
  /-- Takes a policy into the plan as it was read. -/
  | load (p : Policy)
  /-- Plans a new version of a policy. -/
  | put (p : Policy)
  /-- Plans the deletion of a policy. -/
  | delete (p : Policy)
  /-- Plans what stripping leaves of a policy. -/
  | apply (outcome : Stripped)
  /-- Plans the creation of a policy. -/
  | create (p : Policy)
  /-- Replaces a policy to be created. -/
  | replacePlanned (index : Nat) (p : Policy)

/-- The plan tracks the identifier of the policy. -/
def Knows (plan : Plan) (p : Policy) : Prop :=
  ∃ id t, p.id = some id ∧ plan.tracked.get? id = some t

namespace Step

/-- The plan after a step. -/
def run (plan : Plan) : Step → Plan
  | load p => plan.load p
  | put p => plan.put p
  | delete p => plan.delete p
  | apply outcome => plan.apply outcome
  | create p => plan.create p
  | replacePlanned index p => plan.replacePlanned index p

/-- What is loaded is stored, what is written is tracked, and what is planned has no identifier. -/
def Allowed (stored : NameMap Policy) (plan : Plan) : Step → Prop
  | load p => ∃ id, stored.get? id = some p
  | put p => plan.Knows p
  | delete p => plan.Knows p
  | apply outcome => ∀ p, outcome.policy? = some p → plan.Knows p
  | create p => p.id = none
  | replacePlanned _ p => p.id = none

/-- The entry that a step makes in place of another. -/
def change? : Step → Option Tracked
  | put p => some ⟨.updated, p⟩
  | delete p => some ⟨.deleted, p⟩
  | apply (.updated p) => some ⟨.updated, p⟩
  | apply (.emptied p) => some ⟨.deleted, p⟩
  | _ => none

/-- What a step says of the policy of an identifier, unless it only reads it. -/
def written? (id : String) (step : Step) : Option Tracked :=
  step.change?.filter (·.policy.id == some id)

/-- What a step reads under an identifier. -/
def read? (id : String) : Step → Option Tracked
  | load p => if p.id = some id then some ⟨.unchanged, p⟩ else none
  | _ => none

/-- The policy that a step plans to create. -/
def created? : Step → Option Policy
  | create p => some p
  | _ => none

variable {stored : NameMap Policy} {plan : Plan} {step : Step} {id : String} {t : Tracked}

theorem written?_eq_some_iff :
    step.written? id = some t ↔ step.change? = some t ∧ t.policy.id = some id := by
  simp [written?]

theorem fate_of_change? (ht : step.change? = some t) : t.fate ≠ .unchanged := by
  unfold change? at ht
  split at ht
  · exact Option.some.inj ht ▸ Fate.noConfusion
  · exact Option.some.inj ht ▸ Fate.noConfusion
  · exact Option.some.inj ht ▸ Fate.noConfusion
  · exact Option.some.inj ht ▸ Fate.noConfusion
  · exact absurd ht.symm (Option.some_ne_none t)

theorem read?_eq_some_iff :
    step.read? id = some t ↔ ∃ p, step = load p ∧ p.id = some id ∧ t = ⟨.unchanged, p⟩ := by
  cases step <;> simp [read?, eq_comm (a := t)]

/-- What is written is written for a policy that is tracked. -/
theorem knows_of_change? (h : step.Allowed stored plan) (ht : step.change? = some t) :
    plan.Knows t.policy := by
  unfold change? at ht
  split at ht
  · obtain rfl := Option.some.inj ht
    exact h
  · obtain rfl := Option.some.inj ht
    exact h
  · obtain rfl := Option.some.inj ht
    exact h _ rfl
  · obtain rfl := Option.some.inj ht
    exact h _ rfl
  · exact absurd ht.symm (Option.some_ne_none t)

/-- Writing or deleting a policy with an identifier replaces its entry. -/
theorem run_of_change? (ht : step.change? = some t) (hid : t.policy.id = some id) :
    step.run plan = { plan with tracked := plan.tracked.insert id t } := by
  unfold change? at ht
  split at ht
  · obtain rfl := Option.some.inj ht
    exact put_of_id hid
  · obtain rfl := Option.some.inj ht
    exact delete_of_id hid
  · obtain rfl := Option.some.inj ht
    exact put_of_id hid
  · obtain rfl := Option.some.inj ht
    exact delete_of_id hid
  · exact absurd ht.symm (Option.some_ne_none t)

/-- A step that writes nothing leaves the entries as they are, but for one that it reads. -/
theorem run_read? (ht : step.change? = none) (x : String) :
    (step.run plan).tracked.get? x = (plan.tracked.get? x).or (step.read? x) := by
  cases step with
  | load p =>
    cases hid : p.id with
    | none => simp [run, Plan.load, read?, hid]
    | some id =>
      rw [run, (load_get? plan hid).1, read?, hid]
      by_cases hx : x = id
      · subst hx
        cases plan.tracked.get? x <;> simp
      · rw [if_neg hx, if_neg fun heq => hx (Option.some.inj heq).symm, Option.or_none]
  | put p => exact absurd ht (Option.some_ne_none _)
  | delete p => exact absurd ht (Option.some_ne_none _)
  | apply outcome =>
    cases outcome with
    | unchanged => exact (Option.or_none).symm
    | updated p => exact absurd ht (Option.some_ne_none _)
    | emptied p => exact absurd ht (Option.some_ne_none _)
  | create p => exact (Option.or_none).symm
  | replacePlanned index p => exact (Option.or_none).symm

/-- What a step makes of the entry of an identifier: what it says, or else what was there, or else what it
reads. -/
theorem run_get? (h : step.Allowed stored plan) (x : String) :
    (step.run plan).tracked.get? x =
      (step.written? x).or ((plan.tracked.get? x).or (step.read? x)) := by
  cases ht : step.change? with
  | none => rw [run_read? ht, written?, ht, Option.filter_none, Option.none_or]
  | some t =>
    have hread : step.read? x = none := by
      cases step with
      | load p => exact absurd ht.symm (Option.some_ne_none t)
      | _ => rfl
    obtain ⟨id, -, hid, -⟩ := knows_of_change? h ht
    rw [run_of_change? ht hid, NameMap.get?_insert, hread, Option.or_none]
    by_cases hx : x = id
    · have hwritten : step.written? x = some t := written?_eq_some_iff.2 ⟨ht, hx ▸ hid⟩
      rw [hwritten, if_pos hx, Option.some_or]
    · have hwritten : step.written? x = none := by
        refine Option.eq_none_iff_forall_not_mem.2 fun u hu => hx ?_
        obtain ⟨hentry, hidx⟩ := written?_eq_some_iff.1 hu
        obtain rfl := Option.some.inj (ht.symm.trans hentry)
        exact Option.some.inj (hidx.symm.trans hid)
      rw [hwritten, if_neg hx, Option.none_or]

/-- What is loaded is tracked. -/
theorem knows_load {p : Policy} (hid : p.id = some id) : (plan.load p).Knows p := by
  refine ⟨id, (plan.tracked.get? id).getD ⟨.unchanged, p⟩, hid, ?_⟩
  rw [(load_get? plan hid).1, if_pos rfl]

/-- What is tracked stays so. -/
theorem knows_run {p : Policy} (h : step.Allowed stored plan) (hp : plan.Knows p) :
    (step.run plan).Knows p := by
  obtain ⟨id, t, hid, ht⟩ := hp
  refine ⟨id, (step.written? id).getD t, hid, ?_⟩
  rw [run_get? h, ht]
  cases step.written? id <;> rfl

/-- The planned policies change with the steps about them alone. -/
theorem run_creates (h : step.Allowed stored plan) (hcreated : step.created? = none)
    (hreplaced : ∀ index p, step ≠ replacePlanned index p) :
    (step.run plan).creates = plan.creates := by
  cases ht : step.change? with
  | some t =>
    obtain ⟨id, -, hid, -⟩ := knows_of_change? h ht
    rw [run_of_change? ht hid]
  | none =>
    cases step with
    | load p =>
      show (plan.load p).creates = plan.creates
      unfold Plan.load
      split
      · rfl
      · split <;> rfl
    | put p => exact absurd ht (Option.some_ne_none _)
    | delete p => exact absurd ht (Option.some_ne_none _)
    | apply outcome =>
      cases outcome with
      | unchanged => rfl
      | updated p => exact absurd ht (Option.some_ne_none _)
      | emptied p => exact absurd ht (Option.some_ne_none _)
    | create p => exact absurd hcreated (Option.some_ne_none p)
    | replacePlanned index p => exact absurd rfl (hreplaced index p)

end Step

/-! ### Drafts -/

/-- A plan that steps have led to, with the latest step first. -/
inductive Drafted (stored : NameMap Policy) : List Step → Plan → Prop
  /-- There is nothing in a plan at first. -/
  | empty : Drafted stored [] {}
  /-- A step is taken. -/
  | step {earlier : List Step} {plan : Plan} (h : Drafted stored earlier plan) (step : Step)
      (hallowed : step.Allowed stored plan) : Drafted stored (step :: earlier) (step.run plan)

/-- What the last step about the policy of an identifier has said, reading left aside. -/
def lastWritten? (id : String) (steps : List Step) : Option Tracked :=
  steps.findSome? (Step.written? id)

/-- How many creations have been planned. -/
def creations (steps : List Step) : Nat := (steps.filterMap Step.created?).length

/-- What the last step about a creation has said. -/
def lastPlanned? (index : Nat) : List Step → Option Policy
  | [] => none
  | .create p :: earlier =>
    if index = creations earlier then some p else lastPlanned? index earlier
  | .replacePlanned i p :: earlier =>
    if i = index ∧ index < creations earlier then some p else lastPlanned? index earlier
  | _ :: earlier => lastPlanned? index earlier

variable {stored : NameMap Policy} {plan : Plan} {steps : List Step} {id : String} {t : Tracked}

/-- What the last step has said of the policy of an identifier is a version of it, to be written. -/
theorem of_lastWritten? (h : lastWritten? id steps = some t) :
    t.policy.id = some id ∧ t.fate ≠ .unchanged := by
  obtain ⟨step, -, hstep⟩ := List.exists_of_findSome?_eq_some h
  obtain ⟨hentry, hid⟩ := Step.written?_eq_some_iff.1 hstep
  exact ⟨hid, Step.fate_of_change? hentry⟩

namespace Drafted

/-- A plan holds of a tracked policy what the last step about it has said, or else what is stored. What is
not tracked has not been written. -/
theorem tracked (h : plan.Drafted stored steps)
    (hs : ∀ id p, stored.get? id = some p → p.id = some id) (id : String) :
    (∀ t, plan.tracked.get? id = some t → ∃ p, stored.get? id = some p ∧
      t = (lastWritten? id steps).getD ⟨.unchanged, p⟩) ∧
    (plan.tracked.get? id = none → lastWritten? id steps = none) := by
  induction h with
  | empty => exact ⟨fun t ht => absurd ht.symm (Option.some_ne_none t), fun _ => rfl⟩
  | @step earlier plan h step hallowed ih =>
    have hlast : lastWritten? id (step :: earlier) =
        (step.written? id).or (lastWritten? id earlier) := by
      unfold lastWritten?
      rw [List.findSome?_cons]
      cases step.written? id <;> rfl
    rw [Step.run_get? hallowed, hlast]
    cases hwritten : step.written? id with
    | some t =>
      -- A policy that is written is tracked, and so it is stored.
      refine ⟨fun t' ht' => ?_, fun hnone => absurd hnone (Option.some_ne_none t)⟩
      obtain rfl := Option.some.inj ht'
      obtain ⟨hentry, hid⟩ := Step.written?_eq_some_iff.1 hwritten
      obtain ⟨id', u, hid', hu⟩ := Step.knows_of_change? hallowed hentry
      obtain rfl : id = id' := Option.some.inj (hid.symm.trans hid')
      obtain ⟨p, hp, -⟩ := ih.1 u hu
      exact ⟨p, hp, rfl⟩
    | none =>
      rw [Option.none_or, Option.none_or]
      cases hu : plan.tracked.get? id with
      | some u =>
        rw [Option.some_or]
        refine ⟨fun t ht => ?_, fun hnone => absurd hnone (Option.some_ne_none u)⟩
        obtain rfl := Option.some.inj ht
        exact ih.1 u hu
      | none =>
        -- A policy that is read for the first time has not been written before.
        have hnone := ih.2 hu
        rw [Option.none_or]
        refine ⟨fun t ht => ?_, fun _ => hnone⟩
        obtain ⟨p, rfl, hid, rfl⟩ := Step.read?_eq_some_iff.1 ht
        obtain ⟨id', hp⟩ := hallowed
        obtain rfl : id' = id := Option.some.inj ((hs id' p hp).symm.trans hid)
        exact ⟨p, hp, by rw [hnone]; rfl⟩

/-- However a plan has been drafted, it keeps versions of stored policies. -/
theorem mirrors (h : plan.Drafted stored steps)
    (hs : ∀ id p, stored.get? id = some p → p.id = some id) : plan.Mirrors stored := by
  have hentry : ∀ id t, plan.tracked.get? id = some t → t.policy.id = some id ∧
      ∃ p, stored.get? id = some p ∧ (t.fate = .unchanged → t.policy = p) := by
    intro id t ht
    obtain ⟨p, hp, rfl⟩ := (h.tracked hs id).1 t ht
    cases hlast : lastWritten? id steps with
    | none => exact ⟨hs id p hp, p, hp, fun _ => rfl⟩
    | some u =>
      obtain ⟨hid, hfate⟩ := of_lastWritten? hlast
      exact ⟨hid, p, hp, fun hkept => absurd hkept hfate⟩
  exact ⟨fun id t ht => (hentry id t ht).1, fun id t ht => (hentry id t ht).2⟩

/-- A plan creates as many policies as have been planned, each as the last step about it has said. -/
theorem planned (h : plan.Drafted stored steps) :
    plan.creates.length = creations steps ∧ ∀ i, plan.planned? i = lastPlanned? i steps := by
  induction h with
  | empty => exact ⟨rfl, fun i => rfl⟩
  | @step earlier plan h step hallowed ih =>
    obtain ⟨hcount, hplanned⟩ := ih
    have hkept : step.created? = none → (∀ index p, step ≠ .replacePlanned index p) →
        (step.run plan).creates.length = creations earlier ∧
          ∀ i, (step.run plan).planned? i = lastPlanned? i earlier := by
      intro hcreated hreplaced
      simp only [planned?, Step.run_creates hallowed hcreated hreplaced]
      exact ⟨hcount, hplanned⟩
    cases step with
    | create p =>
      refine ⟨by simp [Step.run, Plan.create, creations, Step.created?, hcount], fun i => ?_⟩
      show (plan.creates ++ [p])[i]? = if i = creations earlier then some p else lastPlanned? i earlier
      rw [← hplanned, ← hcount, planned?]
      split
      · next heq => rw [heq, List.getElem?_concat_length]
      · next hne =>
        rcases Nat.lt_or_gt_of_ne hne with hlt | hgt
        · rw [List.getElem?_append_left hlt]
        · rw [List.getElem?_eq_none (Nat.le_of_lt hgt),
            List.getElem?_eq_none (by rw [List.length_append, List.length_singleton]; exact hgt)]
    | replacePlanned index p =>
      refine ⟨(List.length_set ..).trans hcount, fun i => ?_⟩
      show (plan.creates.set index p)[i]? =
        if index = i ∧ i < creations earlier then some p else lastPlanned? i earlier
      rw [← hplanned, ← hcount, planned?, List.getElem?_set]
      by_cases heq : index = i
      · subst heq
        by_cases hlt : index < plan.creates.length
        · simp [hlt]
        · simp [hlt]
      · simp [heq]
    | load p => exact hkept rfl fun _ _ => Step.noConfusion
    | put p => exact hkept rfl fun _ _ => Step.noConfusion
    | delete p => exact hkept rfl fun _ _ => Step.noConfusion
    | apply outcome => exact hkept rfl fun _ _ => Step.noConfusion

end Drafted

end Plan

end CatalogAccess
