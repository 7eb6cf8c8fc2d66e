import CatalogAccess.Proofs.Persona.Reconciliation
import CatalogAccess.Proofs.Reconcile.Drafts

/-!
# Carrying out drafted plans

A plan that is drafted against the policies of a reachable system, by whatever steps, tells what its
mutations make of the system: the look-ups of the plan are those of the authority afterwards
(`Plan.Simulates`, `System.Reachable.execute_drafted`). The mutations may also be applied in any order, and
some of them may fail (`System.Reachable.execute_drafted_perm`): the same ones fail, the others have the
same effect, and only the identifiers of new policies tell one order from another.
-/

namespace CatalogAccess

namespace Plan

variable {plan : Plan} {a a' : Authority}

/-- The authority has become what the look-ups of the plan say. -/
structure Simulates (plan : Plan) (a a' : Authority) : Prop where
  /-- A tracked policy is gone when it is deleted, and is as the plan has it otherwise. -/
  tracked : ∀ id p, plan.get? id = some p →
    a'.policies.get? id = if plan.isDeleted id then none else some p
  /-- A policy that is not tracked stays. -/
  untracked : ∀ id p, plan.get? id = none → a.policies.get? id = some p →
    a'.policies.get? id = some p
  /-- Each planned policy is added. -/
  added : ∀ i c, plan.planned? i = some c → a.policies.get? (createdId a i) = none ∧
    a'.policies.get? (createdId a i) = some { c with id := some (createdId a i) }
  /-- What is new is one of the planned policies. -/
  new : ∀ id p, a.policies.get? id = none → a'.policies.get? id = some p →
    ∃! i, i < plan.creates.length ∧ id = createdId a i

/-- What becomes of a tracked policy can be told by the look-ups of the plan. -/
theorem settled_eq_of_get? {id : String} {p : Policy} (h : plan.get? id = some p) :
    ∃ t, plan.tracked.get? id = some t ∧ t.settled = if plan.isDeleted id then none else some p := by
  obtain ⟨t, ht, rfl⟩ := Option.map_eq_some_iff.1 h
  refine ⟨t, ht, ?_⟩
  rw [isDeleted, ht, Option.any_some, Tracked.settled]
  cases t.fate <;> rfl

/-- An authority that is as a plan has it has become what the look-ups of the plan say. -/
theorem Realized.simulates (h : plan.Realized a a') (hmirrors : plan.Mirrors a.policies)
    (ha : a.Numbered) : plan.Simulates a a' := by
  have hfresh : ∀ i, a.policies.get? (createdId a i) = none :=
    fun i => Option.eq_none_iff_forall_not_mem.2 fun p hp => ne_createdId (ha _ p hp) i rfl
  refine ⟨fun id p hp => ?_, fun id p hnone hp => ?_, fun i c hc => ⟨hfresh i, h.created i c hc⟩,
    fun id p hnone hp => ?_⟩
  · obtain ⟨t, ht, hsettled⟩ := settled_eq_of_get? hp
    rw [h.tracked id t ht, hsettled]
  · exact h.keeps ha (Option.map_eq_none_iff.1 hnone) hp
  · have huntracked : plan.tracked.get? id = none := by
      refine Option.eq_none_iff_forall_not_mem.2 fun t ht => ?_
      obtain ⟨old, hold, -⟩ := hmirrors.origin id t ht
      exact Option.some_ne_none old (hold.symm.trans hnone)
    obtain ⟨i, hi⟩ : ∃ i, i < plan.creates.length ∧ id = createdId a i := by
      by_contra hother
      rw [h.other id huntracked fun i hi heq => hother ⟨i, hi, heq⟩, hnone] at hp
      exact Option.some_ne_none p hp.symm
    exact ⟨i, hi, fun j hj => createdId_injective (hj.2.symm.trans hi.2)⟩

end Plan

namespace System.Reachable

variable {s : System} {steps : List Plan.Step} {plan : Plan} {ms ms' : List Mutation}

/-- A plan that has been drafted against a reachable system simulates the authority. Its mutations all go
through when no call fails, and when they do, nothing but the authority changes, which has become what the
look-ups of the plan say. No stored policy is written twice, and none that has only been loaded. As many
policies are created as have been planned, each with what was planned of it last. -/
theorem execute_drafted (hs : s.Reachable) (h : plan.Drafted s.authority.policies steps)
    (deadlineMs : Nat) :
    (s.Faultless → (s.execute deadlineMs plan.mutations).1.isComplete = true) ∧
    ((s.execute deadlineMs plan.mutations).1.isComplete = true →
      ∃ a : Authority, (s.execute deadlineMs plan.mutations).2 = { s with authority := a } ∧
        plan.Simulates s.authority a) ∧
    (plan.mutations.Pairwise fun m m' => ∀ id, m.subject? = some id → m'.subject? ≠ some id) ∧
    (∀ id, Plan.lastWritten? id steps = none → ∀ m ∈ plan.mutations, m.subject? ≠ some id) ∧
    plan.creates.length = Plan.creations steps ∧
    ∀ i, plan.planned? i = Plan.lastPlanned? i steps := by
  have hkept := hs.wellKept
  have hmirrors := h.mirrors hkept.id
  have hindependent := hmirrors.independent hkept.numbered
  refine ⟨fun hf => hmirrors.execute_faultless hkept.numbered hf deadlineMs, fun hcomplete => ?_,
    hmirrors.distinct, fun id hlast m hm hid => ?_, h.planned.1, h.planned.2⟩
  · obtain ⟨a, hsystem, hresults⟩ := System.execute_complete hindependent hcomplete
    exact ⟨a, hsystem, (hmirrors.realized hkept.numbered hresults).simulates hmirrors hkept.numbered⟩
  · -- What has not been written is tracked as it is stored, if at all.
    obtain ⟨t, ht, hwrites⟩ := hmirrors.of_subject hm hid
    obtain ⟨p, -, rfl⟩ := (h.tracked hkept.id id).1 t ht
    rw [hlast] at hwrites
    exact Option.some_ne_none m hwrites.symm

/-- The mutations of a plan that has been drafted against a reachable system may be applied in any order,
whichever of them fail. Each is attempted once, and either goes through or is among the failures, which are
the same in every order. The authority is as before but for the mutations that have not failed, and the
same in every order up to the identifiers of new policies. If no call meets a fault, those fail whose
policies have names that make writes fail. -/
theorem execute_drafted_perm (hs : s.Reachable) (h : plan.Drafted s.authority.policies steps)
    (deadlineMs : Nat) (hms : ms.Perm plan.mutations) (hms' : ms'.Perm plan.mutations) :
    (s.execute deadlineMs ms).1.attempted = plan.mutations.length ∧
    (s.execute deadlineMs ms).1.attempted =
      (s.execute deadlineMs ms).1.succeeded + (s.execute deadlineMs ms).1.failures.length ∧
    (s.execute deadlineMs ms).1.failures.Perm (plan.mutations.filterMap (s.failure? deadlineMs)) ∧
    (s.execute deadlineMs ms).2 = { s with
      authority := (ms.filter fun m => (s.failure? deadlineMs m).isNone).foldl Authority.after
        s.authority } ∧
    s.authority.SameUpToIds (s.execute deadlineMs ms).2.authority
      (s.execute deadlineMs ms').2.authority ∧
    (s.faults = {} → ∀ m ∈ plan.mutations, s.failure? deadlineMs m = none ↔
      m.policyName s.authority ∉ s.authority.failing) := by
  have hkept := hs.wellKept
  have hmirrors := h.mirrors hkept.id
  have hindependent := (hmirrors.independent hkept.numbered).perm hms.symm
  refine ⟨?_, ?_, ?_, ?_, (System.execute_perm hindependent (hms.trans hms'.symm) deadlineMs).2,
    fun hf m hm => ?_⟩
  · rw [System.execute_eq hindependent]
    exact hms.length_eq
  · rw [System.execute_eq hindependent]
    exact s.length_eq_admits_add_failures deadlineMs ms
  · rw [System.execute_eq hindependent]
    exact hms.filterMap _
  · rw [System.execute_eq hindependent]
    rfl
  · rw [← System.accepts_iff hf deadlineMs (hmirrors.ready m hm), ← System.admits_iff, System.admits,
      Option.isNone_iff_eq_none]

end System.Reachable

/-! ### A draft -/

namespace PersonaService

/-- The system after an update whose deletions failed, which leaves two concrete policies. Writes of some
names fail. -/
def drafting (failing : NameSet) : System :=
  let s := interrupted (.putPolicy {} "" (termsPolicy "risk"))
  { s with authority := { s.authority with failing } }

theorem drafting_reachable (failing : NameSet) : (drafting failing).Reachable :=
  (interrupted_reachable _).faults {} failing

/-- Steps that plan two new policies, one of which is replaced, and that delete one of two stored policies
and bring it back under another name. -/
def revival (p other : Policy) : List Plan.Step :=
  [.load p, .put { p with name := "revived" }, .delete p, .load p, .load other,
    .replacePlanned 0 { name := "kept", service := .resource },
    .create { name := "lost", service := .tag }, .create { name := "new", service := .resource }]

/-- The steps may be taken when the two policies are stored. -/
theorem revival_drafted {stored : NameMap Policy} {p other : Policy} {id id' : String}
    (hp : stored.get? id = some p) (hid : p.id = some id) (hother : stored.get? id' = some other) :
    ∃ plan : Plan, plan.Drafted stored (revival p other) := by
  have hempty : Plan.Drafted stored [] {} := .empty
  have hcreated := (hempty.step (.create { name := "new", service := .resource }) rfl).step
    (.create { name := "lost", service := .tag }) rfl
  have hread := ((hcreated.step (.replacePlanned 0 { name := "kept", service := .resource }) rfl).step
    (.load other) ⟨id', hother⟩).step (.load p) ⟨id, hp⟩
  have hdeleted := hread.step (.delete p) (Plan.Step.knows_load hid)
  have hrevived := hdeleted.step (.put { p with name := "revived" })
    (@Plan.Step.knows_run stored _ (.delete p) p (Plan.Step.knows_load hid)
      (Plan.Step.knows_load hid))
  exact ⟨_, hrevived.step (.load p) ⟨id, hp⟩⟩

/-- The policies that are stored when the steps are taken. -/
theorem drafting_stored (failing : NameSet) :
    ∃ p other, (drafting failing).authority.policies.get? "policy-0002" = some p ∧
      (drafting failing).authority.policies.get? "policy-0003" = some other := by
  let s := interrupted (.putPolicy {} "" (termsPolicy "risk"))
  have htest : (s.authority.policies.get? "policy-0002").isSome = true ∧
      (s.authority.policies.get? "policy-0003").isSome = true := by decide +kernel
  obtain ⟨p, hp⟩ := Option.isSome_iff_exists.1 htest.1
  obtain ⟨other, hother⟩ := Option.isSome_iff_exists.1 htest.2
  exact ⟨p, other, hp, hother⟩

/-- A policy that is deleted and brought back is there afterwards, and so are the policies planned. -/
theorem execute_drafted_revival :
    ∃ p other, ∃ plan : Plan, ∃ a, plan.Drafted (drafting ∅).authority.policies (revival p other) ∧
      ((drafting ∅).execute 10000 plan.mutations).1.isComplete = true ∧
      ((drafting ∅).execute 10000 plan.mutations).2 = { drafting ∅ with authority := a } ∧
      plan.Simulates (drafting ∅).authority a := by
  obtain ⟨p, other, hp, hother⟩ := drafting_stored ∅
  have hid := (drafting_reachable ∅).wellKept.id "policy-0002" p hp
  obtain ⟨plan, hplan⟩ := revival_drafted hp hid hother
  obtain ⟨hthrough, hdone, -⟩ := (drafting_reachable ∅).execute_drafted hplan 10000
  have hcomplete := hthrough ⟨rfl, rfl⟩
  obtain ⟨a, hsystem, hsimulates⟩ := hdone hcomplete
  exact ⟨p, other, plan, a, hplan, hcomplete, hsystem, hsimulates⟩

/-- One of the policies planned cannot be written, and the mutations are applied in the reverse order. -/
theorem execute_drafted_perm_revival :
    ∃ p other, ∃ plan : Plan, plan.Drafted (drafting (NameSet.ofList ["lost"])).authority.policies
        (revival p other) ∧
      (drafting (NameSet.ofList ["lost"])).authority.SameUpToIds
        ((drafting (NameSet.ofList ["lost"])).execute 10000 plan.mutations.reverse).2.authority
        ((drafting (NameSet.ofList ["lost"])).execute 10000 plan.mutations).2.authority := by
  obtain ⟨p, other, hp, hother⟩ := drafting_stored (NameSet.ofList ["lost"])
  have hid := (drafting_reachable (NameSet.ofList ["lost"])).wellKept.id "policy-0002" p hp
  obtain ⟨plan, hplan⟩ := revival_drafted hp hid hother
  obtain ⟨-, -, -, -, hsame, -⟩ := (drafting_reachable _).execute_drafted_perm hplan 10000
    (List.reverse_perm plan.mutations) (.refl _)
  exact ⟨p, other, plan, hplan, hsame⟩

end PersonaService

end CatalogAccess
