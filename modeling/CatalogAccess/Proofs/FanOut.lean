import CatalogAccess.Proofs.Batches

/-!
# Batches in part and in full

Mutations of a batch may fail, and the others are attempted all the same. `System.execute_leaves` says
what is stored then: under each identifier what was there before, or what one of the mutations leaves.
For the mutations of a plan this means that a stored policy stays or is as the plan has it, and that
nothing is added but planned policies (`Plan.Tracks.outcome`). When no call fails, the batch of a plan
goes through (`Plan.Mirrors.execute_faultless`), and the authority is as the plan has it
(`Plan.Mirrors.realized`). When some calls fail, what becomes of one stored policy is told by its own
mutation (`Plan.Mirrors.execute_tracked`).
-/

namespace CatalogAccess

/-! ### What may be left -/

/-- What a mutation leaves under an identifier once it has gone through. -/
inductive Mutation.Leaves (a : Authority) (id : String) : Mutation → Option Policy → Prop
  /-- A creation leaves the policy under an identifier that has not been assigned yet. -/
  | create (p : Policy) (n : Nat) (hn : a.lastId < n) (hid : id = Authority.identifier "policy" n) :
      Leaves a id (.create p) (some { p with id := some id })
  /-- An update leaves the policy. -/
  | update (p : Policy) (hid : p.id = some id) : Leaves a id (.update p) (some p)
  /-- A deletion leaves nothing. -/
  | delete (name : String) : Leaves a id (.delete id name) none

/-- Of what mutations leave later on, more identifiers have been assigned. -/
theorem Mutation.Leaves.mono {a b : Authority} {id : String} {m : Mutation} {o : Option Policy}
    (h : m.Leaves b id o) (hlast : a.lastId ≤ b.lastId) : m.Leaves a id o := by
  cases h with
  | create p n hn hid => exact .create p n (Nat.lt_of_le_of_lt hlast hn) hid
  | update p hid => exact .update p hid
  | delete name => exact .delete name

/-- A mutation that goes through leaves something under one identifier, and the others alone. -/
theorem Mutation.Applies.leaves {a a' : Authority} {m : Mutation} (h : m.Applies a a') :
    a.lastId ≤ a'.lastId ∧ ∀ id, a'.policies.get? id = a.policies.get? id ∨
      m.Leaves a id (a'.policies.get? id) := by
  cases h with
  | create p hlast hget =>
    refine ⟨by omega, fun id => ?_⟩
    rw [hget]
    split
    · next heq =>
      subst heq
      exact .inr (.create p (a.lastId + 1) (Nat.lt_succ_self _) rfl)
    · exact .inl rfl
  | update p x hid hold hlast hget =>
    refine ⟨by omega, fun id => ?_⟩
    rw [hget]
    split
    · next heq => exact .inr (.update p (heq ▸ hid))
    · exact .inl rfl
  | delete x name hlast hget =>
    refine ⟨by omega, fun id => ?_⟩
    rw [hget]
    split
    · next heq =>
      subst heq
      exact .inr (.delete name)
    · exact .inl rfl

/-- A batch touches nothing but the authority. Whether or not its mutations go through, what is stored
under an identifier was there before or is left by one of them. -/
theorem System.execute_leaves (s : System) (deadlineMs : Nat) (ms : List Mutation) :
    ∃ a : Authority, (s.execute deadlineMs ms).2 = { s with authority := a } ∧
      ∀ id, a.policies.get? id = s.authority.policies.get? id ∨
        ∃ m ∈ ms, m.Leaves s.authority id (a.policies.get? id) := by
  unfold execute
  generalize ({} : Report) = r
  induction ms generalizing r s with
  | nil => exact ⟨s.authority, rfl, fun _ => .inl rfl⟩
  | cons m ms ih =>
    rw [List.foldl_cons]
    cases hm : s.applyMutation deadlineMs m with
    | ok b =>
      simp only [attempt, hm]
      obtain ⟨a, hsystem, hleaves⟩ := ih { s with authority := b } _
      obtain ⟨hlast, hfirst⟩ := (applyMutation_applies hm).leaves
      refine ⟨a, hsystem, fun id => ?_⟩
      rcases hleaves id with hkept | ⟨m', hm', hleft⟩
      · -- The rest of the batch left what the first mutation made of it.
        rw [hkept]
        rcases hfirst id with hsame | hleft
        · exact .inl hsame
        · exact .inr ⟨m, List.mem_cons_self, hleft⟩
      · exact .inr ⟨m', List.mem_cons_of_mem m hm', hleft.mono hlast⟩
    | error e =>
      simp only [attempt, hm]
      obtain ⟨a, hsystem, hleaves⟩ := ih s _
      refine ⟨a, hsystem, fun id => (hleaves id).imp_right ?_⟩
      rintro ⟨m', hm', hleft⟩
      exact ⟨m', List.mem_cons_of_mem m hm', hleft⟩

namespace Plan

/-- What may be stored under an identifier once the mutations of a plan have been attempted. -/
inductive Outcome (plan : Plan) (stored : NameMap Policy) (id : String) : Option Policy → Prop
  /-- What was stored before. -/
  | kept : Outcome plan stored id (stored.get? id)
  /-- What becomes of a tracked policy. -/
  | settled (t : Tracked) (ht : plan.tracked.get? id = some t) : Outcome plan stored id t.settled
  /-- A planned policy, where nothing was stored. -/
  | created (c : Policy) (hc : c ∈ plan.creates) (hnew : stored.get? id = none) :
      Outcome plan stored id (some { c with id := some id })

/-- Whether or not the mutations of a plan go through, a stored policy stays or is as the plan has it,
and nothing is added but planned policies. -/
theorem Tracks.outcome {plan : Plan} {s : System} (h : plan.Tracks s.authority.policies)
    (hs : s.authority.Numbered) (deadlineMs : Nat) :
    ∃ a : Authority, (s.execute deadlineMs plan.mutations).2 = { s with authority := a } ∧
      ∀ id, plan.Outcome s.authority.policies id (a.policies.get? id) := by
  obtain ⟨a, hsystem, hleaves⟩ := s.execute_leaves deadlineMs plan.mutations
  refine ⟨a, hsystem, fun id => ?_⟩
  rcases hleaves id with hkept | ⟨m, hm, hleft⟩
  · rw [hkept]
    exact .kept
  · rcases List.mem_append.1 hm with hm | hm
    · obtain ⟨e, he, hwrites⟩ := List.mem_filterMap.1 hm
      have ht : plan.tracked.get? e.1 = some e.2 := NameMap.get?_eq_some_iff.2 he
      unfold Tracked.mutation? at hwrites
      split at hwrites
      · exact absurd hwrites.symm (Option.some_ne_none m)
      · next hfate =>
        obtain rfl := Option.some.inj hwrites
        generalize hleft' : a.policies.get? id = o at hleft
        cases hleft with
        | update _ hid =>
          obtain rfl : e.1 = id := Option.some.inj ((h.id e.1 e.2 ht).symm.trans hid)
          have hsettled : e.2.settled = some e.2.policy := by
            rw [Tracked.settled, hfate]
            rfl
          rw [← hsettled]
          exact .settled e.2 ht
      · next hfate =>
        obtain rfl := Option.some.inj hwrites
        generalize hleft' : a.policies.get? id = o at hleft
        cases hleft with
        | delete _ =>
          have hsettled : e.2.settled = none := if_pos hfate
          rw [← hsettled]
          exact .settled e.2 ht
    · obtain ⟨c, hc, rfl⟩ := List.mem_map.1 hm
      generalize hleft' : a.policies.get? id = o at hleft
      cases hleft with
      | create _ n hn hid =>
        refine .created c hc (Option.eq_none_iff_forall_not_mem.2 fun p hp => ?_)
        -- A stored policy has an identifier that has been assigned before.
        obtain ⟨n', hn', hid'⟩ := hs id p hp
        have := Authority.identifier_injective (hid.symm.trans hid')
        omega

end Plan

/-! ### Batches in full -/

/-- No call of the stores fails. -/
structure System.Faultless (s : System) : Prop where
  /-- No call meets a fault. -/
  faults : s.faults = {}
  /-- No write of a policy fails by its name. -/
  failing : s.authority.failing = ∅

namespace Mutation

/-- The name by which a mutation may be made to fail. -/
def policyName (a : Authority) : Mutation → String
  | create p => p.name
  | update p => p.name
  | delete id _ => ((a.policies.get? id).map Policy.name).getD ""

/-- What the mutation is about is stored. -/
def Ready (stored : NameMap Policy) : Mutation → Prop
  | create _ => True
  | update p => ∃ id old, p.id = some id ∧ stored.get? id = some old
  | delete id _ => ∃ old, stored.get? id = some old

end Mutation

/-- A check fails exactly for the names whose writes fail. -/
theorem Authority.checkFailure_ok_iff {a : Authority} (operation : String) {name : String}
    {u : Unit} :
    a.checkFailure operation name = .ok u ↔ name ∉ a.failing := by
  unfold checkFailure
  rw [← NameSet.contains_iff]
  cases a.failing.contains name <;> simp

namespace System

/-- When no call meets a fault, a mutation of what is stored fails exactly by the name of its policy. -/
theorem accepts_iff {s : System} (hf : s.faults = {}) (deadlineMs : Nat) {m : Mutation}
    (hm : m.Ready s.authority.policies) :
    s.Accepts deadlineMs m ↔ m.policyName s.authority ∉ s.authority.failing := by
  have hwithin : ∀ label call argument,
      s.faults.checkWithin deadlineMs label call argument = .ok () := by
    intro label call argument
    rw [hf]
    rfl
  -- What is left of the calls is the check of the name.
  unfold Accepts applyMutation
  cases m with
  | create p =>
    rw [← Authority.checkFailure_ok_iff "create policy" (u := ())]
    simp only [hwithin, Authority.createPolicy, Mutation.policyName]
    cases s.authority.checkFailure "create policy" p.name <;>
      simp [bind, Except.bind, pure, Except.pure]
  | update p =>
    obtain ⟨id, old, hid, hold⟩ := hm
    have hin : s.authority.policies.contains id = true := by rw [NameMap.contains, hold]; rfl
    rw [← Authority.checkFailure_ok_iff "update policy" (u := ())]
    simp only [hwithin, Authority.updatePolicy, hid, hin, Mutation.policyName]
    cases s.authority.checkFailure "update policy" p.name <;>
      simp [bind, Except.bind, pure, Except.pure]
  | delete id name =>
    obtain ⟨old, hold⟩ := hm
    rw [← Authority.checkFailure_ok_iff "delete policy" (u := ())]
    simp only [hwithin, Authority.deletePolicy, hold, Mutation.policyName]
    cases s.authority.checkFailure "delete policy" (((some old).map Policy.name).getD "") <;>
      simp [bind, Except.bind, pure, Except.pure]

/-- A mutation goes through when what it is about is stored and no call fails. -/
theorem Faultless.accepts {s : System} (h : s.Faultless) (deadlineMs : Nat) {m : Mutation}
    (hm : m.Ready s.authority.policies) : s.Accepts deadlineMs m := by
  rw [accepts_iff h.faults deadlineMs hm, h.failing]
  exact NameSet.not_mem_empty

/-- When the report of independent mutations is complete, all of them went through. -/
theorem execute_complete {s : System} {deadlineMs : Nat} {ms : List Mutation}
    (h : Mutation.Independent s.authority ms)
    (hcomplete : (s.execute deadlineMs ms).1.isComplete = true) :
    ∃ a, (s.execute deadlineMs ms).2 = { s with authority := a } ∧
      Mutation.Results ms s.authority a := by
  rw [execute_eq h] at hcomplete ⊢
  have hnone : ms.filterMap (s.failure? deadlineMs) = [] := by
    rw [Report.isComplete, Bool.and_eq_true, List.isEmpty_iff] at hcomplete
    exact hcomplete.1
  have hall : ms.filter (s.admits deadlineMs) = ms := List.filter_eq_self.2 fun m hm =>
    Option.isNone_iff_eq_none.2 (List.filterMap_eq_nil_iff.1 hnone m hm)
  rw [hall]
  exact ⟨_, rfl, h.results⟩

/-- The report of independent mutations that all go through is complete. -/
theorem execute_isComplete {s : System} {deadlineMs : Nat} {ms : List Mutation}
    (h : Mutation.Independent s.authority ms) (hms : ∀ m ∈ ms, s.Accepts deadlineMs m) :
    (s.execute deadlineMs ms).1.isComplete = true := by
  have hadmits : ∀ m ∈ ms, s.admits deadlineMs m = true := fun m hm => admits_iff.2 (hms m hm)
  have hnone : ms.filterMap (s.failure? deadlineMs) = [] :=
    List.filterMap_eq_nil_iff.2 fun m hm => Option.isNone_iff_eq_none.1 (hadmits m hm)
  rw [execute_eq h, hnone, List.filter_eq_self.2 hadmits]
  simp [Report.isComplete]

end System

namespace Plan

variable {plan : Plan} {s : System} {id : String} {t : Tracked} {m : Mutation}

/-- What is not written stays as it was read. -/
theorem Tracked.mutation?_eq_none_iff : t.mutation? id = none ↔ t.fate = .unchanged := by
  unfold mutation?
  cases t.fate <;> simp

/-- What is written is what becomes of the policy. -/
theorem Tracked.written?_of_mutation? (h : t.mutation? id = some m) : m.written? = t.settled := by
  unfold mutation? at h
  unfold settled
  cases hf : t.fate <;> rw [hf] at h
  · exact absurd h.symm (Option.some_ne_none m)
  · obtain rfl := Option.some.inj h
    rfl
  · obtain rfl := Option.some.inj h
    rfl

/-- The write of an entry is about the policy of the entry. -/
theorem Mirrors.subject {stored : NameMap Policy} (h : plan.Mirrors stored)
    (ht : plan.tracked.get? id = some t) (hm : t.mutation? id = some m) :
    m.subject? = some id ∧ m.Ready stored := by
  obtain ⟨p, hp, -⟩ := h.origin id t ht
  unfold Tracked.mutation? at hm
  split at hm
  · exact absurd hm.symm (Option.some_ne_none m)
  · obtain rfl := Option.some.inj hm
    exact ⟨h.id id t ht, id, p, h.id id t ht, hp⟩
  · obtain rfl := Option.some.inj hm
    exact ⟨rfl, p, hp⟩

/-- The write of an entry is one of the plan. -/
theorem mem_mutations (ht : plan.tracked.get? id = some t) (hm : t.mutation? id = some m) :
    m ∈ plan.mutations :=
  List.mem_append_left _ (List.mem_filterMap.2 ⟨(id, t), NameMap.get?_eq_some_iff.1 ht, hm⟩)

/-- A mutation that is about a stored policy is the write of its entry. -/
theorem Mirrors.of_subject {stored : NameMap Policy} (h : plan.Mirrors stored)
    (hm : m ∈ plan.mutations) (hid : m.subject? = some id) :
    ∃ t, plan.tracked.get? id = some t ∧ t.mutation? id = some m := by
  rcases List.mem_append.1 hm with hm | hm
  · obtain ⟨e, he, hwrites⟩ := List.mem_filterMap.1 hm
    have ht : plan.tracked.get? e.1 = some e.2 := NameMap.get?_eq_some_iff.2 he
    obtain rfl : e.1 = id := Option.some.inj ((h.subject ht hwrites).1.symm.trans hid)
    exact ⟨e.2, ht, hwrites⟩
  · obtain ⟨c, -, rfl⟩ := List.mem_map.1 hm
    exact absurd hid.symm (Option.some_ne_none id)

/-- What is not tracked is not written. -/
theorem Mirrors.untracked {stored : NameMap Policy} (h : plan.Mirrors stored)
    (hnone : plan.tracked.get? id = none) : ∀ m ∈ plan.mutations, m.subject? ≠ some id := by
  intro m hm hid
  obtain ⟨t, ht, -⟩ := h.of_subject hm hid
  exact Option.some_ne_none t (ht.symm.trans hnone)

/-- A plan writes no stored policy twice. -/
theorem Mirrors.distinct {stored : NameMap Policy} (h : plan.Mirrors stored) :
    plan.mutations.Pairwise fun m m' => ∀ id, m.subject? = some id → m'.subject? ≠ some id := by
  refine List.pairwise_append.2 ⟨?_, ?_, ?_⟩
  · refine List.pairwise_filterMap.2 (plan.tracked.increasing.imp_of_mem ?_)
    intro e f he hf hlt m hm m' hm' id hid hid'
    have hme := (h.subject (NameMap.get?_eq_some_iff.2 he) hm).1
    have hmf := (h.subject (NameMap.get?_eq_some_iff.2 hf) hm').1
    have hsame : e.1 = f.1 := by
      rw [hme] at hid
      rw [hmf] at hid'
      exact (Option.some.inj hid).trans (Option.some.inj hid').symm
    exact String.lt_irrefl f.1 (hsame ▸ hlt)
  · exact List.pairwise_map.2 (List.pairwise_of_forall fun _ _ id hid =>
      absurd hid.symm (Option.some_ne_none id))
  · intro m hm m' hm' id hid hid'
    obtain ⟨c, -, rfl⟩ := List.mem_map.1 hm'
    exact absurd hid'.symm (Option.some_ne_none id)

/-- The mutations of a plan are independent. -/
theorem Mirrors.independent (h : plan.Mirrors s.authority.policies) (hs : s.authority.Numbered) :
    Mutation.Independent s.authority plan.mutations := by
  refine ⟨fun m hm id hid => ?_, h.distinct⟩
  obtain ⟨t, ht, -⟩ := h.of_subject hm hid
  obtain ⟨p, hp, -⟩ := h.origin id t ht
  exact hs id p hp

/-- A plan creates what it has planned. -/
theorem mutations_created (plan : Plan) :
    plan.mutations.filterMap Mutation.created? = plan.creates := by
  have hwrites : plan.tracked.toList.filterMap (fun e => (e.2.mutation? e.1).bind
      Mutation.created?) = [] := by
    refine List.filterMap_eq_nil_iff.2 fun e _ => ?_
    unfold Tracked.mutation?
    cases e.2.fate <;> rfl
  rw [mutations, List.filterMap_append, List.filterMap_filterMap, hwrites, List.filterMap_map]
  exact List.filterMap_some

/-- When all mutations of a plan go through, the authority is as the plan has it. -/
theorem Mirrors.realized {a : Authority} (h : plan.Mirrors s.authority.policies)
    (hs : s.authority.Numbered) (hresults : Mutation.Results plan.mutations s.authority a) :
    plan.Realized s.authority a := by
  have hcount : (plan.mutations.filterMap Mutation.created?).length = plan.creates.length := by
    rw [mutations_created]
  refine ⟨fun id t ht => ?_, fun i c hc => ?_, fun id hnone hnew => ?_⟩
  · obtain ⟨p, hp, hkept⟩ := h.origin id t ht
    cases hm : t.mutation? id with
    | some m =>
      rw [hresults.subject m (mem_mutations ht hm) id (h.subject ht hm).1]
      exact Tracked.written?_of_mutation? hm
    | none =>
      -- The policy is not written, and no creation is given its identifier.
      have hfate := Tracked.mutation?_eq_none_iff.1 hm
      rw [hresults.other id (fun i _ => ne_createdId (hs id p hp) i) fun m' hm' hid => ?_, hp,
        Tracked.settled, hfate, hkept hfate]
      · rfl
      · obtain ⟨t', ht', hwrites⟩ := h.of_subject hm' hid
        obtain rfl := Option.some.inj (ht.symm.trans ht')
        exact Option.some_ne_none m' (hwrites.symm.trans hm)
  · exact hresults.created i c (by rwa [mutations_created])
  · exact hresults.other id (fun i hi => hnew i (hcount ▸ hi)) (h.untracked hnone)

/-- What the mutations of a plan are about is stored. -/
theorem Mirrors.ready {stored : NameMap Policy} (h : plan.Mirrors stored) :
    ∀ m ∈ plan.mutations, m.Ready stored := by
  intro m hm
  rcases List.mem_append.1 hm with hm | hm
  · obtain ⟨e, he, hwrites⟩ := List.mem_filterMap.1 hm
    exact (h.subject (NameMap.get?_eq_some_iff.2 he) hwrites).2
  · obtain ⟨c, -, rfl⟩ := List.mem_map.1 hm
    exact trivial

/-- The batch of a plan goes through when no call fails. -/
theorem Mirrors.execute_faultless (h : plan.Mirrors s.authority.policies) (ha : s.authority.Numbered)
    (hs : s.Faultless) (deadlineMs : Nat) :
    (s.execute deadlineMs plan.mutations).1.isComplete = true :=
  System.execute_isComplete (h.independent ha) fun m hm => hs.accepts deadlineMs (h.ready m hm)

end Plan

/-- A plan that creates nothing, carried out in full or in part: each of its policies is as planned if
its write goes through, and as before otherwise. -/
theorem Plan.Mirrors.execute_tracked {plan : Plan} {s : System}
    (h : plan.Mirrors s.authority.policies) (hs : s.authority.Numbered) (hcreates : plan.creates = [])
    (deadlineMs : Nat) (id : String) :
    (∀ t m, plan.tracked.get? id = some t → t.mutation? id = some m →
      (s.execute deadlineMs plan.mutations).2.authority.policies.get? id =
        if s.admits deadlineMs m = true then m.written? else s.authority.policies.get? id) ∧
    (plan.tracked.get? id = none → (s.execute deadlineMs plan.mutations).2.authority.policies.get? id =
      s.authority.policies.get? id) := by
  refine ⟨fun t m ht hm => ?_, fun hnone => ?_⟩
  · exact System.execute_subject (h.independent hs) (mem_mutations ht hm) (h.subject ht hm).1
  · refine System.execute_other (h.independent hs) (fun i hi => ?_) (h.untracked hnone)
    rw [mutations_created, hcreates] at hi
    exact absurd hi (Nat.not_lt_zero i)

end CatalogAccess
