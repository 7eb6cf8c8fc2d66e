import CatalogAccess.Proofs.Persona.Reconciliation

/-!
# Planning what is in force

A plan of policies that are only read writes nothing (`Plan.Reads.mutations`). An update whose
provisional policies are all carried by stored policies is such a plan as far as mapping goes:
`foldlM_mapProvisional` finds each provisional policy among the labelled policies, where merging
changes nothing. What is left to write is what no provisional policy maps to, so that the plan of the
update is without writes exactly when there is no stray policy (`planUpdate_enforced`).
-/

namespace CatalogAccess

/-! ### Calls that go through -/

/-- Faults that concern nothing but the writes of policies to the authority. -/
def Faults.OnlyWrites (f : Faults) : Prop :=
  ∀ call argument, call ∉ ["create_policy", "update_policy", "delete_policy"] →
    f.check call argument = .ok ()

namespace System

variable {s : System}

theorem policiesWithLabel_ok (hf : s.faults.OnlyWrites) (pageSize : Nat) (label : String) :
    s.policiesWithLabel pageSize label = .ok (s.authority.withLabel label) := by
  rw [policiesWithLabel, hf "list_by_label" label (by decide), Page.drain_eq]
  rfl

theorem policiesOf_ok (hf : s.faults.OnlyWrites) (guid : String) :
    s.policiesOf guid = .ok (s.catalog.policiesOf guid) := by
  rw [policiesOf, hf "persona_policies" guid (by decide)]
  rfl

theorem Faultless.onlyWrites (h : s.Faultless) : s.faults.OnlyWrites := by
  rw [h.faults]
  exact fun _ _ _ => rfl

end System

namespace Plan

variable {plan : Plan} {stored : NameMap Policy} {policies existing qs : List Policy}

/-! ### Plans without writes -/

/-- The plan has stored policies as they were read, and nothing else. -/
structure Reads (plan : Plan) (stored : NameMap Policy) : Prop where
  /-- What is tracked is stored, and stays. -/
  tracked : ∀ id t, plan.tracked.get? id = some t →
    t.fate = .unchanged ∧ stored.get? id = some t.policy
  /-- Nothing is created. -/
  creates : plan.creates = []

theorem reads_empty (stored : NameMap Policy) : Reads {} stored :=
  ⟨fun _ t h => absurd h.symm (Option.some_ne_none t), rfl⟩

/-- Loading a stored policy reads it. -/
theorem Reads.load (h : plan.Reads stored) {p : Policy} {id : String} (hid : p.id = some id)
    (hp : stored.get? id = some p) : (plan.load p).Reads stored := by
  obtain ⟨hget, hcreates⟩ := load_get? plan hid
  refine ⟨fun x t ht => ?_, hcreates.trans h.creates⟩
  rw [hget] at ht
  split at ht
  · next heq =>
    subst heq
    cases hold : plan.tracked.get? x with
    | some u =>
      rw [hold, Option.getD_some] at ht
      obtain rfl := Option.some.inj ht
      exact h.tracked x u hold
    | none =>
      rw [hold, Option.getD_none] at ht
      obtain rfl := Option.some.inj ht
      exact ⟨rfl, hp⟩
  · exact h.tracked x t ht

/-- Loading stored policies one after the other reads them. -/
theorem reads_foldl (hs : Policy.WellStored stored)
    (hpolicies : ∀ p ∈ policies, ∃ id, stored.get? id = some p) (h : plan.Reads stored) :
    (policies.foldl load plan).Reads stored := by
  induction policies generalizing plan with
  | nil => exact h
  | cons p ps ih =>
    obtain ⟨id, hp⟩ := hpolicies p List.mem_cons_self
    exact ih (fun q hq => hpolicies q (List.mem_cons_of_mem p hq)) (h.load (hs.id id p hp) hp)

/-- A plan of policies that are only read writes nothing. -/
theorem Reads.mutations (h : plan.Reads stored) : plan.mutations = [] := by
  have htracked : plan.tracked.toList.filterMap (fun e => e.2.mutation? e.1) = [] := by
    rw [List.filterMap_eq_nil_iff]
    intro e he
    have hfate := (h.tracked e.1 e.2 (NameMap.get?_eq_some_iff.2 he)).1
    rw [Tracked.mutation?, hfate]
  rw [Plan.mutations, htracked, h.creates]
  rfl

/-- A plan in which a policy does not stay as it was read writes something. -/
theorem mutations_ne_nil {id : String} {t : Tracked} (ht : plan.tracked.get? id = some t)
    (hfate : t.fate ≠ .unchanged) : plan.mutations ≠ [] := by
  intro hnil
  have htracked := (List.append_eq_nil_iff.1 hnil).1
  have hnone := List.filterMap_eq_nil_iff.1 htracked (id, t) (NameMap.get?_eq_some_iff.1 ht)
  unfold Tracked.mutation? at hnone
  cases hf : t.fate with
  | unchanged => exact hfate hf
  | updated => simp [hf] at hnone
  | deleted => simp [hf] at hnone

/-- Stripping labelled policies in a plan of policies that are only read writes something, unless there
are none. -/
theorem Reads.strip_mutations_iff (h : plan.Reads stored) (hs : Policy.WellStored stored)
    {role label : String} {dropped : List String} (hlabel : label ∈ dropped)
    (hlabelled : ∀ p ∈ policies, (∃ id, stored.get? id = some p) ∧ label ∈ p.labels) :
    (policies.foldl (fun plan p => plan.apply (p.stripRole role dropped)) plan).mutations = [] ↔
      policies = [] := by
  constructor
  · intro hnil
    refine List.eq_nil_iff_forall_not_mem.2 fun p hp => ?_
    obtain ⟨id, hget⟩ := (hlabelled p hp).1
    have hstrips : Strips role dropped plan policies
        (policies.foldl (fun plan p => plan.apply (p.stripRole role dropped)) plan) :=
      (stripAll_strips hs hlabel hlabelled).2
    obtain ⟨_, -, -, ht⟩ := hstrips.stripped p hp id (hs.id id p hget)
    exact mutations_ne_nil ht (Tracked.leftover_fate _) hnil
  · rintro rfl
    exact h.mutations

/-- Merging a provisional policy into a policy that carries it changes nothing. -/
theorem Reads.mergeTracked (h : plan.Reads stored) {id : String} {t : Tracked} {existing q : Policy}
    {role : String} (ht : plan.tracked.get? id = some t) (hid : existing.id = some id)
    (hcarries : t.policy.Carries q role) (hq : q.IsProvisional role) :
    plan.mergeTracked existing q role = plan := by
  have hcurrent : plan.get? id = some t.policy := by rw [Plan.get?, ht]; rfl
  have hkept : ¬ plan.isDeleted id = true := by
    rw [isDeleted, ht, Option.any_some, (h.tracked id t ht).1]
    decide
  unfold Plan.mergeTracked
  simp only [hid, Option.getD_some, hcurrent, hcarries.mergeRoleItem hq, if_neg hkept]

end Plan

/-! ### Mapping what is carried -/

/-- Every one of the provisional policies is carried by a policy with the label, which alone among
the stored policies has its target. -/
structure Authority.Enforces (a : Authority) (label role : String) (qs : List Policy) : Prop where
  /-- Each provisional policy is carried. -/
  carried : ∀ q ∈ qs, ∃ p ∈ a.withLabel label, p.Carries q role
  /-- No other stored policy has its target. -/
  unique : ∀ q ∈ qs, ∀ id id' p p', a.policies.get? id = some p → a.policies.get? id' = some p' →
    p.target = q.target → p'.target = q.target → id = id'

/-- The only stored policy with a target is found among the labelled policies, if it has the label. -/
theorem Authority.find?_withLabel {a : Authority} {label : String} {p q : Policy}
    (hunique : ∀ id id' p p', a.policies.get? id = some p → a.policies.get? id' = some p' →
      p.target = q.target → p'.target = q.target → id = id')
    (hp : p ∈ a.withLabel label) (htarget : p.target = q.target) :
    (a.withLabel label).find? (·.sameTarget q) = some p := by
  cases hfound : (a.withLabel label).find? (·.sameTarget q) with
  | none =>
    have hnone := List.find?_eq_none.1 hfound p hp
    exact absurd (Policy.sameTarget_iff.2 htarget) hnone
  | some p' =>
    have hp' := List.mem_of_find?_eq_some hfound
    have htest := List.find?_some hfound
    obtain ⟨⟨id, hstored⟩, -⟩ := mem_withLabel.1 hp
    obtain ⟨⟨id', hstored'⟩, -⟩ := mem_withLabel.1 hp'
    obtain rfl := hunique id' id p' p hstored' hstored (Policy.sameTarget_iff.1 htest) htarget
    rw [← hstored', hstored]

/-- The labelled policies left over by a mapping are the stray ones, if it has mapped just those that
are wanted. -/
theorem Authority.mem_excess_iff {a : Authority} (hs : Policy.WellStored a.policies)
    {label : String} {qs : List Policy} {mapped : NameSet}
    (hmapped : ∀ id p, a.policies.get? id = some p → (id ∈ mapped ↔ p.IsWanted qs)) {p : Policy} :
    p ∈ (a.withLabel label).filter (fun p => p.id.any fun id => !mapped.contains id) ↔
      a.Stray label qs p := by
  have hleft : ∀ id, a.policies.get? id = some p →
      ((p.id.any fun id => !mapped.contains id) = true ↔ ¬ p.IsWanted qs) := by
    intro id hp
    rw [hs.id id p hp, Option.any_some, Bool.not_eq_true', ← Bool.not_eq_true,
      NameSet.contains_iff, hmapped id p hp]
  rw [stray_iff, List.mem_filter, mem_withLabel]
  constructor
  · rintro ⟨⟨⟨id, hp⟩, hlabel⟩, hany⟩
    exact ⟨⟨id, hp⟩, hlabel, (hleft id hp).1 hany⟩
  · rintro ⟨⟨id, hp⟩, hlabel, hunwanted⟩
    exact ⟨⟨⟨id, hp⟩, hlabel⟩, (hleft id hp).2 hunwanted⟩

namespace PersonaService

variable {s s' : System} {label role : String} {qs pending : List Policy} {plan : Plan}
  {persona : Persona} {policy : PersonaPolicy} {σ : ServiceSettings}

/-- A provisional policy that is carried is mapped to the policy that carries it. -/
theorem mapProvisional_carried (hs : Policy.WellStored s.authority.policies)
    (hqs : Policy.AreProvisional role qs) (h : s.authority.Enforces label role qs)
    (hreads : plan.Reads s.authority.policies)
    (hloaded : ∀ p ∈ s.authority.withLabel label, ∀ id, p.id = some id →
      ∃ t, plan.tracked.get? id = some t) {q : Policy} (hq : q ∈ qs) (pageSize : Nat)
    (mapped : NameSet) :
    ∃ id p, s.authority.policies.get? id = some p ∧ p.target = q.target ∧
      mapProvisional pageSize role s (s.authority.withLabel label) (plan, mapped) q =
        .ok (plan, mapped.insert id) := by
  obtain ⟨p, hp, hcarries⟩ := h.carried q hq
  obtain ⟨⟨id, hstored⟩, -⟩ := Authority.mem_withLabel.1 hp
  -- What is found is the policy that carries it, since no other has the target.
  have hfind := Authority.find?_withLabel (h.unique q hq) hp hcarries.target
  have hid := hs.id id p hstored
  obtain ⟨t, ht⟩ := hloaded p hp id hid
  obtain rfl : p = t.policy :=
    Option.some.inj (hstored.symm.trans (hreads.tracked id t ht).2)
  refine ⟨id, t.policy, hstored, hcarries.target, ?_⟩
  simp only [mapProvisional, hfind, hid, hreads.mergeTracked ht hid hcarries (hqs.each q hq)]

/-- Provisional policies that are carried are all mapped, and the plan stays as it is. -/
theorem foldlM_mapProvisional (hs : Policy.WellStored s.authority.policies)
    (hqs : Policy.AreProvisional role qs) (h : s.authority.Enforces label role qs)
    (hreads : plan.Reads s.authority.policies)
    (hloaded : ∀ p ∈ s.authority.withLabel label, ∀ id, p.id = some id →
      ∃ t, plan.tracked.get? id = some t) (hpending : ∀ q ∈ pending, q ∈ qs) (pageSize : Nat)
    (mapped : NameSet) :
    ∃ mapped', pending.foldlM
        (mapProvisional pageSize role s (s.authority.withLabel label)) (plan, mapped) =
          .ok (plan, mapped') ∧
      ∀ id p, s.authority.policies.get? id = some p →
        (id ∈ mapped' ↔ id ∈ mapped ∨ p.IsWanted pending) := by
  induction pending generalizing mapped with
  | nil => exact ⟨mapped, rfl, fun id p _ => by simp [Policy.IsWanted]⟩
  | cons q pending ih =>
    have hq : q ∈ qs := hpending q List.mem_cons_self
    obtain ⟨x, p, hp, htarget, hmap⟩ :=
      mapProvisional_carried hs hqs h hreads hloaded hq pageSize mapped
    obtain ⟨mapped', hrun, hmem⟩ :=
      ih (fun q' hq' => hpending q' (List.mem_cons_of_mem q hq')) (mapped.insert x)
    refine ⟨mapped', ?_, fun id p' hp' => ?_⟩
    · rw [List.foldlM_cons, hmap]
      exact hrun
    · rw [hmem id p' hp', NameSet.mem_insert]
      have hhead : id = x ↔ p'.target = q.target := by
        constructor
        · rintro rfl
          obtain rfl : p = p' := Option.some.inj (hp.symm.trans hp')
          exact htarget
        · exact fun htarget' => h.unique q hq id x p' p hp' hp htarget' htarget
      simp only [Policy.IsWanted, List.mem_cons, exists_eq_or_imp, hhead]
      rw [or_comm (a := p'.target = q.target), or_assoc]

/-- Nothing has to be created anew when the persona policy is the same as before. -/
theorem mustRecreate_self (policy : PersonaPolicy) : mustRecreate policy policy = false := by
  simp [mustRecreate, PersonaPolicy.sameAssets, PersonaPolicy.maskKindChanged]

/-- Planning an update of a persona policy that is in force writes nothing, unless there is a stray
policy to strip. -/
theorem planUpdate_enforced (hf : s.faults.OnlyWrites)
    (hs : Policy.WellStored s.authority.policies)
    (h : s.authority.Enforces (Label.personaPolicy policy.guid) persona.roleName
      (synthesize s.drawn persona policy)) :
    ∃ plan s', Operation.runOn (planUpdate σ persona policy policy) s = (.ok plan, s') ∧
      s' = { s with drawn := s'.drawn } ∧ (plan.mutations = [] ↔
        ∀ p, ¬ s.authority.Stray (Label.personaPolicy policy.guid)
          (synthesize s.drawn persona policy) p) := by
  let existing := s.authority.withLabel (Label.personaPolicy policy.guid)
  let loaded := existing.foldl Plan.load {}
  have hstored : ∀ p ∈ existing, ∃ id, s.authority.policies.get? id = some p :=
    fun p hp => (Authority.mem_withLabel.1 hp).1
  have hreads : loaded.Reads s.authority.policies :=
    Plan.reads_foldl hs hstored (Plan.reads_empty _)
  have hloaded : ∀ p ∈ existing, ∀ id, p.id = some id → ∃ t, loaded.tracked.get? id = some t :=
    (Plan.loads_foldl hs hstored (fun _ hp => hp) (Plan.tracks_empty _)).2.2
  have hqs := synthesizeActions_areProvisional s.drawn persona policy policy.actions
  -- Synthesis draws identifiers, and leaves everything else as it is.
  let drawn : System := { s with drawn := s.drawn +
    (Synthesis.provisionals persona policy policy.actions).length }
  obtain ⟨mapped, hmap, hmapped⟩ :=
    foldlM_mapProvisional (s := drawn) hs hqs h hreads hloaded (fun _ hq => hq) σ.pageSize ∅
  -- What is left over is what no provisional policy asks for.
  let excess := existing.filter fun p => p.id.any fun id => !mapped.contains id
  have hexcess : ∀ p, p ∈ excess ↔ s.authority.Stray (Label.personaPolicy policy.guid)
      (synthesize s.drawn persona policy) p :=
    fun p => Authority.mem_excess_iff hs fun id p hp => by simpa [synthesize] using hmapped id p hp
  have hnothing : (excess.foldl (fun plan p =>
      plan.apply (p.stripRole persona.roleName (policy.droppedLabels persona))) loaded).mutations =
        [] ↔ excess = [] :=
    hreads.strip_mutations_iff hs List.mem_cons_self fun p hp =>
      Authority.mem_withLabel.1 (List.mem_filter.1 hp).1
  have hlabelled := System.policiesWithLabel_ok hf σ.pageSize (Label.personaPolicy policy.guid)
  refine ⟨_, drawn, ?_, rfl, hnothing.trans ?_⟩
  · simp only [planUpdate, Operation.runOn_bind, Operation.runOn_read, hlabelled,
      Operation.runOn_synthesize, mustRecreate_self, Bool.false_eq_true, if_false]
    rw [hmap]
    rfl
  · rw [List.eq_nil_iff_forall_not_mem]
    exact forall_congr' fun p => not_congr (hexcess p)

end PersonaService

end CatalogAccess
