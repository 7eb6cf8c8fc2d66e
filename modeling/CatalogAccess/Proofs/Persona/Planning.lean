import CatalogAccess.Proofs.Authority
import CatalogAccess.Proofs.Persona.Placement

/-!
# What planning a persona policy ends with

A request on a persona policy is planned in one of three ways. A new persona policy has its
provisional policies placed. An update that changes targets strips all labelled policies first
(`recreate`), and any other update merges into labelled policies where it can and strips the labelled
policies that are left over. `planCreate_planned` and `planUpdate_planned` show that either way the
plan holds all provisional policies, and that what it tracks has the label of the persona policy
only where its target is wanted. `planCreate_built` and `planUpdate_built` say by which steps the plan
comes about.
-/

namespace CatalogAccess

variable {role label : String} {qs existing policies : List Policy} {q : Policy} {s : System}
  {pageSize : Nat} {dropped : List String}

/-- Policies with the identifier are among those loaded. -/
def Policy.IsLoaded (existing : List Policy) (id : String) : Prop := ∃ p ∈ existing, p.id = some id

/-- A loaded policy that no provisional policy has been mapped to. -/
def Policy.IsUnmapped (existing : List Policy) (mapped : NameSet) (id : String) : Prop :=
  Policy.IsLoaded existing id ∧ ¬ id ∈ mapped

/-- A listing by label, page by page, is the list of all policies with the label. -/
theorem System.policiesWithLabel_eq {ps : List Policy}
    (h : s.policiesWithLabel pageSize label = .ok ps) : ps = s.authority.withLabel label := by
  unfold policiesWithLabel at h
  rw [Except.bind_eq_ok_iff] at h
  obtain ⟨-, -, hdrain⟩ := h
  rw [Page.drain_eq] at hdrain
  exact (Except.ok.inj hdrain).symm

/-- A listing by label has the stored policies with the label. -/
theorem System.policiesWithLabel_spec {ps : List Policy}
    (h : s.policiesWithLabel pageSize label = .ok ps) (p : Policy) :
    p ∈ ps ↔ (∃ id, s.authority.policies.get? id = some p) ∧ label ∈ p.labels := by
  rw [policiesWithLabel_eq h]
  exact Authority.mem_withLabel

namespace Plan

variable {plan plan' : Plan} {stored : NameMap Policy} {loaded rest allowed : String → Prop}

/-! ### Stripping labelled policies -/

/-- Stripping stored policies of a label to drop replaces each of them, whether or not they are
loaded first. -/
theorem stripAll_strips (hs : Policy.WellStored stored) (hlabel : label ∈ dropped)
    (hlabelled : ∀ p ∈ policies, (∃ id, stored.get? id = some p) ∧ label ∈ p.labels) :
    Strips role dropped plan policies (plan.stripAll policies role dropped) ∧
      Strips role dropped plan policies
        (policies.foldl (fun plan p => plan.apply (p.stripRole role dropped)) plan) := by
  have hchanged : ∀ p ∈ policies, p.stripRole role dropped ≠ .unchanged := by
    intro p hp hsame
    exact Policy.not_mem_labels_of_unchanged hsame hlabel (hlabelled p hp).2
  constructor
  · refine strips_foldl fun plan p hp => ?_
    obtain ⟨⟨id, hstored⟩, -⟩ := hlabelled p hp
    have hid : p.id = some id := hs.id id p hstored
    obtain ⟨hget, hcreates⟩ := load_get? plan hid
    refine strips_apply hid (hchanged p hp) (fun x hx => ?_) hcreates
    rw [hget, if_neg hx]
  · refine strips_foldl fun plan p hp => ?_
    obtain ⟨⟨id, hstored⟩, -⟩ := hlabelled p hp
    have hid : p.id = some id := hs.id id p hstored
    exact strips_apply hid (hchanged p hp) (fun _ _ => rfl) rfl

/-- Stripping all policies with a label to drop. -/
theorem stripAll_withLabel {a : Authority} (ha : Policy.WellStored a.policies) (role : String)
    (hlabel : label ∈ dropped) : Strips role dropped {} (a.withLabel label)
      (Plan.stripAll {} (a.withLabel label) role dropped) :=
  (stripAll_strips ha hlabel fun _ hp => Authority.mem_withLabel.1 hp).1

/-- Such a plan comes about by stripping alone. -/
theorem stripAll_built {a : Authority} (ha : Policy.WellStored a.policies) (role : String)
    (hlabel : label ∈ dropped) :
    Built a.policies role (fun _ => False) (· ∈ a.withLabel label) (· ∈ dropped)
      (Plan.stripAll {} (a.withLabel label) role dropped) :=
  Built.empty.strip (fun _ hp => ⟨(Authority.mem_withLabel.1 hp).1, hp⟩) (fun _ hl => hl)
    (stripAll_withLabel ha role hlabel)

/-- What is stripped has the label no more, so that a rest that is stripped is dealt with. -/
theorem Strips.placing (hstrips : Strips role dropped plan policies plan')
    (h : Placing stored label qs loaded rest plan) (hs : Policy.WellStored stored)
    (hpolicies : ∀ p ∈ policies, ∃ id, stored.get? id = some p) (hlabel : label ∈ dropped)
    (hloaded : ∀ id, Policy.IsLoaded policies id → loaded id)
    (hrest : ∀ id, rest id → Policy.IsLoaded policies id) :
    Placing stored label qs loaded (fun _ => False) plan' := by
  refine ⟨hstrips.tracks h.toTracks hs hpolicies, fun x t ht => ?_, hstrips.creates ▸ h.planned⟩
  by_cases hx : Policy.IsLoaded policies x
  · obtain ⟨p, hp, hid⟩ := hx
    obtain ⟨p', -, -, ht'⟩ := hstrips.stripped p hp x hid
    obtain rfl := Option.some.inj (ht.symm.trans ht')
    exact .inr ⟨hloaded x ⟨p, hp, hid⟩,
      fun hmem => absurd hmem (Policy.not_mem_strippedLabels hlabel)⟩
  · rw [hstrips.other x fun p hp hid => hx ⟨p, hp, hid⟩] at ht
    rcases h.tracked x t ht with hwanted | ⟨hx', hmem⟩
    · exact .inl hwanted
    · exact .inr ⟨hx', fun hin => hx (hrest x (hmem hin))⟩

/-- Stripping takes nothing back from what is placed elsewhere. -/
theorem Strips.holds (hstrips : Strips role dropped plan policies plan')
    (h : plan.Holds allowed role q)
    (hallowed : ∀ id, allowed id → ¬ Policy.IsLoaded policies id) :
    plan'.Holds (fun _ => True) role q := by
  rcases h with ⟨id, t, hid, ht, hfate, hcarries⟩ | ⟨c, hc, hcarries⟩
  · refine .inl ⟨id, t, trivial, ?_, hfate, hcarries⟩
    rw [hstrips.other id fun p hp hpid => hallowed id hid ⟨p, hp, hpid⟩, ht]
  · exact .inr ⟨c, hstrips.creates ▸ hc, hcarries⟩

/-- Stripping goes on tracking what was tracked. -/
theorem Strips.isTracked (hstrips : Strips role dropped plan policies plan') {id : String}
    (h : ∃ t, plan.tracked.get? id = some t) : ∃ t, plan'.tracked.get? id = some t := by
  by_cases hid : Policy.IsLoaded policies id
  · obtain ⟨p, hp, hpid⟩ := hid
    obtain ⟨_, -, -, ht⟩ := hstrips.stripped p hp id hpid
    exact ⟨_, ht⟩
  · rw [hstrips.other id fun p hp hpid => hid ⟨p, hp, hpid⟩]
    exact h

/-! ### Updates -/

/-- An update starts with all labelled policies loaded as they are. -/
theorem placing_loaded (hs : Policy.WellStored stored)
    (hexisting : ∀ p ∈ existing, ∃ id, stored.get? id = some p) (label : String)
    (qs : List Policy) :
    Placing stored label qs (Policy.IsLoaded existing) (Policy.IsLoaded existing)
        (existing.foldl load {}) ∧
      ∀ id, Policy.IsLoaded existing id →
        ∃ t, (existing.foldl load {}).tracked.get? id = some t := by
  obtain ⟨htracks, hloads, htracked⟩ :=
    loads_foldl hs hexisting (fun _ hp => hp) (tracks_empty stored)
  refine ⟨⟨htracks, fun id t ht => ?_, hloads.creates ▸ fun c hc => absurd hc List.not_mem_nil⟩,
    fun id hid => ?_⟩
  · have hmem : t.policy ∈ existing :=
      (hloads.new id t ht).resolve_left fun h => Option.some_ne_none t h.symm
    have hid : Policy.IsLoaded existing id := ⟨t.policy, hmem, htracks.id id t ht⟩
    exact .inr ⟨hid, fun _ => hid⟩
  · obtain ⟨p, hp, hpid⟩ := hid
    exact htracked p hp id hpid

/-- What is kept while provisional policies are mapped to labelled policies. Some are still
pending. -/
structure Mapping (stored : NameMap Policy) (label role : String) (qs existing : List Policy)
    (pending : List Policy) (state : Plan × NameSet) : Prop where
  /-- What is pending is among the provisional policies. -/
  subset : ∀ q ∈ pending, q ∈ qs
  /-- The labelled policies that nothing is mapped to are still to be dealt with. -/
  placing : Placing stored label qs (Policy.IsLoaded existing)
    (Policy.IsUnmapped existing state.2) state.1
  /-- The labelled policies are tracked. -/
  loaded : ∀ id, Policy.IsLoaded existing id → ∃ t, state.1.tracked.get? id = some t
  /-- What is not pending is held outside of them. -/
  holds : ∀ q ∈ qs, q ∈ pending ∨
    state.1.Holds (fun id => ¬ Policy.IsUnmapped existing state.2 id) role q

/-- At first everything is pending, and no labelled policy is mapped. -/
theorem Mapping.start (hs : Policy.WellStored stored)
    (hexisting : ∀ p ∈ existing, ∃ id, stored.get? id = some p) :
    Mapping stored label role qs existing qs (existing.foldl load {}, ∅) := by
  obtain ⟨hloaded, htracked⟩ := placing_loaded hs hexisting label qs
  exact ⟨fun _ hq => hq, hloaded.shrink fun id t _ hid => .inl ⟨hid, NameSet.not_mem_empty⟩,
    htracked, fun _ hq => .inl hq⟩

/-- One more provisional policy is mapped when the plan advances by it and the set of mapped policies
grows by none but those with a wanted target. -/
theorem Mapping.advance {pending : List Policy} {state : Plan × NameSet} {mapped : NameSet}
    (h : Mapping stored label role qs existing (q :: pending) state)
    (hgrows : ∀ id, ¬ Policy.IsUnmapped existing state.2 id → ¬ Policy.IsUnmapped existing mapped id)
    (hshrink : ∀ id t, plan'.tracked.get? id = some t → Policy.IsUnmapped existing state.2 id →
      Policy.IsUnmapped existing mapped id ∨ t.policy.IsWanted qs)
    (hadvances : Advances stored label role qs (Policy.IsLoaded existing)
      (Policy.IsUnmapped existing state.2) (fun id => ¬ Policy.IsUnmapped existing mapped id)
      state.1 q plan') :
    Mapping stored label role qs existing pending (plan', mapped) := by
  refine ⟨fun q₀ hq₀ => h.subset q₀ (List.mem_cons_of_mem q hq₀),
    hadvances.placing.shrink hshrink, fun id hid => ?_, fun q₀ hq₀ => ?_⟩
  · obtain ⟨t, ht⟩ := h.loaded id hid
    exact hadvances.tracked id t ht
  · rcases h.holds q₀ hq₀ with hmem | hheld
    · rcases List.mem_cons.1 hmem with rfl | hmem
      · exact .inr hadvances.holds
      · exact .inl hmem
    · exact .inr (hadvances.keeps q₀ hq₀ (hheld.mono hgrows))

/-- A provisional policy is merged into a labelled policy with its target. -/
theorem Mapping.merge {pending : List Policy} {state : Plan × NameSet}
    (hs : Policy.WellStored stored) (hqs : Policy.AreProvisional role qs)
    (h : Mapping stored label role qs existing (q :: pending) state) {p : Policy} {id : String}
    (hp : p ∈ existing) (hstored : stored.get? id = some p) (hsame : p.target = q.target) :
    Mapping stored label role qs existing pending
      (state.1.mergeTracked p q role, state.2.insert id) := by
  have hq : q ∈ qs := h.subset q List.mem_cons_self
  have hid : p.id = some id := hs.id id p hstored
  have hmapped : ¬ Policy.IsUnmapped existing (state.2.insert id) id :=
    fun hun => hun.2 (NameSet.mem_insert.2 (.inl rfl))
  -- Whatever a plan has of the policy keeps its target.
  have htarget : ∀ {plan : Plan} {t : Tracked}, plan.Tracks stored →
      plan.tracked.get? id = some t → t.policy.target = q.target := by
    intro plan t htracks ht
    obtain ⟨p', hp', hpt, -⟩ := htracks.origin id t ht
    obtain rfl : p = p' := Option.some.inj (hstored.symm.trans hp')
    exact hpt.trans hsame
  obtain ⟨t, ht⟩ := h.loaded id ⟨p, hp, hid⟩
  have hplaces : Places stored (fun x => ¬ Policy.IsUnmapped existing (state.2.insert id) x) role
      state.1 q (state.1.mergeTracked p q role) :=
    mergeTracked_places h.placing.toTracks (hqs.each q hq) hmapped ht hid
      (htarget h.placing.toTracks ht)
  have hadvances := h.placing.advances hqs hq hplaces
  refine h.advance (fun x hx hun => hx ⟨hun.1, fun hin => hun.2 ?_⟩) (fun x u hu hun => ?_)
    hadvances
  · exact NameSet.mem_insert.2 (.inr hin)
  · by_cases hx : x = id
    · subst hx
      exact .inr ⟨q, hq, htarget hadvances.placing.toTracks hu⟩
    · exact .inl ⟨hun.1, fun hin => (NameSet.mem_insert.1 hin).elim hx hun.2⟩

/-- Mapping one more provisional policy. -/
theorem Mapping.step {pending : List Policy} {state state' : Plan × NameSet}
    (hs : Policy.WellStored s.authority.policies) (hqs : Policy.AreProvisional role qs)
    (hexisting : ∀ p ∈ existing, ∃ id, s.authority.policies.get? id = some p)
    (h : Mapping s.authority.policies label role qs existing (q :: pending) state)
    (hrun : PersonaService.mapProvisional pageSize role s existing state q = .ok state') :
    Mapping s.authority.policies label role qs existing pending state' := by
  unfold PersonaService.mapProvisional at hrun
  cases hfind : existing.find? (·.sameTarget q) with
  | some p =>
    have hp := List.mem_of_find?_eq_some hfind
    have htest := List.find?_some hfind
    obtain ⟨id, hstored⟩ := hexisting p hp
    simp only [hfind, hs.id id p hstored, Except.ok.injEq] at hrun
    subst hrun
    exact h.merge hs hqs hp hstored (Policy.sameTarget_iff.1 htest)
  | none =>
    rw [hfind] at hrun
    simp only [Except.bind_eq_ok_iff] at hrun
    obtain ⟨plan', hplace, hrun⟩ := hrun
    obtain rfl := Except.ok.inj hrun
    -- No labelled policy has the target, so that the policy is placed outside of them.
    have hfree : ∀ id p, s.authority.policies.get? id = some p → p.target = q.target →
        ¬ Policy.IsUnmapped existing state.2 id := by
      rintro id p hp htarget ⟨⟨p', hp', hid⟩, -⟩
      obtain ⟨id', hstored⟩ := hexisting p' hp'
      obtain rfl : id' = id := Option.some.inj ((hs.id id' p' hstored).symm.trans hid)
      obtain rfl : p = p' := Option.some.inj (hp.symm.trans hstored)
      exact List.find?_eq_none.1 hfind p hp' (Policy.sameTarget_iff.2 htarget)
    have hq : q ∈ qs := h.subset q List.mem_cons_self
    exact h.advance (fun _ hx => hx) (fun _ _ _ hun => .inl hun)
      (h.placing.place hs hqs hq hfree hplace)

/-- Mapping one more provisional policy is a step by which the plan comes about. The counterpart that is
found for it counts as mapped from then on. -/
theorem Mapping.step_built {stripped : Policy → Prop} {shed : String → Prop} {pending : List Policy}
    {state state' : Plan × NameSet} (hs : Policy.WellStored s.authority.policies)
    (hqs : Policy.AreProvisional role qs)
    (hexisting : ∀ p ∈ existing, ∃ id, s.authority.policies.get? id = some p)
    (h : Mapping s.authority.policies label role qs existing (q :: pending) state)
    (hbuilt : Built s.authority.policies role (· ∈ qs) stripped shed state.1)
    (hrun : PersonaService.mapProvisional pageSize role s existing state q = .ok state') :
    Built s.authority.policies role (· ∈ qs) stripped shed state'.1 ∧
      (∀ id, id ∈ state.2 → id ∈ state'.2) ∧
      ∀ p id, existing.find? (·.sameTarget q) = some p → p.id = some id → id ∈ state'.2 := by
  have hq : q ∈ qs := h.subset q List.mem_cons_self
  unfold PersonaService.mapProvisional at hrun
  cases hfind : existing.find? (·.sameTarget q) with
  | some p =>
    have hp := List.mem_of_find?_eq_some hfind
    have htest := List.find?_some hfind
    obtain ⟨id, hstored⟩ := hexisting p hp
    have hid : p.id = some id := hs.id id p hstored
    simp only [hfind, hid, Except.ok.injEq] at hrun
    subst hrun
    obtain ⟨t, ht⟩ := h.loaded id ⟨p, hp, hid⟩
    obtain ⟨p', hp', hpt, -⟩ := h.placing.toTracks.origin id t ht
    obtain rfl : p = p' := Option.some.inj (hstored.symm.trans hp')
    refine ⟨hbuilt.place hq (mergeTracked_places h.placing.toTracks (hqs.each q hq) trivial ht hid
      (hpt.trans (Policy.sameTarget_iff.1 htest))), fun x hx => NameSet.mem_insert.2 (.inr hx),
      fun p' x hp' hx => ?_⟩
    obtain rfl := Option.some.inj hp'
    exact NameSet.mem_insert.2 (.inl (Option.some.inj (hx.symm.trans hid)))
  | none =>
    rw [hfind] at hrun
    simp only [Except.bind_eq_ok_iff] at hrun
    obtain ⟨plan', hplace, hrun⟩ := hrun
    obtain rfl := Except.ok.inj hrun
    exact ⟨place_built hs hqs.placeable hbuilt hq hplace, fun _ hx => hx,
      fun p _ hp => absurd hp.symm (Option.some_ne_none p)⟩

/-- The plan of an update that maps and strips comes about by placing the provisional policies, and by
stripping labelled policies that were found for none of them. -/
theorem mapAll_built (hs : Policy.WellStored s.authority.policies)
    (hqs : Policy.AreProvisional role qs)
    (hexisting : ∀ p, p ∈ existing ↔
      (∃ id, s.authority.policies.get? id = some p) ∧ label ∈ p.labels)
    (hlabel : label ∈ dropped) {state : Plan × NameSet}
    (hrun : qs.foldlM (PersonaService.mapProvisional pageSize role s existing)
      (existing.foldl load {}, ∅) = .ok state) :
    Built s.authority.policies role (· ∈ qs)
      (fun p => p ∈ existing ∧ ∀ q ∈ qs, existing.find? (·.sameTarget q) ≠ some p) (· ∈ dropped)
      ((existing.filter fun p => p.id.any fun id => !state.2.contains id).foldl
        (fun plan p => plan.apply (p.stripRole role dropped)) state.1) := by
  have hstored : ∀ p ∈ existing, ∃ id, s.authority.policies.get? id = some p :=
    fun p hp => ((hexisting p).1 hp).1
  let stripped (p : Policy) : Prop :=
    p ∈ existing ∧ ∀ q ∈ qs, existing.find? (·.sameTarget q) ≠ some p
  let I (pending : List Policy) (state : Plan × NameSet) : Prop :=
    Mapping s.authority.policies label role qs existing pending state ∧
    Built s.authority.policies role (· ∈ qs) stripped (· ∈ dropped) state.1 ∧
    ∀ q ∈ qs, q ∈ pending ∨
      ∀ p id, existing.find? (·.sameTarget q) = some p → p.id = some id → id ∈ state.2
  have hstep : ∀ q pending state state', I (q :: pending) state →
      PersonaService.mapProvisional pageSize role s existing state q = .ok state' →
      I pending state' := by
    rintro q pending state state' ⟨hmapping, hbuilt, hfound⟩ hrun
    obtain ⟨hbuilt', hgrows, hnew⟩ := hmapping.step_built hs hqs hstored hbuilt hrun
    refine ⟨hmapping.step hs hqs hstored hrun, hbuilt', fun q₀ hq₀ => ?_⟩
    rcases hfound q₀ hq₀ with hmem | hold
    · rcases List.mem_cons.1 hmem with rfl | hmem
      · exact .inr hnew
      · exact .inl hmem
    · exact .inr fun p id hp hid => hgrows id (hold p id hp hid)
  have hstart : I qs (existing.foldl load {}, ∅) :=
    ⟨Mapping.start hs hstored, Built.empty.foldl_load hstored, fun _ hq => .inl hq⟩
  obtain ⟨-, hbuilt, hfound⟩ := foldlM_invariant I hstep hstart hrun
  have hsub : ∀ p ∈ existing.filter fun p => p.id.any fun id => !state.2.contains id,
      p ∈ existing := fun p hp => (List.mem_filter.1 hp).1
  refine hbuilt.strip (fun p hp => ⟨hstored p (hsub p hp), hsub p hp, fun q hq hfind => ?_⟩)
    (fun _ hl => hl) (stripAll_strips hs hlabel fun p hp => (hexisting p).1 (hsub p hp)).2
  -- What is found for a provisional policy is mapped, and not left over.
  obtain ⟨id, hget⟩ := hstored p (hsub p hp)
  have hmapped := (hfound q hq).resolve_left List.not_mem_nil p id hfind (hs.id id p hget)
  have hleft := (List.mem_filter.1 hp).2
  rw [hs.id id p hget, Option.any_some, NameSet.contains_iff.2 hmapped] at hleft
  exact Bool.false_ne_true hleft

/-- Mapping all provisional policies and stripping what is left over ends with all of them held. -/
theorem mapAll_planned (hs : Policy.WellStored s.authority.policies)
    (hqs : Policy.AreProvisional role qs)
    (hexisting : ∀ p, p ∈ existing ↔
      (∃ id, s.authority.policies.get? id = some p) ∧ label ∈ p.labels)
    (hlabel : label ∈ dropped) {state : Plan × NameSet}
    (hrun : qs.foldlM (PersonaService.mapProvisional pageSize role s existing)
      (existing.foldl load {}, ∅) = .ok state) :
    let excess := existing.filter fun p => p.id.any fun id => !state.2.contains id
    let plan' := excess.foldl (fun plan p => plan.apply (p.stripRole role dropped)) state.1
    Planned s.authority.policies label role qs (Policy.IsLoaded existing) plan' ∧
      ∀ id, Policy.IsLoaded existing id → ∃ t, plan'.tracked.get? id = some t := by
  intro excess plan'
  have hstored : ∀ p ∈ existing, ∃ id, s.authority.policies.get? id = some p :=
    fun p hp => ((hexisting p).1 hp).1
  have hstart : Mapping s.authority.policies label role qs existing qs
      (existing.foldl load {}, ∅) := Mapping.start hs hstored
  -- In the end nothing is pending.
  have hmapping := foldlM_invariant (Mapping s.authority.policies label role qs existing)
    (fun q pending state state' h hrun => h.step hs hqs hstored hrun) hstart hrun
  -- The policies that are stripped are those that nothing was mapped to.
  have hexcess : ∀ id, Policy.IsLoaded excess id ↔ Policy.IsUnmapped existing state.2 id := by
    intro id
    constructor
    · rintro ⟨p, hp, hid⟩
      obtain ⟨hmem, hany⟩ := List.mem_filter.1 hp
      rw [hid, Option.any_some, Bool.not_eq_true', ← Bool.not_eq_true,
        NameSet.contains_iff] at hany
      exact ⟨⟨p, hmem, hid⟩, hany⟩
    · rintro ⟨⟨p, hp, hid⟩, hun⟩
      refine ⟨p, List.mem_filter.2 ⟨hp, ?_⟩, hid⟩
      rw [hid, Option.any_some, Bool.not_eq_true', ← Bool.not_eq_true, NameSet.contains_iff]
      exact hun
  have hsub : ∀ p ∈ excess, p ∈ existing := fun p hp => (List.mem_filter.1 hp).1
  have hstrips : Strips role dropped state.1 excess plan' :=
    (stripAll_strips hs hlabel fun p hp => (hexisting p).1 (hsub p hp)).2
  refine ⟨⟨hstrips.placing hmapping.placing hs (fun p hp => hstored p (hsub p hp)) hlabel
    (fun id hid => ((hexcess id).1 hid).1) (fun id hid => (hexcess id).2 hid), fun q hq => ?_⟩,
    fun id hid => hstrips.isTracked (hmapping.loaded id hid)⟩
  have hheld := (hmapping.holds q hq).resolve_left List.not_mem_nil
  exact hstrips.holds hheld fun id hun hid => hun ((hexcess id).1 hid)

/-- The plan of an update that starts anew comes about by stripping labelled policies, and by placing the
provisional policies. -/
theorem recreate_built (hs : Policy.WellStored s.authority.policies)
    (hqs : Policy.AreProvisional role qs)
    (hexisting : ∀ p, p ∈ existing ↔
      (∃ id, s.authority.policies.get? id = some p) ∧ label ∈ p.labels)
    (hlabel : label ∈ dropped)
    (hrun : PersonaService.placeAll pageSize role s
      ((existing.foldl load {}).stripAll existing role dropped) qs = .ok plan') :
    Built s.authority.policies role (· ∈ qs) (· ∈ existing) (· ∈ dropped) plan' := by
  have hstored : ∀ p ∈ existing, ∃ id, s.authority.policies.get? id = some p :=
    fun p hp => ((hexisting p).1 hp).1
  have hloaded : Built s.authority.policies role (· ∈ qs) (· ∈ existing) (· ∈ dropped)
      (existing.foldl load {}) := Built.empty.foldl_load hstored
  have hstripped := hloaded.strip (fun p hp => ⟨hstored p hp, hp⟩) (fun _ hl => hl)
    (stripAll_strips hs hlabel fun p hp => (hexisting p).1 hp).1
  exact placeAll_built hs hqs.placeable hstripped (fun _ hq => hq) hrun

/-- Stripping all labelled policies and placing anew ends with all provisional policies held. -/
theorem recreate_planned (hs : Policy.WellStored s.authority.policies)
    (hqs : Policy.AreProvisional role qs)
    (hexisting : ∀ p, p ∈ existing ↔
      (∃ id, s.authority.policies.get? id = some p) ∧ label ∈ p.labels)
    (hlabel : label ∈ dropped)
    (hrun : PersonaService.placeAll pageSize role s
      ((existing.foldl load {}).stripAll existing role dropped) qs = .ok plan') :
    Planned s.authority.policies label role qs (Policy.IsLoaded existing) plan' ∧
      ∀ id, Policy.IsLoaded existing id → ∃ t, plan'.tracked.get? id = some t := by
  have hstored : ∀ p ∈ existing, ∃ id, s.authority.policies.get? id = some p :=
    fun p hp => ((hexisting p).1 hp).1
  obtain ⟨hloaded, htracked⟩ := placing_loaded hs hstored label qs
  have hstrips : Strips role dropped (existing.foldl load {}) existing
      ((existing.foldl load {}).stripAll existing role dropped) :=
    (stripAll_strips hs hlabel fun p hp => (hexisting p).1 hp).1
  have hplacing := hstrips.placing hloaded hs hstored hlabel (fun _ h => h) (fun _ h => h)
  obtain ⟨hplanned, hstill⟩ := placeAll_planned hs hqs hplacing hrun
  refine ⟨hplanned, fun id hid => ?_⟩
  obtain ⟨t, ht⟩ := hstrips.isTracked (htracked id hid)
  exact hstill id t ht

end Plan

/-! ### Requests -/

@[simp] theorem Operation.runOn_synthesize (persona : Persona) (policy : PersonaPolicy)
    (actions : NameSet) (s : System) :
    runOn (synthesize persona policy actions) s =
      (.ok (synthesizeActions s.drawn persona policy actions), { s with
        drawn := s.drawn + (Synthesis.provisionals persona policy actions).length }) := rfl

namespace PersonaService

variable {σ : ServiceSettings} {persona : Persona} {policy prior : PersonaPolicy} {s' : System}
  {plan : Plan}

/-- Planning a new persona policy places its provisional policies. All that the plan tracks is
wanted. -/
theorem planCreate_planned (hs : Policy.WellStored s.authority.policies) (label : String)
    (hrun : Operation.runOn (planCreate σ persona {} policy) s = (.ok plan, s')) :
    Plan.Planned s.authority.policies label persona.roleName (synthesize s.drawn persona policy)
      (fun _ => False) plan ∧ s' = { s with drawn := s'.drawn } := by
  unfold planCreate at hrun
  simp only [Operation.runOn_bind_ok, Operation.runOn_synthesize, Operation.runOn_read,
    Prod.mk.injEq, Except.ok.injEq] at hrun
  obtain ⟨_, _, ⟨rfl, rfl⟩, hplace, rfl⟩ := hrun
  have hplacing := Plan.placing_empty s.authority.policies label
    (synthesize s.drawn persona policy) (fun _ => False) (fun _ => False)
  have hqs := synthesizeActions_areProvisional s.drawn persona policy policy.actions
  exact ⟨(Plan.placeAll_planned hs hqs hplacing hplace).1, rfl⟩

/-- The plan of a new persona policy comes about by placing its provisional policies. -/
theorem planCreate_built {placed stripped : Policy → Prop} {shed : String → Prop} {plan' : Plan}
    (hs : Policy.WellStored s.authority.policies)
    (hplaced : ∀ q, placed q → q.IsPlaceable persona.roleName)
    (h : Plan.Built s.authority.policies persona.roleName placed stripped shed plan)
    (hqs : ∀ q ∈ synthesize s.drawn persona policy, placed q)
    (hrun : Operation.runOn (planCreate σ persona plan policy) s = (.ok plan', s')) :
    Plan.Built s.authority.policies persona.roleName placed stripped shed plan' := by
  unfold planCreate at hrun
  simp only [Operation.runOn_bind_ok, Operation.runOn_synthesize, Operation.runOn_read,
    Prod.mk.injEq, Except.ok.injEq] at hrun
  obtain ⟨_, _, ⟨rfl, rfl⟩, hplace, rfl⟩ := hrun
  have hbuilt : Plan.Built s.authority.policies persona.roleName placed stripped shed plan' :=
    Plan.placeAll_built (s := { s with drawn := _ }) hs hplaced h hqs hplace
  exact hbuilt

/-- The plan of an update comes about by placing the provisional policies, and by stripping policies
with the label of the persona policy. Unless their targets change, none is stripped that was found for
a provisional policy. -/
theorem planUpdate_built (hs : Policy.WellStored s.authority.policies)
    (hrun : Operation.runOn (planUpdate σ persona prior policy) s = (.ok plan, s')) :
    let qs := synthesize s.drawn persona policy
    let labelled := s.authority.withLabel (Label.personaPolicy policy.guid)
    Plan.Built s.authority.policies persona.roleName (· ∈ qs)
      (fun p => p ∈ labelled ∧ (mustRecreate policy prior = false →
        ∀ q ∈ qs, labelled.find? (·.sameTarget q) ≠ some p)) (· ∈ policy.droppedLabels persona)
      plan := by
  intro qs labelled
  simp only [planUpdate, Operation.runOn_bind_ok, Operation.runOn_synthesize,
    Operation.runOn_read, Prod.mk.injEq, Except.ok.injEq] at hrun
  obtain ⟨existing, _, ⟨hread, rfl⟩, _, _, ⟨rfl, rfl⟩, hrun⟩ := hrun
  obtain rfl : existing = labelled := System.policiesWithLabel_eq hread
  have hexisting := System.policiesWithLabel_spec hread
  have hlabel : Label.personaPolicy policy.guid ∈ policy.droppedLabels persona :=
    List.mem_cons_self
  have hqs := synthesizeActions_areProvisional s.drawn persona policy policy.actions
  split at hrun
  · next hrecreate =>
    simp only [Operation.runOn_read, Prod.mk.injEq] at hrun
    obtain ⟨hplace, rfl⟩ := hrun
    refine (Plan.recreate_built hs hqs hexisting hlabel hplace).mono (fun _ hq => hq)
      (fun p hp => ⟨hp, fun hkept => ?_⟩) fun _ hl => hl
    exact absurd (hrecreate.symm.trans hkept).symm Bool.false_ne_true
  · simp only [Operation.runOn_bind_ok, Operation.runOn_read, Operation.runOn_pure,
      Prod.mk.injEq, Except.ok.injEq] at hrun
    obtain ⟨state, _, ⟨hmap, rfl⟩, rfl, rfl⟩ := hrun
    exact (Plan.mapAll_built hs hqs hexisting hlabel hmap).mono (fun _ hq => hq)
      (fun p hp => ⟨hp.1, fun _ => hp.2⟩) fun _ hl => hl

/-- Planning an update of a persona policy ends with its provisional policies held. All labelled
policies are tracked, and what is not wanted of them loses the label. -/
theorem planUpdate_planned (hs : Policy.WellStored s.authority.policies)
    (hrun : Operation.runOn (planUpdate σ persona prior policy) s = (.ok plan, s')) :
    ∃ loaded : String → Prop,
      Plan.Planned s.authority.policies (Label.personaPolicy policy.guid) persona.roleName
        (synthesize s.drawn persona policy) loaded plan ∧
      (∀ id p, s.authority.policies.get? id = some p →
        Label.personaPolicy policy.guid ∈ p.labels → ∃ t, plan.tracked.get? id = some t) ∧
      s' = { s with drawn := s'.drawn } := by
  simp only [planUpdate, Operation.runOn_bind_ok, Operation.runOn_synthesize,
    Operation.runOn_read, Prod.mk.injEq, Except.ok.injEq] at hrun
  obtain ⟨existing, _, ⟨hread, rfl⟩, _, _, ⟨rfl, rfl⟩, hrun⟩ := hrun
  have hexisting := System.policiesWithLabel_spec hread
  have hlabel : Label.personaPolicy policy.guid ∈ policy.droppedLabels persona :=
    List.mem_cons_self
  have hqs := synthesizeActions_areProvisional s.drawn persona policy policy.actions
  have htracked : (∀ id, Policy.IsLoaded existing id → ∃ t, plan.tracked.get? id = some t) →
      ∀ id p, s.authority.policies.get? id = some p →
        Label.personaPolicy policy.guid ∈ p.labels → ∃ t, plan.tracked.get? id = some t := by
    intro hall id p hp hmem
    exact hall id ⟨p, (hexisting p).2 ⟨⟨id, hp⟩, hmem⟩, hs.id id p hp⟩
  split at hrun
  · simp only [Operation.runOn_read, Prod.mk.injEq] at hrun
    obtain ⟨hplace, rfl⟩ := hrun
    obtain ⟨hplanned, hall⟩ := Plan.recreate_planned hs hqs hexisting hlabel hplace
    exact ⟨_, hplanned, htracked hall, rfl⟩
  · simp only [Operation.runOn_bind_ok, Operation.runOn_read, Operation.runOn_pure,
      Prod.mk.injEq, Except.ok.injEq] at hrun
    obtain ⟨state, _, ⟨hmap, rfl⟩, rfl, rfl⟩ := hrun
    obtain ⟨hplanned, hall⟩ := Plan.mapAll_planned hs hqs hexisting hlabel hmap
    exact ⟨_, hplanned, htracked hall, rfl⟩

end PersonaService

end CatalogAccess
