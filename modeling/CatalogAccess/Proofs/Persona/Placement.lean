import CatalogAccess.PersonaService
import CatalogAccess.Proofs.NameMap
import CatalogAccess.Proofs.Operation
import CatalogAccess.Proofs.Page
import CatalogAccess.Proofs.Reconcile.Building
import CatalogAccess.Proofs.Synthesis

/-!
# Placing provisional policies

Planning places the provisional policies of a request one after the other. `Plan.Placing` is what
it keeps true meanwhile: the plan is a working copy of the stored policies, and apart from a rest
that is dealt with later, a tracked policy has the label of the request only if its target is
wanted. Each step adds to what the plan holds and takes nothing back (`Plan.Places.holds_other`), so
that in the end all provisional policies are held (`Plan.placeAll_planned`).
-/

namespace CatalogAccess

/-- Provisional policies may be placed. -/
theorem Policy.AreProvisional.placeable {role : String} {qs : List Policy}
    (h : Policy.AreProvisional role qs) : ∀ q ∈ qs, q.IsPlaceable role :=
  fun q hq => ⟨h.each q hq, h.id q hq, h.synthetic q hq⟩

/-- The target of the policy is that of one of the provisional policies. -/
def Policy.IsWanted (qs : List Policy) (p : Policy) : Prop := ∃ q ∈ qs, p.target = q.target

/-- Which identifiers are drawn for names does not matter to what is wanted. -/
theorem Policy.isWanted_synthesize_iff (draw draw' : Nat) {persona : Persona}
    {policy : PersonaPolicy} {p : Policy} :
    p.IsWanted (synthesize draw persona policy) ↔
      p.IsWanted (synthesize draw' persona policy) := by
  have hdraws : ∀ draw draw', p.IsWanted (synthesize draw persona policy) →
      p.IsWanted (synthesize draw' persona policy) := by
    rintro draw draw' ⟨q, hq, htarget⟩
    obtain ⟨q', hq', halike⟩ := exists_alike_synthesize hq
    exact ⟨q', hq', htarget.trans halike.target.symm⟩
  exact ⟨hdraws draw draw', hdraws draw' draw⟩

/-- No two stored policies have the target of the same provisional policy, if the bytes of its
resources fit into memory. -/
theorem Policy.WellStored.unique_synthesize {stored : NameMap Policy}
    (hs : Policy.WellStored stored) {draw : Nat} {persona : Persona} {policy : PersonaPolicy}
    (hassets : policy.assets ≠ []) (hshort : ∀ q ∈ synthesize draw persona policy,
      (ResourceMap.canonicalBytes q.resources).length < 2 ^ 60) :
    ∀ q ∈ synthesize draw persona policy, ∀ id id' p p', stored.get? id = some p →
      stored.get? id' = some p' → p.target = q.target → p'.target = q.target → id = id' := by
  intro q hq id id' p p' hp hp' htarget htarget'
  have hsynthetic :=
    (synthesizeActions_areProvisional draw persona policy policy.actions).synthetic q hq
  exact hs.unique hsynthetic (hshort q hq) (values_of_mem_synthesize hq hassets) hp hp' htarget
    htarget'

namespace Plan

variable {plan plan' mid : Plan} {stored : NameMap Policy} {role label : String}
  {qs : List Policy} {q : Policy} {loaded rest allowed : String → Prop}

/-! ### Loading -/

/-- The plan with more policies loaded, which are of a given sort. -/
structure Loads (sort : Policy → Prop) (plan plan' : Plan) : Prop where
  /-- What was tracked stays. -/
  kept : ∀ x t, plan.tracked.get? x = some t → plan'.tracked.get? x = some t
  /-- What is new is of the sort. -/
  new : ∀ x t, plan'.tracked.get? x = some t → plan.tracked.get? x = some t ∨ sort t.policy
  /-- The planned policies stay. -/
  creates : plan'.creates = plan.creates

theorem Loads.refl {sort : Policy → Prop} (plan : Plan) : Loads sort plan plan :=
  ⟨fun _ _ h => h, fun _ _ h => .inl h, rfl⟩

theorem Loads.trans {sort : Policy → Prop} (h : Loads sort plan mid) (h' : Loads sort mid plan') :
    Loads sort plan plan' := by
  refine ⟨fun x t hx => h'.kept x t (h.kept x t hx), fun x t hx => ?_, h'.creates.trans h.creates⟩
  rcases h'.new x t hx with hx | hsort
  · exact h.new x t hx
  · exact .inr hsort

/-- Loading a policy of the sort. Its identifier is tracked then. -/
theorem loads_load (plan : Plan) {sort : Policy → Prop} {p : Policy} {id : String}
    (hid : p.id = some id) (hsort : sort p) :
    Loads sort plan (plan.load p) ∧ ∃ t, (plan.load p).tracked.get? id = some t := by
  obtain ⟨hget, hcreates⟩ := load_get? plan hid
  refine ⟨⟨fun x t hx => ?_, fun x t hx => ?_, hcreates⟩, ?_⟩
  · rw [hget]
    split
    · next heq =>
      rw [← heq, hx]
      rfl
    · exact hx
  · rw [hget] at hx
    split at hx
    · next heq =>
      cases ht : plan.tracked.get? id with
      | some u =>
        rw [ht, Option.getD_some] at hx
        exact .inl (heq ▸ ht.trans hx)
      | none =>
        rw [ht, Option.getD_none] at hx
        obtain rfl := Option.some.inj hx
        exact .inr hsort
    · exact .inl hx
  · rw [hget, if_pos rfl]
    exact ⟨_, rfl⟩

/-- Loading stored policies one after the other keeps a working copy, and tracks all of them. -/
theorem loads_foldl (hs : Policy.WellStored stored) {policies : List Policy}
    (hpolicies : ∀ p ∈ policies, ∃ id, stored.get? id = some p) {sort : Policy → Prop}
    (hsort : ∀ p ∈ policies, sort p) (h : plan.Tracks stored) :
    (policies.foldl load plan).Tracks stored ∧ Loads sort plan (policies.foldl load plan) ∧
      ∀ p ∈ policies, ∀ id, p.id = some id →
        ∃ t, (policies.foldl load plan).tracked.get? id = some t := by
  induction policies generalizing plan with
  | nil => exact ⟨h, .refl plan, fun p hp => absurd hp List.not_mem_nil⟩
  | cons p ps ih =>
    obtain ⟨id, hp⟩ := hpolicies p List.mem_cons_self
    obtain ⟨hload, t, ht⟩ :=
      loads_load plan (hs.id id p hp) (hsort p List.mem_cons_self)
    obtain ⟨htracks, hloads, htracked⟩ :=
      ih (fun q hq => hpolicies q (List.mem_cons_of_mem p hq))
        (fun q hq => hsort q (List.mem_cons_of_mem p hq)) (h.load hs hp)
    refine ⟨htracks, hload.trans hloads, fun q hq x hx => ?_⟩
    rcases List.mem_cons.1 hq with rfl | hq
    · obtain rfl : id = x := Option.some.inj ((hs.id id q hp).symm.trans hx)
      exact ⟨t, hloads.kept id t ht⟩
    · exact htracked q hq x hx

/-- Loading does not undo a placement. -/
theorem Loads.holds {sort : Policy → Prop} (hloads : Loads sort plan plan')
    (h : plan.Holds allowed role q) : plan'.Holds allowed role q := by
  rcases h with ⟨id, t, hallowed, ht, hfate, hcarries⟩ | ⟨c, hc, hcarries⟩
  · exact .inl ⟨id, t, hallowed, hloads.kept id t ht, hfate, hcarries⟩
  · exact .inr ⟨c, hloads.creates ▸ hc, hcarries⟩

/-! ### One provisional policy -/

/-- What the plan finds for a provisional policy has its target. -/
theorem findSameTarget?_spec {place : Place} (h : plan.findSameTarget? q = some place) :
    (∃ id t, place = .tracked id ∧ plan.tracked.get? id = some t ∧ t.policy.target = q.target) ∨
      ∃ index c, place = .planned index ∧ plan.creates[index]? = some c ∧ c.target = q.target := by
  unfold findSameTarget? at h
  split at h
  · next e he =>
    obtain rfl := Option.some.inj h
    have htarget := List.find?_some he
    have hmem := NameMap.get?_eq_some_iff.2 (List.mem_of_find?_eq_some he)
    exact .inl ⟨e.1, e.2, rfl, hmem, Policy.sameTarget_iff.1 htarget⟩
  · obtain ⟨index, hindex, rfl⟩ := Option.map_eq_some_iff.1 h
    obtain ⟨hlt, htarget, -⟩ := List.findIdx?_eq_some_iff_getElem.1 hindex
    exact .inr ⟨index, plan.creates[index], rfl, List.getElem?_eq_getElem hlt,
      Policy.sameTarget_iff.1 htarget⟩

/-- What the plan finds nothing for is no rival of a planned policy. -/
theorem findSameTarget?_none (h : plan.findSameTarget? q = none) :
    ∀ c ∈ plan.creates, ¬ c.Rivals q := by
  intro c hc hrivals
  unfold findSameTarget? at h
  split at h
  · exact absurd h (Option.some_ne_none _)
  · have hnone := List.findIdx?_eq_none_iff.1 (Option.map_eq_none_iff.1 h) c hc
    rw [Policy.sameTarget_iff.2 hrivals.target] at hnone
    exact Bool.false_ne_true hnone.symm

end Plan

/-- What the authority finds for a provisional policy is stored and has its target. -/
theorem System.sameTarget?_spec {s : System} {pageSize : Nat} {q p : Policy}
    (h : s.sameTarget? pageSize q = .ok (some p)) :
    p ∈ s.authority.policies.values ∧ p.target = q.target := by
  unfold sameTarget? at h
  rw [Except.bind_eq_ok_iff] at h
  obtain ⟨-, -, hfind⟩ := h
  rw [Page.find?_eq] at hfind
  have hfound := Except.ok.inj hfind
  have hmem := List.mem_of_find?_eq_some hfound
  have htarget := List.find?_some hfound
  exact ⟨(List.mem_filter.1 hmem).1, Policy.sameTarget_iff.1 htarget⟩

/-- What the authority finds nothing for is no rival of a stored policy. -/
theorem System.sameTarget?_none {s : System} {pageSize : Nat} {q : Policy}
    (h : s.sameTarget? pageSize q = .ok none) {id : String} {p : Policy}
    (hp : s.authority.policies.get? id = some p) : ¬ p.Rivals q := by
  intro hrivals
  unfold sameTarget? at h
  rw [Except.bind_eq_ok_iff] at h
  obtain ⟨-, -, hfind⟩ := h
  rw [Page.find?_eq] at hfind
  have hnone := List.find?_eq_none.1 (Except.ok.inj hfind) p
  have hservice : p.service = q.service := Policy.service_eq_of_target hrivals.target
  refine hnone (List.mem_filter.2 ⟨NameMap.mem_values_iff.2 ⟨id, hp⟩, ?_⟩)
    (Policy.sameTarget_iff.2 hrivals.target)
  rw [hservice, beq_self_eq_true, hrivals.first, Bool.and_self]

namespace Plan

variable {plan plan' mid : Plan} {stored : NameMap Policy} {role label : String}
  {qs : List Policy} {q : Policy} {loaded rest allowed : String → Prop} {s : System}
  {pageSize : Nat}

/-- Placing a provisional policy may load the stored policy with its target first. -/
theorem place_places (hs : Policy.WellStored s.authority.policies)
    (h : plan.Tracks s.authority.policies) (hq : q.IsProvisional role)
    (hfree : ∀ id p, s.authority.policies.get? id = some p → p.target = q.target → allowed id)
    (hrun : PersonaService.place pageSize role s plan q = .ok plan') :
    ∃ mid, (mid = plan ∨ ∃ id p, s.authority.policies.get? id = some p ∧ p.target = q.target ∧
        mid = plan.load p) ∧
      mid.Tracks s.authority.policies ∧ Places s.authority.policies allowed role mid q plan' := by
  -- Merging into what is tracked under an identifier places the policy there.
  have hmerge : ∀ {plan : Plan} {id : String} {t : Tracked} {existing : Policy},
      plan.Tracks s.authority.policies → plan.tracked.get? id = some t →
      existing.id = some id → t.policy.target = q.target →
      Places s.authority.policies allowed role plan q (plan.mergeTracked existing q role) := by
    intro plan id t existing h ht hid htarget
    obtain ⟨p, hp, hpt, -⟩ := h.origin id t ht
    exact mergeTracked_places h hq (hfree id p hp (hpt.symm.trans htarget)) ht hid htarget
  unfold PersonaService.place at hrun
  cases hfind : plan.findSameTarget? q with
  | some place =>
    rw [hfind] at hrun
    -- The plan has a policy with the target.
    rcases findSameTarget?_spec hfind with ⟨id, t, rfl, ht, htarget⟩ | ⟨index, c, rfl, hc, htarget⟩
    · have hcurrent : plan.get? id = some t.policy := by rw [Plan.get?, ht]; rfl
      simp only [hcurrent, Except.ok.injEq] at hrun
      subst hrun
      exact ⟨plan, .inl rfl, h, hmerge h ht (h.id id t ht) htarget⟩
    · obtain rfl := Except.ok.inj hrun
      exact ⟨plan, .inl rfl, h, mergePlanned_places h hq hc htarget⟩
  | none =>
    rw [hfind] at hrun
    simp only [Except.bind_eq_ok_iff] at hrun
    obtain ⟨found, hfound, hrun⟩ := hrun
    cases found with
    | none =>
      -- Neither the plan nor the authority has one, so it is planned.
      obtain rfl := Except.ok.inj hrun
      exact ⟨plan, .inl rfl, h, .created (fun _ _ hp => System.sameTarget?_none hfound hp)
        (findSameTarget?_none hfind) (fun _ => rfl) rfl⟩
    | some existing =>
      -- The authority has one, which is loaded first and then merged into.
      obtain ⟨hmem, htarget⟩ := System.sameTarget?_spec hfound
      obtain ⟨id, hp⟩ := NameMap.mem_values_iff.1 hmem
      have hid := hs.id id existing hp
      have hload : Loads (fun p => p.target = q.target) plan (plan.load existing) ∧
          ∃ t, (plan.load existing).tracked.get? id = some t := loads_load plan hid htarget
      obtain ⟨-, t, ht⟩ := hload
      have htracks := h.load hs hp
      have hcurrent : (plan.load existing).get? id = some t.policy := by rw [Plan.get?, ht]; rfl
      simp only [hid, Option.getD_some, hcurrent] at hrun
      obtain rfl := Except.ok.inj hrun
      obtain ⟨p, hstored, hpt, -⟩ := htracks.origin id t ht
      obtain rfl : existing = p := Option.some.inj (hp.symm.trans hstored)
      exact ⟨plan.load existing, .inr ⟨id, existing, hp, htarget, rfl⟩, htracks,
        hmerge htracks ht (htracks.id id t ht) (hpt.trans htarget)⟩

/-- Placing a provisional policy is a step by which a plan comes about. -/
theorem place_built {placed stripped : Policy → Prop} {shed : String → Prop}
    (hs : Policy.WellStored s.authority.policies)
    (hplaced : ∀ q, placed q → q.IsPlaceable role)
    (h : Built s.authority.policies role placed stripped shed plan) (hq : placed q)
    (hrun : PersonaService.place pageSize role s plan q = .ok plan') :
    Built s.authority.policies role placed stripped shed plan' := by
  have hfree : ∀ id p, s.authority.policies.get? id = some p → p.target = q.target → True :=
    fun _ _ _ _ => trivial
  obtain ⟨mid, hmid, -, hplaces⟩ :=
    place_places hs (h.tracks hs hplaced) (hplaced q hq).provisional hfree hrun
  rcases hmid with rfl | ⟨id, p, hp, -, rfl⟩
  · exact h.place hq hplaces
  · exact (h.load hp).place hq hplaces

/-- Placing provisional policies one after the other. -/
theorem placeAll_built {placed stripped : Policy → Prop} {shed : String → Prop}
    (hs : Policy.WellStored s.authority.policies) (hplaced : ∀ q, placed q → q.IsPlaceable role)
    (h : Built s.authority.policies role placed stripped shed plan) (hqs : ∀ q ∈ qs, placed q)
    (hrun : PersonaService.placeAll pageSize role s plan qs = .ok plan') :
    Built s.authority.policies role placed stripped shed plan' := by
  have hstep : ∀ q left plan plan',
      (∀ q' ∈ q :: left, placed q') ∧ Built s.authority.policies role placed stripped shed plan →
      PersonaService.place pageSize role s plan q = .ok plan' →
      (∀ q' ∈ left, placed q') ∧ Built s.authority.policies role placed stripped shed plan' := by
    rintro q left plan plan' ⟨hleft, hbuilt⟩ hplace
    exact ⟨fun q' hq' => hleft q' (List.mem_cons_of_mem q hq'),
      place_built hs hplaced hbuilt (hleft q List.mem_cons_self) hplace⟩
  exact (foldlM_invariant (fun left plan => (∀ q' ∈ left, placed q') ∧
    Built s.authority.policies role placed stripped shed plan) hstep ⟨hqs, h⟩ hrun).2

/-! ### The provisional policies of a request -/

/-- What is kept while the provisional policies are placed. Some policies have been loaded before,
and a rest of them is still to be dealt with. -/
structure Placing (stored : NameMap Policy) (label : String) (qs : List Policy)
    (loaded rest : String → Prop) (plan : Plan) : Prop extends plan.Tracks stored where
  /-- What is tracked is wanted, or was loaded before and lacks the label outside the rest. -/
  tracked : ∀ id t, plan.tracked.get? id = some t →
    t.policy.IsWanted qs ∨ loaded id ∧ (label ∈ t.policy.labels → rest id)
  /-- What is planned is wanted. -/
  planned : ∀ c ∈ plan.creates, c.IsWanted qs

/-- Placing starts from an empty plan. -/
theorem placing_empty (stored : NameMap Policy) (label : String) (qs : List Policy)
    (loaded rest : String → Prop) : Placing stored label qs loaded rest {} :=
  ⟨tracks_empty stored, fun _ _ h => absurd h.symm (Option.some_ne_none _),
    fun _ hc => absurd hc List.not_mem_nil⟩

/-- Loading policies with a wanted target keeps the invariant. -/
theorem Placing.loads (h : Placing stored label qs loaded rest plan) (hq : q ∈ qs)
    (hloads : Loads (fun p => p.target = q.target) plan plan') (htracks : plan'.Tracks stored) :
    Placing stored label qs loaded rest plan' := by
  refine ⟨htracks, fun x t hx => ?_, hloads.creates ▸ h.planned⟩
  rcases hloads.new x t hx with hx | htarget
  · exact h.tracked x t hx
  · exact .inl ⟨q, hq, htarget⟩

/-- Placing a provisional policy keeps the invariant. -/
theorem Placing.places (h : Placing stored label qs loaded rest plan)
    (hqs : Policy.AreProvisional role qs) (hq : q ∈ qs)
    (hplaces : Places stored allowed role plan q plan') :
    Placing stored label qs loaded rest plan' := by
  have htracks := hplaces.tracks h.toTracks (hqs.each q hq) (hqs.id q hq) (hqs.synthetic q hq)
  cases hplaces with
  | tracked id t t' hallowed ht htarget hmerged hfate hsame hget hcreates =>
    refine ⟨htracks, fun x u hx => ?_, hcreates ▸ h.planned⟩
    rw [hget] at hx
    split at hx
    · obtain rfl := Option.some.inj hx
      exact .inl ⟨q, hq, hmerged.carries.target⟩
    · exact h.tracked x u hx
  | planned index c c' hc htarget hmerged hget hcreates =>
    refine ⟨htracks, fun x u hx => h.tracked x u (hget x ▸ hx), fun d hd => ?_⟩
    rw [hcreates] at hd
    rcases List.mem_or_eq_of_mem_set hd with hd | rfl
    · exact h.planned d hd
    · exact ⟨q, hq, hmerged.carries.target⟩
  | created hstored hplanned hget hcreates =>
    refine ⟨htracks, fun x u hx => h.tracked x u (hget x ▸ hx), fun d hd => ?_⟩
    rw [hcreates] at hd
    rcases List.mem_append.1 hd with hd | hd
    · exact h.planned d hd
    · obtain rfl := List.mem_singleton.1 hd
      exact ⟨d, hq, rfl⟩

/-- The rest shrinks by what is wanted. -/
theorem Placing.shrink {rest' : String → Prop} (h : Placing stored label qs loaded rest plan)
    (hrest : ∀ id t, plan.tracked.get? id = some t → rest id → rest' id ∨ t.policy.IsWanted qs) :
    Placing stored label qs loaded rest' plan := by
  refine ⟨h.toTracks, fun id t ht => ?_, h.planned⟩
  rcases h.tracked id t ht with hwanted | ⟨hloaded, hlabel⟩
  · exact .inl hwanted
  · by_cases hmem : label ∈ t.policy.labels
    · rcases hrest id t ht (hlabel hmem) with hrest | hwanted
      · exact .inr ⟨hloaded, fun _ => hrest⟩
      · exact .inl hwanted
    · exact .inr ⟨hloaded, fun hin => absurd hin hmem⟩

/-- A placement in what is allowed is one in whatever allows more. -/
theorem Holds.mono {allowed' : String → Prop} (h : plan.Holds allowed role q)
    (hallowed : ∀ id, allowed id → allowed' id) : plan.Holds allowed' role q := by
  rcases h with ⟨id, t, hid, ht, hfate, hcarries⟩ | hplanned
  · exact .inl ⟨id, t, hallowed id hid, ht, hfate, hcarries⟩
  · exact .inr hplanned

/-- A step of planning: the invariant is kept, one more provisional policy is held, and none is
lost. -/
structure Advances (stored : NameMap Policy) (label role : String) (qs : List Policy)
    (loaded rest allowed : String → Prop) (plan : Plan) (q : Policy) (plan' : Plan) : Prop where
  /-- The invariant is kept. -/
  placing : Placing stored label qs loaded rest plan'
  /-- The provisional policy is held. -/
  holds : plan'.Holds allowed role q
  /-- What was held still is. -/
  keeps : ∀ q₀ ∈ qs, plan.Holds allowed role q₀ → plan'.Holds allowed role q₀
  /-- What was tracked still is. -/
  tracked : ∀ id t, plan.tracked.get? id = some t → ∃ t', plan'.tracked.get? id = some t'

/-- Merging or creating is such a step. -/
theorem Placing.advances (h : Placing stored label qs loaded rest plan)
    (hqs : Policy.AreProvisional role qs) (hq : q ∈ qs)
    (hplaces : Places stored allowed role plan q plan') :
    Advances stored label role qs loaded rest allowed plan q plan' := by
  refine ⟨h.places hqs hq hplaces, hplaces.holds (hqs.each q hq),
    fun q₀ hq₀ hholds => hplaces.holds_other hholds (hqs.alike q hq q₀ hq₀), fun x u hx => ?_⟩
  cases hplaces with
  | tracked id t t' hallowed ht htarget hmerged hfate hsame hget hcreates =>
    rw [hget]
    split
    · exact ⟨t', rfl⟩
    · exact ⟨u, hx⟩
  | planned index c c' hc htarget hmerged hget hcreates => exact ⟨u, (hget x).trans hx⟩
  | created hstored hplanned hget hcreates => exact ⟨u, (hget x).trans hx⟩

/-- Placing a provisional policy is such a step, if what the authority has with its target is
allowed. -/
theorem Placing.place (hs : Policy.WellStored s.authority.policies)
    (h : Placing s.authority.policies label qs loaded rest plan)
    (hqs : Policy.AreProvisional role qs) (hq : q ∈ qs)
    (hfree : ∀ id p, s.authority.policies.get? id = some p → p.target = q.target → allowed id)
    (hrun : PersonaService.place pageSize role s plan q = .ok plan') :
    Advances s.authority.policies label role qs loaded rest allowed plan q plan' := by
  obtain ⟨mid, hmid, htracks, hplaces⟩ := place_places hs h.toTracks (hqs.each q hq) hfree hrun
  have hloads : Loads (fun p => p.target = q.target) plan mid := by
    rcases hmid with rfl | ⟨id, p, hp, htarget, rfl⟩
    · exact .refl mid
    · exact (loads_load plan (hs.id id p hp) htarget).1
  obtain ⟨hplacing, hholds, hkeeps, htracked⟩ := (h.loads hq hloads htracks).advances hqs hq hplaces
  exact ⟨hplacing, hholds, fun q₀ hq₀ h₀ => hkeeps q₀ hq₀ (hloads.holds h₀),
    fun x t hx => htracked x t (hloads.kept x t hx)⟩

/-- What planning ends with: all provisional policies are held, and what is tracked is wanted or was
loaded before and lacks the label. -/
structure Planned (stored : NameMap Policy) (label role : String) (qs : List Policy)
    (loaded : String → Prop) (plan : Plan) : Prop
    extends Placing stored label qs loaded (fun _ => False) plan where
  /-- All provisional policies are held. -/
  holds : ∀ q ∈ qs, plan.Holds (fun _ => True) role q

/-- Placing all provisional policies ends with all of them held, and loses nothing that was tracked.
-/
theorem placeAll_planned (hs : Policy.WellStored s.authority.policies)
    (hqs : Policy.AreProvisional role qs)
    (h : Placing s.authority.policies label qs loaded (fun _ => False) plan)
    (hrun : PersonaService.placeAll pageSize role s plan qs = .ok plan') :
    Planned s.authority.policies label role qs loaded plan' ∧
      ∀ id t, plan.tracked.get? id = some t → ∃ t', plan'.tracked.get? id = some t' := by
  let I (left : List Policy) (plan₁ : Plan) : Prop := (∀ q ∈ left, q ∈ qs) ∧
    Placing s.authority.policies label qs loaded (fun _ => False) plan₁ ∧
    (∀ q ∈ qs, q ∈ left ∨ plan₁.Holds (fun _ => True) role q) ∧
    ∀ id t, plan.tracked.get? id = some t → ∃ t', plan₁.tracked.get? id = some t'
  have hstep : ∀ q left plan₁ plan₂, I (q :: left) plan₁ →
      PersonaService.place pageSize role s plan₁ q = .ok plan₂ → I left plan₂ := by
    rintro q left plan₁ plan₂ ⟨hleft, hplacing, hholds, htracked⟩ hrun
    have hq : q ∈ qs := hleft q List.mem_cons_self
    obtain ⟨hplacing', hnew, hkeeps, hstill⟩ :=
      hplacing.place hs hqs hq (fun _ _ _ _ => trivial) hrun
    refine ⟨fun q₀ hq₀ => hleft q₀ (List.mem_cons_of_mem q hq₀), hplacing', fun q₀ hq₀ => ?_,
      fun id t ht => ?_⟩
    · rcases hholds q₀ hq₀ with hmem | hheld
      · rcases List.mem_cons.1 hmem with rfl | hmem
        · exact .inr hnew
        · exact .inl hmem
      · exact .inr (hkeeps q₀ hq₀ hheld)
    · obtain ⟨t', ht'⟩ := htracked id t ht
      exact hstill id t' ht'
  have hstart : I qs plan :=
    ⟨fun _ hq => hq, h, fun _ hq => .inl hq, fun _ t ht => ⟨t, ht⟩⟩
  obtain ⟨-, hplacing, hholds, htracked⟩ := foldlM_invariant I hstep hstart hrun
  exact ⟨⟨hplacing, fun q hq => (hholds q hq).resolve_left List.not_mem_nil⟩, htracked⟩

end Plan

end CatalogAccess
