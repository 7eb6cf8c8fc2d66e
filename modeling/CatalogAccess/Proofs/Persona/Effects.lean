import CatalogAccess.Proofs.Persona.Exactness

/-!
# What a plan leaves

A plan for a role that is carried out in full changes stored policies in few ways, whatever its steps
were (`Plan.Effects`, `Plan.Built.effects`): policies that it neither places nor strips stay, and what
names the role and has no placed target was stored before. Items of other roles stay where they are, and
labels are taken away only if they may be shed. A policy with a placed target names the role in no list
but that of the provisional policy if the plan started so (`Plan.Confines`), which placing keeps true
(`Plan.placeAll_confines`).
-/

namespace CatalogAccess

namespace Plan

variable {plan plan' : Plan} {a a' : Authority} {stored : NameMap Policy} {role : String}
  {placed stripped : Policy → Prop} {shed : String → Prop} {q : Policy}

/-! ### Stored policies -/

/-- What a plan for a role makes of the stored policies, when it places and strips certain policies and
sheds certain labels. -/
structure Effects (a a' : Authority) (role : String) (placed stripped : Policy → Prop)
    (shed : String → Prop) : Prop where
  /-- What is neither placed nor stripped stays. -/
  stays : ∀ id p, a.policies.get? id = some p → (∀ q, placed q → q.target ≠ p.target) →
    ¬ stripped p → a'.policies.get? id = some p
  /-- What names the role and is not placed was there before. -/
  origin : ∀ id p, a'.policies.get? id = some p → (∀ q, placed q → q.target ≠ p.target) →
    p.itemsNaming role ≠ ∅ → a.policies.get? id = some p
  /-- The items of other roles stay, with the labels that may not be shed. -/
  spares : ∀ id p r, a.policies.get? id = some p → r ≠ role → p.itemsNaming r ≠ ∅ →
    ∃ p', a'.policies.get? id = some p' ∧ p'.target = p.target ∧
      p'.itemsNaming r = p.itemsNaming r ∧ Retains shed p p'
  /-- The items of other roles were there before. -/
  others : ∀ id p' r, a'.policies.get? id = some p' → r ≠ role → p'.itemsNaming r ≠ ∅ →
    ∃ p, a.policies.get? id = some p ∧ p'.target = p.target ∧ p'.itemsNaming r = p.itemsNaming r
  /-- The labels were there before, or come with what is placed. -/
  labels : ∀ id p' l, a'.policies.get? id = some p' → l ∈ p'.labels →
    (∃ p, a.policies.get? id = some p ∧ p'.target = p.target ∧ l ∈ p.labels) ∨
      ∃ q, placed q ∧ p'.target = q.target ∧ l ∈ q.labels

/-- Less may be known of what is placed, of what is stripped and of the labels that are shed. -/
theorem Effects.mono {placed' stripped' : Policy → Prop} {shed' : String → Prop}
    (h : Effects a a' role placed stripped shed) (hplaced : ∀ q, placed q → placed' q)
    (hstripped : ∀ p, stripped p → stripped' p) (hshed : ∀ l, shed l → shed' l) :
    Effects a a' role placed' stripped' shed' := by
  refine ⟨fun id p hp hfree hkept => h.stays id p hp (fun q hq => hfree q (hplaced q hq))
    fun hp => hkept (hstripped p hp),
    fun id p hp hfree hnamed => h.origin id p hp (fun q hq => hfree q (hplaced q hq)) hnamed,
    fun id p r hp hr hnamed => ?_, h.others, fun id p' l hp' hl => ?_⟩
  · obtain ⟨p', hp', htarget, hitems, hretains⟩ := h.spares id p r hp hr hnamed
    refine ⟨p', hp', htarget, hitems, fun l hl hkept htype => ?_⟩
    refine hretains l hl (fun hl => hkept (hshed l hl)) fun heq => ?_
    obtain ⟨l', hl', hstart, hkept'⟩ := htype heq
    exact ⟨l', hl', hstart, fun hl => hkept' (hshed l' hl)⟩
  · rcases h.labels id p' l hp' hl with hold | ⟨q, hq, hnew⟩
    · exact .inl hold
    · exact .inr ⟨q, hplaced q hq, hnew⟩

/-- A plan that is carried out in full has these effects. -/
theorem Built.effects (h : Built a.policies role placed stripped shed plan) (ha : a.WellKept)
    (hplaced : ∀ q, placed q → q.IsPlaceable role) (hrealized : plan.Realized a a') :
    Effects a a' role placed stripped shed := by
  have hs := ha.toWellStored
  have htracks := h.tracks hs hplaced
  have hminds := h.minds hs hplaced
  constructor
  · intro id p hp hfree hkept
    cases ht : plan.tracked.get? id with
    | none => exact hrealized.keeps ha.numbered ht hp
    | some t =>
      rcases h.outcome hs hplaced ht hp with rfl | ⟨q, hq, htarget⟩ | ⟨hstripped, -⟩
      · exact hrealized.tracked id _ ht
      · exact absurd htarget.symm (hfree q hq)
      · exact absurd hstripped hkept
  · intro id p hp hfree hnamed
    rcases hrealized.cases hp with ⟨t, ht, hleft⟩ | ⟨-, hbefore⟩ | ⟨c, hc, rfl⟩
    · obtain rfl := Tracked.policy_of_settled hleft
      obtain ⟨old, hold, hsame, -⟩ := htracks.origin id t ht
      rcases h.outcome hs hplaced ht hold with rfl | ⟨q, hq, htarget⟩ | ⟨-, dropped, rfl⟩
      · exact hold
      · exact absurd (hsame.trans htarget).symm (hfree q hq)
      · exact absurd (Policy.itemsNaming_stripped (hs.tidy id old hold) role dropped) hnamed
    · exact hbefore
    · obtain ⟨q, hq, htarget⟩ := hminds.target hc
      exact absurd htarget.symm (hfree q hq)
  · intro id p r hp hr hnamed
    cases ht : plan.tracked.get? id with
    | none => exact ⟨p, hrealized.keeps ha.numbered ht hp, rfl, rfl, fun _ hl _ _ => hl⟩
    | some t =>
      have hitems := hminds.others id t p r ht hp hr
      refine ⟨t.policy, ?_, Policy.target_eq_of_frame (htracks.frame id t p ht hp), hitems,
        h.retains hs hplaced ht hp⟩
      -- A policy with items is not deleted.
      refine (hrealized.tracked id t ht).trans (Tracked.settled_eq_some_iff.2 ⟨fun hdeleted => ?_, rfl⟩)
      have hempty := hminds.hasNoItems ht hdeleted
      exact hnamed (hitems.symm.trans (Policy.itemsNaming_of_hasNoItems hempty r))
  · intro id p' r hp' hr hnamed
    rcases hrealized.cases hp' with ⟨t, ht, hleft⟩ | ⟨-, hbefore⟩ | ⟨c, hc, rfl⟩
    · obtain rfl := Tracked.policy_of_settled hleft
      obtain ⟨p, hp, hsame, -⟩ := htracks.origin id t ht
      exact ⟨p, hp, hsame, hminds.others id t p r ht hp hr⟩
    · exact ⟨p', hbefore, rfl, rfl⟩
    · exact absurd ((hminds.created c hc).2 r hr) hnamed
  · intro id p' l hp' hl
    rcases hrealized.cases hp' with ⟨t, ht, hleft⟩ | ⟨-, hbefore⟩ | ⟨c, hc, rfl⟩
    · obtain rfl := Tracked.policy_of_settled hleft
      obtain ⟨p, hp, hsame, -⟩ := htracks.origin id t ht
      rcases h.gains hs hplaced ht hp l hl with hold | ⟨q, hq, htarget, hnew⟩
      · exact .inl ⟨p, hp, hsame, hold⟩
      · exact .inr ⟨q, hq, hsame.trans htarget, hnew⟩
    · exact .inl ⟨p', hbefore, rfl, hl⟩
    · exact .inr (h.created_gains c hc l hl)

/-- After all policies with a label have been stripped, what has one of the labels that were dropped was
stored before, without that label. -/
theorem stripAll_sheds {label : String} {dropped : List String} (ha : Policy.WellStored a.policies)
    (hlabel : label ∈ dropped)
    (hrealized : (Plan.stripAll {} (a.withLabel label) role dropped).Realized a a') {p : Policy}
    (hp : p ∈ a'.policies.values) {l : String} (hl : l ∈ dropped) (hmem : l ∈ p.labels) :
    p ∈ a.policies.values ∧ label ∉ p.labels := by
  have hstrips := stripAll_withLabel ha role hlabel
  obtain ⟨id, hget⟩ := NameMap.mem_values_iff.1 hp
  rcases hrealized.cases hget with ⟨t, ht, hsettled⟩ | ⟨huntracked, hbefore⟩ | ⟨c, hc, -⟩
  · rcases hstrips.cases ha (fun p hp => (Authority.mem_withLabel.1 hp).1) ht with
      ht | ⟨old, -, -, rfl⟩
    · exact absurd ht.symm (Option.some_ne_none t)
    · obtain rfl := Tracked.policy_of_settled hsettled
      exact absurd hmem (Policy.not_mem_strippedLabels hl)
  · refine ⟨NameMap.mem_values_iff.2 ⟨id, hbefore⟩, fun hlabelled => ?_⟩
    obtain ⟨_, -, -, ht⟩ := hstrips.stripped p (Authority.mem_withLabel.2 ⟨⟨id, hbefore⟩, hlabelled⟩) id
      (ha.id id p hbefore)
    exact Option.some_ne_none _ (ht.symm.trans huntracked)
  · rw [hstrips.creates] at hc
    exact absurd hc List.not_mem_nil

/-! ### The lists in which a role is named -/

/-- What has the target of a provisional policy, whether it is in the plan or stored and not tracked, names
the role in no list in which the provisional policy has no item. -/
structure Confines (plan : Plan) (stored : NameMap Policy) (role : String) (q : Policy) : Prop where
  /-- So it is with working copies. -/
  tracked : ∀ id t, plan.tracked.get? id = some t → t.policy.target = q.target →
    t.policy.ConfinedTo q role
  /-- So it is with planned policies. -/
  created : ∀ c ∈ plan.creates, c.target = q.target → c.ConfinedTo q role
  /-- So it is with stored policies that are not tracked. -/
  stored : ∀ id p, stored.get? id = some p → plan.tracked.get? id = none → p.target = q.target →
    p.ConfinedTo q role

/-- An empty plan does if what is stored does. -/
theorem confines_empty
    (h : ∀ id p, stored.get? id = some p → p.target = q.target → p.ConfinedTo q role) :
    Confines {} stored role q :=
  ⟨fun _ t ht => absurd ht.symm (Option.some_ne_none t), fun _ hc => absurd hc List.not_mem_nil,
    fun id p hp _ => h id p hp⟩

/-- Loading takes over what is stored. -/
theorem Confines.load (h : plan.Confines stored role q) (hs : Policy.WellStored stored) {p : Policy}
    {id : String} (hp : stored.get? id = some p) : (plan.load p).Confines stored role q := by
  obtain ⟨hget, hcreates⟩ := load_get? plan (hs.id id p hp)
  refine ⟨fun x t ht htarget => ?_, hcreates ▸ h.created, fun x p' hp' ht => ?_⟩
  · rw [hget] at ht
    split at ht
    · cases hold : plan.tracked.get? id with
      | some u =>
        rw [hold, Option.getD_some] at ht
        obtain rfl := Option.some.inj ht
        exact h.tracked id u hold htarget
      | none =>
        rw [hold, Option.getD_none] at ht
        obtain rfl := Option.some.inj ht
        exact h.stored id p hp hold htarget
    · exact h.tracked x t ht htarget
  · rw [hget] at ht
    split at ht
    · exact absurd ht (Option.some_ne_none _)
    · exact h.stored x p' hp' ht

/-- Placing a policy touches no other lists. -/
theorem Places.confines {allowed : String → Prop} {q₀ : Policy}
    (hplaces : Places stored allowed role plan q₀ plan') (h : plan.Confines stored role q)
    (halike : q₀.target = q.target → Policy.Alike q₀ q) : plan'.Confines stored role q := by
  -- What a policy is merged into goes on being confined.
  have hmerge : ∀ {p p' : Policy}, p.target = q₀.target → p.Merged q₀ role p' →
      (p.target = q.target → p.ConfinedTo q role) → p'.target = q.target → p'.ConfinedTo q role := by
    intro p p' htarget₀ hmerged hbefore htarget
    have hsame : q₀.target = q.target := hmerged.carries.target.symm.trans htarget
    exact (hmerged.rest.of_alike (halike hsame)).confinedTo_iff.2 (hbefore (htarget₀.trans hsame))
  cases hplaces with
  | tracked x t t' _ ht htarget₀ hmerged hfate hsame hget hcreates =>
    refine ⟨fun id u hu htarget => ?_, hcreates ▸ h.created, fun id p hp hnone => ?_⟩
    · rw [hget] at hu
      split at hu
      · obtain rfl := Option.some.inj hu
        exact hmerge htarget₀ hmerged (h.tracked x t ht) htarget
      · exact h.tracked id u hu htarget
    · rw [hget] at hnone
      split at hnone
      · exact absurd hnone (Option.some_ne_none t')
      · exact h.stored id p hp hnone
  | planned index c c' hc htarget₀ hmerged hget hcreates =>
    refine ⟨fun id u hu => h.tracked id u (hget id ▸ hu), fun d hd htarget => ?_,
      fun id p hp hnone => h.stored id p hp (hget id ▸ hnone)⟩
    rw [hcreates] at hd
    rcases List.mem_or_eq_of_mem_set hd with hd | rfl
    · exact h.created d hd htarget
    · exact hmerge htarget₀ hmerged (h.created c (List.mem_of_getElem? hc)) htarget
  | created hstored hplanned hget hcreates =>
    refine ⟨fun id u hu => h.tracked id u (hget id ▸ hu), fun d hd htarget => ?_,
      fun id p hp hnone => h.stored id p hp (hget id ▸ hnone)⟩
    rw [hcreates] at hd
    rcases List.mem_append.1 hd with hd | hd
    · exact h.created d hd htarget
    · obtain rfl := List.mem_singleton.1 hd
      exact (halike htarget).confinedTo_iff.1 (.self d role)

/-- Placing policies one after the other touches no other lists. -/
theorem placeAll_confines {s : System} {pageSize : Nat} {qs : List Policy}
    (hs : Policy.WellStored s.authority.policies) (hqs : Policy.AreProvisional role qs)
    (htracks : plan.Tracks s.authority.policies) (hq : q ∈ qs)
    (h : plan.Confines s.authority.policies role q)
    (hrun : PersonaService.placeAll pageSize role s plan qs = .ok plan') :
    plan'.Confines s.authority.policies role q := by
  let I (left : List Policy) (plan : Plan) : Prop :=
    (∀ q' ∈ left, q' ∈ qs) ∧ plan.Tracks s.authority.policies ∧
      plan.Confines s.authority.policies role q
  have hstep : ∀ q' left plan plan', I (q' :: left) plan →
      PersonaService.place pageSize role s plan q' = .ok plan' → I left plan' := by
    rintro q' left plan plan' ⟨hleft, htracks, hconfines⟩ hplace
    have hq' := hleft q' List.mem_cons_self
    have hfree : ∀ id p, s.authority.policies.get? id = some p → p.target = q'.target → True :=
      fun _ _ _ _ => trivial
    obtain ⟨mid, hmid, htracks', hplaces⟩ := place_places hs htracks (hqs.each q' hq') hfree hplace
    refine ⟨fun q'' hq'' => hleft q'' (List.mem_cons_of_mem q' hq''),
      hplaces.tracks htracks' (hqs.each q' hq') (hqs.id q' hq') (hqs.synthetic q' hq'),
      hplaces.confines ?_ (hqs.alike q' hq' q hq)⟩
    rcases hmid with rfl | ⟨id, p, hp, -, rfl⟩
    · exact hconfines
    · exact hconfines.load hs hp
  exact (foldlM_invariant I hstep ⟨fun _ hq' => hq', htracks, h⟩ hrun).2.2

/-- A plan that starts by stripping all policies with a label, when only these name the role in another
list. -/
theorem confines_stripAll {existing : List Policy} {dropped : List String} {label : String}
    (hs : Policy.WellStored stored)
    (hexisting : ∀ p, p ∈ existing ↔ (∃ id, stored.get? id = some p) ∧ label ∈ p.labels)
    (hlabel : label ∈ dropped) (h : ∀ id p, stored.get? id = some p → p.target = q.target →
      p.ConfinedTo q role ∨ label ∈ p.labels) :
    ((existing.foldl Plan.load {}).stripAll existing role dropped).Confines stored role q := by
  have hstored : ∀ p ∈ existing, ∃ id, stored.get? id = some p := fun p hp => ((hexisting p).1 hp).1
  have hstrips : Strips role dropped (existing.foldl Plan.load {}) existing
      ((existing.foldl Plan.load {}).stripAll existing role dropped) :=
    (stripAll_strips hs hlabel fun p hp => (hexisting p).1 hp).1
  obtain ⟨htracks, hloads, -⟩ := loads_foldl hs hstored (fun _ hp => hp) (tracks_empty stored)
  refine ⟨fun id t ht htarget => ?_, ?_, fun id p hp hnone htarget => ?_⟩
  · -- Whatever is loaded is stripped, and names the role no more.
    have hloaded : ∃ p, stored.get? id = some p ∧ t = .leftover (p.stripped role dropped) := by
      rcases hstrips.cases hs hstored ht with hold | ⟨p, -, hp, rfl⟩
      · have hmem : t.policy ∈ existing :=
          (hloads.new id t hold).resolve_left fun h => Option.some_ne_none t h.symm
        obtain ⟨p, hp, hid, ht'⟩ := hstrips.stripped t.policy hmem id (htracks.id id t hold)
        obtain ⟨id', hget⟩ := hstored p hp
        obtain rfl : id' = id := Option.some.inj ((hs.id id' p hget).symm.trans hid)
        exact ⟨p, hget, Option.some.inj (ht.symm.trans ht')⟩
      · exact ⟨p, hp, rfl⟩
    obtain ⟨p, hp, rfl⟩ := hloaded
    have hnone := Policy.itemsNaming_stripped (hs.tidy id p hp) role dropped
    exact .of_unnamed hnone
  · rw [hstrips.creates, hloads.creates]
    exact fun c hc => absurd hc List.not_mem_nil
  · refine (h id p hp htarget).resolve_right fun hmem => ?_
    obtain ⟨_, -, -, ht⟩ := hstrips.stripped p ((hexisting p).2 ⟨⟨id, hp⟩, hmem⟩) id (hs.id id p hp)
    exact Option.some_ne_none _ (ht.symm.trans hnone)

/-- When the plan is carried out, the stored policies with the target are as the plan has them. -/
theorem Confines.realized (h : plan.Confines a.policies role q) (hrealized : plan.Realized a a')
    {p : Policy} (hp : p ∈ a'.policies.values) (htarget : p.target = q.target) :
    p.ConfinedTo q role := by
  obtain ⟨id, hget⟩ := NameMap.mem_values_iff.1 hp
  rcases hrealized.cases hget with ⟨t, ht, hsettled⟩ | ⟨hnone, hbefore⟩ | ⟨c, hc, rfl⟩
  · obtain rfl := Tracked.policy_of_settled hsettled
    exact h.tracked id t ht htarget
  · exact h.stored id p hbefore hnone htarget
  · have hconfined := h.created c hc htarget
    exact ⟨hconfined.allow, hconfined.deny, hconfined.mask⟩

end Plan

end CatalogAccess
