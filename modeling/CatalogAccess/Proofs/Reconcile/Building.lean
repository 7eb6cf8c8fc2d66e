import CatalogAccess.Proofs.Reconcile.Plan

/-!
# How plans come about

Every plan of persona management starts empty and grows by steps of three kinds, all for one role:
stored policies are loaded, provisional policies are placed, and the role is stripped from stored
policies (`Plan.Built`). What such plans have in common is proved by induction on the steps. They are
working copies of what is stored (`Built.tracks`), and they mind other roles: no item of another role
is touched, and a policy is written if it has items and deleted if it has none (`Built.minds`). A
stored policy changes only if a provisional policy has its target or if it is stripped
(`Built.outcome`), and where the two do not meet, placing changes nothing but the list in which the
provisional policy has its item (`Built.spares`). Labels stay unless they may be shed, and new ones come
with placed policies (`Built.retains`, `Built.gains`).
-/

namespace CatalogAccess

/-- A policy that may be placed in a plan for a role. -/
structure Policy.IsPlaceable (role : String) (q : Policy) : Prop where
  /-- It has one item, for the role. -/
  provisional : q.IsProvisional role
  /-- It has no identifier yet. -/
  id : q.id = none
  /-- It is synthetic. -/
  synthetic : q.IsSynthetic

namespace Plan

variable {plan plan' : Plan} {stored : NameMap Policy} {role : String} {q : Policy}
  {placed stripped : Policy → Prop} {shed : String → Prop}

/-- The steps by which a plan comes about. -/
inductive Built (stored : NameMap Policy) (role : String) (placed stripped : Policy → Prop)
    (shed : String → Prop) : Plan → Prop
  /-- There is nothing at first. -/
  | empty : Built stored role placed stripped shed {}
  /-- A stored policy is loaded. -/
  | load {plan : Plan} {p : Policy} {id : String} (h : Built stored role placed stripped shed plan)
      (hp : stored.get? id = some p) : Built stored role placed stripped shed (plan.load p)
  /-- A provisional policy is placed. -/
  | place {plan plan' : Plan} {q : Policy} (h : Built stored role placed stripped shed plan)
      (hq : placed q) (hplaces : Places stored (fun _ => True) role plan q plan') :
      Built stored role placed stripped shed plan'
  /-- Stored policies are stripped of the role and of labels that may be shed. -/
  | strip {plan plan' : Plan} {policies : List Policy} {dropped : List String}
      (h : Built stored role placed stripped shed plan)
      (hpolicies : ∀ p ∈ policies, (∃ id, stored.get? id = some p) ∧ stripped p)
      (hdropped : ∀ l ∈ dropped, shed l) (hstrips : Strips role dropped plan policies plan') :
      Built stored role placed stripped shed plan'

/-- Less may be known of what is placed, of what is stripped and of the labels that are shed. -/
theorem Built.mono {placed' stripped' : Policy → Prop} {shed' : String → Prop}
    (h : Built stored role placed stripped shed plan) (hplaced : ∀ q, placed q → placed' q)
    (hstripped : ∀ p, stripped p → stripped' p) (hshed : ∀ l, shed l → shed' l) :
    Built stored role placed' stripped' shed' plan := by
  induction h with
  | empty => exact .empty
  | load _ hp ih => exact ih.load hp
  | place _ hq hplaces ih => exact ih.place (hplaced _ hq) hplaces
  | strip _ hpolicies hdropped hstrips ih =>
    exact ih.strip (fun p hp => ⟨(hpolicies p hp).1, hstripped p (hpolicies p hp).2⟩)
      (fun l hl => hshed l (hdropped l hl)) hstrips

/-- Loading stored policies one after the other. -/
theorem Built.foldl_load {policies : List Policy} (h : Built stored role placed stripped shed plan)
    (hpolicies : ∀ p ∈ policies, ∃ id, stored.get? id = some p) :
    Built stored role placed stripped shed (policies.foldl Plan.load plan) := by
  induction policies generalizing plan with
  | nil => exact h
  | cons p ps ih =>
    obtain ⟨id, hp⟩ := hpolicies p List.mem_cons_self
    exact ih (h.load hp) fun q hq => hpolicies q (List.mem_cons_of_mem p hq)

/-- What is tracked after a stored policy is loaded was tracked before, or is that policy. -/
theorem load_cases (hs : Policy.WellStored stored) {p : Policy} {id x : String} {t : Tracked}
    (hp : stored.get? id = some p) (ht : (plan.load p).tracked.get? x = some t) :
    plan.tracked.get? x = some t ∨ stored.get? x = some p ∧ t = ⟨.unchanged, p⟩ := by
  rw [(load_get? plan (hs.id id p hp)).1] at ht
  split at ht
  · next heq =>
    subst heq
    cases hold : plan.tracked.get? x with
    | some u =>
      rw [hold, Option.getD_some] at ht
      exact .inl ht
    | none =>
      rw [hold, Option.getD_none] at ht
      exact .inr ⟨hp, (Option.some.inj ht).symm⟩
  · exact .inl ht

/-- Plans are working copies of what is stored. -/
theorem Built.tracks (h : Built stored role placed stripped shed plan) (hs : Policy.WellStored stored)
    (hplaced : ∀ q, placed q → q.IsPlaceable role) : plan.Tracks stored := by
  induction h with
  | empty => exact tracks_empty stored
  | load _ hp ih => exact ih.load hs hp
  | place _ hq hplaces ih =>
    have hplaceable := hplaced _ hq
    exact hplaces.tracks ih hplaceable.provisional hplaceable.id hplaceable.synthetic
  | strip _ hpolicies _ hstrips ih => exact hstrips.tracks ih hs fun p hp => (hpolicies p hp).1

/-! ### Other roles -/

/-- The plan leaves the items of other roles alone, and no policy without items in force. -/
structure Minds (stored : NameMap Policy) (role : String) (placed : Policy → Prop) (plan : Plan) :
    Prop where
  /-- A working copy has the items of other roles that the stored policy has. -/
  others : ∀ id t p r, plan.tracked.get? id = some t → stored.get? id = some p → r ≠ role →
    t.policy.itemsNaming r = p.itemsNaming r
  /-- A working copy that changes is written if it has items, and deleted otherwise. -/
  fate : ∀ id t, plan.tracked.get? id = some t → t.fate = .unchanged ∨ t = .leftover t.policy
  /-- A planned policy has items, for the role only. -/
  created : ∀ c ∈ plan.creates, c.hasNoItems = false ∧ ∀ r, r ≠ role → c.itemsNaming r = ∅
  /-- A planned policy has the frame of one that was placed. -/
  placed : ∀ c ∈ plan.creates, ∃ q, placed q ∧ c.frame = q.frame

/-- A policy is deleted only when no items are left. -/
theorem Minds.hasNoItems (h : plan.Minds stored role placed) {id : String} {t : Tracked}
    (ht : plan.tracked.get? id = some t) (hdeleted : t.fate = .deleted) :
    t.policy.hasNoItems = true := by
  rcases h.fate id t ht with hunchanged | hleftover
  · exact absurd (hunchanged.symm.trans hdeleted) Fate.noConfusion
  · refine Classical.byContradiction fun hitems => ?_
    rw [hleftover, Tracked.leftover, if_neg hitems] at hdeleted
    exact Fate.noConfusion hdeleted

/-- Placing a provisional policy touches no item of another role. -/
theorem Places.minds (hplaces : Places stored (fun _ => True) role plan q plan')
    (h : plan.Minds stored role placed) (hq : q.IsProvisional role) (hplaced : placed q) :
    plan'.Minds stored role placed := by
  cases hplaces with
  | tracked id t t' _ ht htarget hmerged hfate hsame hget hcreates =>
    refine ⟨fun x u p r hx hp hr => ?_, fun x u hx => ?_, hcreates ▸ h.created,
      hcreates ▸ h.placed⟩
    · rw [hget] at hx
      split at hx
      · next heq =>
        obtain rfl := Option.some.inj hx
        exact (hmerged.others r hr).trans (h.others id t p r ht (heq ▸ hp) hr)
      · exact h.others x u p r hx hp hr
    · rw [hget] at hx
      split at hx
      · obtain rfl := Option.some.inj hx
        cases hf : t'.fate with
        | unchanged => exact .inl rfl
        | updated =>
          refine .inr ?_
          rw [Tracked.leftover, hmerged.carries.hasNoItems hq, ← hf]
          rfl
        | deleted => exact absurd hf hfate
      · exact h.fate x u hx
  | planned index c c' hc htarget hmerged hget hcreates =>
    have hmem : c ∈ plan.creates := List.mem_of_getElem? hc
    have hcases : ∀ d ∈ plan'.creates, d ∈ plan.creates ∨ d = c' := by
      intro d hd
      rw [hcreates] at hd
      exact List.mem_or_eq_of_mem_set hd
    refine ⟨fun x u p r hx => h.others x u p r (hget x ▸ hx), fun x u hx => h.fate x u (hget x ▸ hx),
      fun d hd => ?_, fun d hd => ?_⟩
    · rcases hcases d hd with hd | rfl
      · exact h.created d hd
      · exact ⟨hmerged.carries.hasNoItems hq,
          fun r hr => (hmerged.others r hr).trans ((h.created c hmem).2 r hr)⟩
    · rcases hcases d hd with hd | rfl
      · exact h.placed d hd
      · obtain ⟨q', hq', hframe⟩ := h.placed c hmem
        exact ⟨q', hq', hmerged.frame.trans hframe⟩
  | created hstored hplanned hget hcreates =>
    have hcases : ∀ d ∈ plan'.creates, d ∈ plan.creates ∨ d = q := by
      intro d hd
      rw [hcreates] at hd
      exact (List.mem_append.1 hd).imp_right List.mem_singleton.1
    refine ⟨fun x u p r hx => h.others x u p r (hget x ▸ hx), fun x u hx => h.fate x u (hget x ▸ hx),
      fun d hd => ?_, fun d hd => ?_⟩
    · rcases hcases d hd with hd | rfl
      · exact h.created d hd
      · exact ⟨hq.hasNoItems, fun r hr => hq.itemsNaming_other hr⟩
    · rcases hcases d hd with hd | rfl
      · exact h.placed d hd
      · exact ⟨d, hplaced, rfl⟩

/-- Stripping a role touches no item of another one. -/
theorem Strips.minds {dropped : List String} {policies : List Policy}
    (hstrips : Strips role dropped plan policies plan') (h : plan.Minds stored role placed)
    (hs : Policy.WellStored stored)
    (hpolicies : ∀ p ∈ policies, ∃ id, stored.get? id = some p) :
    plan'.Minds stored role placed := by
  refine ⟨fun x t p r ht hp hr => ?_, fun x t ht => ?_, hstrips.creates ▸ h.created,
    hstrips.creates ▸ h.placed⟩
  · rcases hstrips.cases hs hpolicies ht with ht | ⟨p', -, hp', rfl⟩
    · exact h.others x t p r ht hp hr
    · obtain rfl : p = p' := Option.some.inj (hp.symm.trans hp')
      exact Policy.itemsNaming_stripped_other (hs.tidy x p hp) hr dropped
  · rcases hstrips.cases hs hpolicies ht with ht | ⟨p', -, -, rfl⟩
    · exact h.fate x t ht
    · exact .inr rfl

/-- Plans mind other roles. -/
theorem Built.minds (h : Built stored role placed stripped shed plan) (hs : Policy.WellStored stored)
    (hplaced : ∀ q, placed q → q.IsPlaceable role) : plan.Minds stored role placed := by
  induction h with
  | empty =>
    exact ⟨fun _ t _ _ ht => absurd ht.symm (Option.some_ne_none t),
      fun _ t ht => absurd ht.symm (Option.some_ne_none t), fun _ hc => absurd hc List.not_mem_nil,
      fun _ hc => absurd hc List.not_mem_nil⟩
  | @load plan p id _ hp ih =>
    have hcreates : (plan.load p).creates = plan.creates := (load_get? plan (hs.id id p hp)).2
    refine ⟨fun x t p' r ht hp' hr => ?_, fun x t ht => ?_, hcreates ▸ ih.created,
      hcreates ▸ ih.placed⟩
    · rcases load_cases hs hp ht with ht | ⟨hx, rfl⟩
      · exact ih.others x t p' r ht hp' hr
      · obtain rfl : p = p' := Option.some.inj (hx.symm.trans hp')
        rfl
    · rcases load_cases hs hp ht with ht | ⟨-, rfl⟩
      · exact ih.fate x t ht
      · exact .inl rfl
  | place _ hq hplaces ih => exact hplaces.minds ih (hplaced _ hq).provisional hq
  | strip _ hpolicies _ hstrips ih => exact hstrips.minds ih hs fun p hp => (hpolicies p hp).1

/-! ### What changes -/

/-- A tracked policy is as it was read, or has the target of a policy that was placed, or is what is
left of a policy that was stripped. -/
theorem Built.outcome (h : Built stored role placed stripped shed plan) (hs : Policy.WellStored stored)
    (hplaced : ∀ q, placed q → q.IsPlaceable role) {id : String} {t : Tracked} {p : Policy}
    (ht : plan.tracked.get? id = some t) (hp : stored.get? id = some p) :
    t = ⟨.unchanged, p⟩ ∨ (∃ q, placed q ∧ p.target = q.target) ∨
      stripped p ∧ ∃ dropped, t = .leftover (p.stripped role dropped) := by
  induction h generalizing id t p with
  | empty => exact absurd ht.symm (Option.some_ne_none t)
  | load _ hp₀ ih =>
    rcases load_cases hs hp₀ ht with ht | ⟨hx, rfl⟩
    · exact ih ht hp
    · obtain rfl := Option.some.inj (hp.symm.trans hx)
      exact .inl rfl
  | @place plan plan' q hbuilt hq hplaces ih =>
    cases hplaces with
    | tracked x t₀ t' _ ht₀ htarget hmerged hfate hsame hget hcreates =>
      rw [hget] at ht
      split at ht
      · next heq =>
        have hframe := (hbuilt.tracks hs hplaced).frame x t₀ p ht₀ (heq ▸ hp)
        exact .inr (.inl ⟨q, hq, (Policy.target_eq_of_frame hframe).symm.trans htarget⟩)
      · exact ih ht hp
    | planned index c c' hc htarget hmerged hget hcreates => exact ih (hget id ▸ ht) hp
    | created hstored hplanned hget hcreates => exact ih (hget id ▸ ht) hp
  | strip _ hpolicies _ hstrips ih =>
    rcases hstrips.cases hs (fun p hp => (hpolicies p hp).1) ht with ht | ⟨p', hmem, hp', rfl⟩
    · exact ih ht hp
    · obtain rfl : p = p' := Option.some.inj (hp.symm.trans hp')
      exact .inr (.inr ⟨(hpolicies p hmem).2, _, rfl⟩)

/-- What is left of a policy is tracked only if the policy was stripped, where nothing with its target was
placed. -/
theorem Built.stripped_of_leftover (h : Built stored role placed stripped shed plan)
    (hs : Policy.WellStored stored) (hplaced : ∀ q, placed q → q.IsPlaceable role) {id : String}
    {p : Policy} {dropped : List String}
    (ht : plan.tracked.get? id = some (.leftover (p.stripped role dropped)))
    (hp : stored.get? id = some p) (hfree : ∀ q, placed q → q.target ≠ p.target) : stripped p := by
  rcases h.outcome hs hplaced ht hp with hsame | ⟨q, hq, htarget⟩ | ⟨hstripped, -⟩
  · exact absurd (congrArg Tracked.fate hsame) (Tracked.leftover_fate _)
  · exact absurd htarget.symm (hfree q hq)
  · exact hstripped

/-- What is planned has the target of a policy that was placed. -/
theorem Minds.target (h : plan.Minds stored role placed) {c : Policy} (hc : c ∈ plan.creates) :
    ∃ q, placed q ∧ c.target = q.target := by
  obtain ⟨q, hq, hframe⟩ := h.placed c hc
  exact ⟨q, hq, Policy.target_eq_of_frame hframe⟩

/-- Where policies with the target of a placed one are not stripped, and placed policies with the same
target ask for the same, the lists stay as they were in which a placed policy has no item. -/
theorem Built.spares (h : Built stored role placed stripped shed plan) (hs : Policy.WellStored stored)
    (hplaced : ∀ q, placed q → q.IsPlaceable role)
    (halike : ∀ q q', placed q → placed q' → q.target = q'.target → Policy.Alike q q')
    (hstripped : ∀ p q, stripped p → placed q → p.target ≠ q.target) {q : Policy} (hq : placed q) :
    (∀ id t p, plan.tracked.get? id = some t → stored.get? id = some p → p.target = q.target →
      t.policy.SparesRest p q) ∧
    ∀ c ∈ plan.creates, c.target = q.target → c.SparesRest q q := by
  induction h with
  | empty =>
    exact ⟨fun _ t _ ht => absurd ht.symm (Option.some_ne_none t),
      fun _ hc => absurd hc List.not_mem_nil⟩
  | @load plan p₀ id₀ _ hp₀ ih =>
    have hcreates : (plan.load p₀).creates = plan.creates := (load_get? plan (hs.id id₀ p₀ hp₀)).2
    refine ⟨fun id t p ht hp htarget => ?_, hcreates ▸ ih.2⟩
    rcases load_cases hs hp₀ ht with ht | ⟨hx, rfl⟩
    · exact ih.1 id t p ht hp htarget
    · obtain rfl := Option.some.inj (hp.symm.trans hx)
      exact .refl p q
  | @place plan plan' q₀ hbuilt hq₀ hplaces ih =>
    cases hplaces with
    | tracked x t₀ t' _ ht₀ htarget₀ hmerged hfate hsame hget hcreates =>
      refine ⟨fun id t p ht hp htarget => ?_, hcreates ▸ ih.2⟩
      rw [hget] at ht
      split at ht
      · next heq =>
        subst heq
        obtain rfl := Option.some.inj ht
        have hframe := (hbuilt.tracks hs hplaced).frame id t₀ p ht₀ hp
        have hsame₀ : q₀.target = q.target :=
          htarget₀.symm.trans ((Policy.target_eq_of_frame hframe).trans htarget)
        exact (hmerged.rest.of_alike (halike q₀ q hq₀ hq hsame₀)).trans (ih.1 id t₀ p ht₀ hp htarget)
      · exact ih.1 id t p ht hp htarget
    | planned index c c' hc htarget₀ hmerged hget hcreates =>
      refine ⟨fun id t p ht => ih.1 id t p (hget id ▸ ht), fun d hd htarget => ?_⟩
      rw [hcreates] at hd
      rcases List.mem_or_eq_of_mem_set hd with hd | rfl
      · exact ih.2 d hd htarget
      · have hsame₀ : q₀.target = q.target := hmerged.carries.target.symm.trans htarget
        have hbefore := ih.2 c (List.mem_of_getElem? hc) (htarget₀.trans hsame₀)
        exact (hmerged.rest.of_alike (halike q₀ q hq₀ hq hsame₀)).trans hbefore
    | created hstored hplanned hget hcreates =>
      refine ⟨fun id t p ht => ih.1 id t p (hget id ▸ ht), fun d hd htarget => ?_⟩
      rw [hcreates] at hd
      rcases List.mem_append.1 hd with hd | hd
      · exact ih.2 d hd htarget
      · obtain rfl := List.mem_singleton.1 hd
        have hsame := halike d q hq₀ hq htarget
        exact ⟨fun _ => hsame.allow, fun _ => hsame.deny, fun _ => hsame.mask⟩
  | @strip plan plan' policies dropped _ hpolicies _ hstrips ih =>
    refine ⟨fun id t p ht hp htarget => ?_, hstrips.creates ▸ ih.2⟩
    rcases hstrips.cases hs (fun p hp => (hpolicies p hp).1) ht with ht | ⟨p', hmem, hp', rfl⟩
    · exact ih.1 id t p ht hp htarget
    · obtain rfl : p = p' := Option.some.inj (hp.symm.trans hp')
      exact absurd htarget (hstripped p q (hpolicies p hmem).2 hq)

/-! ### Step by step -/

/-- What holds between a stored policy and itself and what stripping leaves of it, and goes on holding when
a placed policy is merged into the working copy, holds between every stored policy and its working
copy. -/
theorem Built.tracked_induction (h : Built stored role placed stripped shed plan)
    (hs : Policy.WellStored stored) (hplaced : ∀ q, placed q → q.IsPlaceable role)
    {R : Policy → Policy → Prop} (hload : ∀ id p, stored.get? id = some p → R p p)
    (hplace : ∀ id p m m' q, stored.get? id = some p → R p m → placed q → p.target = q.target →
      m.Merged q role m' → R p m')
    (hstrip : ∀ id p dropped, stored.get? id = some p → stripped p → (∀ l ∈ dropped, shed l) →
      R p (p.stripped role dropped)) {id : String} {t : Tracked} {p : Policy}
    (ht : plan.tracked.get? id = some t) (hp : stored.get? id = some p) : R p t.policy := by
  induction h generalizing id t p with
  | empty => exact absurd ht.symm (Option.some_ne_none t)
  | load _ hp₀ ih =>
    rcases load_cases hs hp₀ ht with ht | ⟨hx, rfl⟩
    · exact ih ht hp
    · obtain rfl := Option.some.inj (hp.symm.trans hx)
      exact hload id p hp
  | @place plan plan' q hbuilt hq hplaces ih =>
    cases hplaces with
    | tracked x t₀ t' _ ht₀ htarget hmerged hfate hsame hget hcreates =>
      rw [hget] at ht
      split at ht
      · next heq =>
        subst heq
        obtain rfl := Option.some.inj ht
        have hframe := (hbuilt.tracks hs hplaced).frame id t₀ p ht₀ hp
        exact hplace id p t₀.policy t'.policy q hp (ih ht₀ hp) hq
          ((Policy.target_eq_of_frame hframe).symm.trans htarget) hmerged
      · exact ih ht hp
    | planned index c c' hc htarget hmerged hget hcreates => exact ih (hget id ▸ ht) hp
    | created hstored hplanned hget hcreates => exact ih (hget id ▸ ht) hp
  | strip _ hpolicies hdropped hstrips ih =>
    rcases hstrips.cases hs (fun p hp => (hpolicies p hp).1) ht with ht | ⟨p', hmem, hp', rfl⟩
    · exact ih ht hp
    · obtain rfl : p = p' := Option.some.inj (hp.symm.trans hp')
      exact hstrip id p _ hp (hpolicies p hmem).2 hdropped

/-- What holds of every placed policy, and goes on holding when another one is merged into it, holds of
every planned policy. -/
theorem Built.created_induction (h : Built stored role placed stripped shed plan)
    {R : Policy → Prop} (hplace : ∀ q, placed q → R q)
    (hmerge : ∀ c c' q, R c → placed q → c.target = q.target → c.Merged q role c' → R c') :
    ∀ c ∈ plan.creates, R c := by
  induction h with
  | empty => exact fun _ hc => absurd hc List.not_mem_nil
  | @load plan p id _ hp ih =>
    have hcreates : (plan.load p).creates = plan.creates := by
      unfold Plan.load
      split
      · rfl
      · split <;> rfl
    exact hcreates ▸ ih
  | place _ hq hplaces ih =>
    cases hplaces with
    | tracked x t₀ t' _ ht₀ htarget hmerged hfate hsame hget hcreates => exact hcreates ▸ ih
    | planned index c c' hc htarget hmerged hget hcreates =>
      intro d hd
      rw [hcreates] at hd
      rcases List.mem_or_eq_of_mem_set hd with hd | rfl
      · exact ih d hd
      · exact hmerge c d _ (ih c (List.mem_of_getElem? hc)) hq htarget hmerged
    | created hstored hplanned hget hcreates =>
      intro d hd
      rw [hcreates] at hd
      rcases List.mem_append.1 hd with hd | hd
      · exact ih d hd
      · exact List.mem_singleton.1 hd ▸ hplace _ hq
  | strip _ _ _ hstrips ih => exact hstrips.creates ▸ ih

/-! ### Labels -/

/-- The labels of a policy stay, apart from those that may be shed. The label of personas in general stays
if the label of a persona does. -/
def Retains (shed : String → Prop) (p p' : Policy) : Prop :=
  ∀ l ∈ p.labels, ¬ shed l → (l = Label.personaType →
    ∃ l' ∈ p.labels, Text.startsWith l' Label.personaStem = true ∧ ¬ shed l') → l ∈ p'.labels

/-- A working copy has the labels of the stored policy that may not be shed. -/
theorem Built.retains (h : Built stored role placed stripped shed plan)
    (hs : Policy.WellStored stored) (hplaced : ∀ q, placed q → q.IsPlaceable role) {id : String}
    {t : Tracked} {p : Policy} (ht : plan.tracked.get? id = some t) (hp : stored.get? id = some p) :
    Retains shed p t.policy := by
  refine h.tracked_induction hs hplaced (R := Retains shed) (fun _ _ _ _ hl _ _ => hl)
    (fun _ _ _ _ _ _ hm _ _ hmerged l hl hkept htype => ?_)
    (fun _ p dropped _ _ hdropped l hl hkept htype => ?_) ht hp
  · exact (hmerged.labels_iff l).2 (.inl (hm l hl hkept htype))
  · refine Policy.mem_strippedLabels_iff.2 ⟨hl, fun hmem => hkept (hdropped l hmem), fun heq => ?_⟩
    obtain ⟨l', hl', hstart, hkept'⟩ := htype heq
    exact ⟨l', hl', hstart, fun hmem => hkept' (hdropped l' hmem)⟩

/-- A working copy has a label only if the stored policy has it or a placed policy with the same target
brings it. -/
theorem Built.gains (h : Built stored role placed stripped shed plan)
    (hs : Policy.WellStored stored) (hplaced : ∀ q, placed q → q.IsPlaceable role) {id : String}
    {t : Tracked} {p : Policy} (ht : plan.tracked.get? id = some t) (hp : stored.get? id = some p) :
    ∀ l ∈ t.policy.labels, l ∈ p.labels ∨ ∃ q, placed q ∧ p.target = q.target ∧ l ∈ q.labels := by
  refine h.tracked_induction hs hplaced (R := fun p m => ∀ l ∈ m.labels,
      l ∈ p.labels ∨ ∃ q, placed q ∧ p.target = q.target ∧ l ∈ q.labels) (fun _ _ _ _ hl => .inl hl)
    (fun _ _ _ _ q _ hm hq htarget hmerged l hl => ?_) (fun _ p dropped _ _ _ l hl => ?_) ht hp
  · rcases (hmerged.labels_iff l).1 hl with hl | hl
    · exact hm l hl
    · exact .inr ⟨q, hq, htarget, hl⟩
  · exact .inl ((Policy.strippedLabels_sublist p.labels dropped).subset hl)

/-- The labels of a planned policy come from placed policies with its target. -/
theorem Built.created_gains (h : Built stored role placed stripped shed plan) :
    ∀ c ∈ plan.creates, ∀ l ∈ c.labels, ∃ q, placed q ∧ c.target = q.target ∧ l ∈ q.labels := by
  refine h.created_induction (R := fun c => ∀ l ∈ c.labels,
    ∃ q, placed q ∧ c.target = q.target ∧ l ∈ q.labels) (fun q hq l hl => ⟨q, hq, rfl, hl⟩)
    fun c c' q hc hq htarget hmerged l hl => ?_
  have hsame := Policy.target_eq_of_frame hmerged.frame
  rcases (hmerged.labels_iff l).1 hl with hl | hl
  · obtain ⟨q', hq', htarget', hl'⟩ := hc l hl
    exact ⟨q', hq', hsame.trans htarget', hl'⟩
  · exact ⟨q, hq, hsame.trans htarget, hl⟩

end Plan

end CatalogAccess
