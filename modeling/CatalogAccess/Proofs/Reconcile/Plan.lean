import CatalogAccess.Proofs.Reconcile.Policies
import CatalogAccess.Reconcile.Plan

/-!
# What the steps of a plan do

A plan is a working copy of stored policies (`Plan.Tracks`). Its steps are few: a policy is loaded,
a provisional policy is merged into a tracked or planned one or planned itself (`Plan.Places`), or
a tracked policy is replaced by what stripping leaves of it (`Plan.strips_apply`). Each step is
described once, by what it does to the look-ups of the plan, and whatever plans are proved to keep
is derived from these descriptions.
-/

namespace CatalogAccess

/-- Stored policies as persona management leaves them: each knows its identifier, is tidy and
synthetic, and has no rival. -/
structure Policy.WellStored (stored : NameMap Policy) : Prop where
  /-- A policy is stored under its own identifier. -/
  id : ∀ id p, stored.get? id = some p → p.id = some id
  /-- A stored policy is tidy. -/
  tidy : ∀ id p, stored.get? id = some p → p.Tidy
  /-- A stored policy is synthetic. -/
  synthetic : ∀ id p, stored.get? id = some p → p.IsSynthetic
  /-- No two stored policies are rivals. -/
  apart : ∀ id id' p p', stored.get? id = some p → stored.get? id' = some p' → p.Rivals p' → id = id'

/-- No two stored policies have the target of a synthetic policy, if every dimension of the policy has
values and the bytes of them all fit into memory. -/
theorem Policy.WellStored.unique {stored : NameMap Policy} (hs : Policy.WellStored stored)
    {q : Policy} (hq : q.IsSynthetic)
    (hshort : (ResourceMap.canonicalBytes q.resources).length < 2 ^ 60)
    (hvalues : ∀ e ∈ q.resources.toList, e.2 ≠ []) {id id' : String} {p p' : Policy}
    (hp : stored.get? id = some p) (hp' : stored.get? id' = some p')
    (htarget : p.target = q.target) (htarget' : p'.target = q.target) : id = id' := by
  have hsynthetic := hs.synthetic id p hp
  have hbytes := Policy.canonicalBytes_eq_of_target htarget
  have hshort' : (ResourceMap.canonicalBytes p.resources).length < 2 ^ 60 := by
    rw [hbytes]
    exact hshort
  have hvalues' :=
    ResourceMap.values_of_canonicalBytes_eq hsynthetic.plain hq.plain hshort' hbytes hvalues
  exact hs.apart id id' p p' hp hp' (hsynthetic.rivals (hs.synthetic id' p' hp')
    (htarget.trans htarget'.symm) hshort' hvalues')

/-- A policy that may be created besides stored policies. -/
structure Policy.IsNew (stored : NameMap Policy) (c : Policy) : Prop where
  /-- It has no identifier yet. -/
  id : c.id = none
  /-- It is tidy. -/
  tidy : c.Tidy
  /-- It is synthetic. -/
  synthetic : c.IsSynthetic
  /-- No stored policy is its rival. -/
  apart : ∀ id p, stored.get? id = some p → ¬ p.Rivals c

/-- A new policy whose items and labels change is new. -/
theorem Policy.IsNew.of_frame {stored : NameMap Policy} {c c' : Policy} (hc : c.IsNew stored)
    (hid : c'.id = c.id) (htidy : c'.Tidy) (h : c'.frame = c.frame) : c'.IsNew stored := by
  refine ⟨hid.trans hc.id, htidy, hc.synthetic.of_frame h, fun id p hp hrivals => ?_⟩
  exact hc.apart id p hp (hrivals.symm.of_frame h).symm

namespace Plan

variable {plan plan' : Plan} {stored : NameMap Policy} {role : String}

/-- The plan is a working copy of stored policies. -/
structure Tracks (plan : Plan) (stored : NameMap Policy) : Prop where
  /-- A policy is tracked under its own identifier. -/
  id : ∀ id t, plan.tracked.get? id = some t → t.policy.id = some id
  /-- A working copy is tidy. -/
  tidy : ∀ id t, plan.tracked.get? id = some t → t.policy.Tidy
  /-- A working copy has the target of the stored policy, and is that policy unless it is written. -/
  origin : ∀ id t, plan.tracked.get? id = some t → ∃ p, stored.get? id = some p ∧
    t.policy.target = p.target ∧ (t.fate = .unchanged → t.policy = p)
  /-- A working copy has the frame of the stored policy. -/
  frame : ∀ id t p, plan.tracked.get? id = some t → stored.get? id = some p →
    t.policy.frame = p.frame
  /-- A planned policy is new. -/
  creates : ∀ c ∈ plan.creates, c.IsNew stored
  /-- No two planned policies are rivals. -/
  apart : plan.creates.Pairwise fun c d => ¬ c.Rivals d

/-- The plan keeps versions of stored policies under their identifiers. -/
structure Mirrors (plan : Plan) (stored : NameMap Policy) : Prop where
  /-- A policy is tracked under its own identifier. -/
  id : ∀ id t, plan.tracked.get? id = some t → t.policy.id = some id
  /-- What is tracked is stored, and is the stored policy unless it is written. -/
  origin : ∀ id t, plan.tracked.get? id = some t → ∃ p, stored.get? id = some p ∧
    (t.fate = .unchanged → t.policy = p)

/-- A working copy keeps versions of stored policies. -/
theorem Tracks.mirrors (h : plan.Tracks stored) : plan.Mirrors stored := by
  refine ⟨h.id, fun id t ht => ?_⟩
  obtain ⟨p, hp, -, hsame⟩ := h.origin id t ht
  exact ⟨p, hp, hsame⟩

theorem tracks_empty (stored : NameMap Policy) : Tracks {} stored := by
  have hnone : ∀ id t, ¬ (NameMap.get? (∅ : NameMap Tracked) id = some t) := by
    intro id t h
    exact Option.some_ne_none t h.symm
  exact ⟨fun id t h => absurd h (hnone id t), fun id t h => absurd h (hnone id t),
    fun id t h => absurd h (hnone id t), fun id t _ h => absurd h (hnone id t),
    fun c hc => absurd hc List.not_mem_nil, .nil⟩

/-- Replacing one look-up keeps a working copy when the new one fits. -/
theorem Tracks.update (h : plan.Tracks stored) {id : String} {t : Tracked} {p : Policy}
    (hget : ∀ x, plan'.tracked.get? x = if x = id then some t else plan.tracked.get? x)
    (hcreates : plan'.creates = plan.creates) (hid : t.policy.id = some id) (htidy : t.policy.Tidy)
    (hp : stored.get? id = some p) (hframe : t.policy.frame = p.frame)
    (hsame : t.fate = .unchanged → t.policy = p) : plan'.Tracks stored := by
  have hcases : ∀ x u, plan'.tracked.get? x = some u →
      x = id ∧ u = t ∨ plan.tracked.get? x = some u := by
    intro x u hx
    rw [hget] at hx
    split at hx
    · next heq => exact .inl ⟨heq, (Option.some.inj hx).symm⟩
    · exact .inr hx
  constructor
  · intro x u hx
    rcases hcases x u hx with ⟨rfl, rfl⟩ | hx
    · exact hid
    · exact h.id x u hx
  · intro x u hx
    rcases hcases x u hx with ⟨rfl, rfl⟩ | hx
    · exact htidy
    · exact h.tidy x u hx
  · intro x u hx
    rcases hcases x u hx with ⟨rfl, rfl⟩ | hx
    · exact ⟨p, hp, Policy.target_eq_of_frame hframe, hsame⟩
    · exact h.origin x u hx
  · intro x u p' hx hp'
    rcases hcases x u hx with ⟨rfl, rfl⟩ | hx
    · obtain rfl : p = p' := Option.some.inj (hp.symm.trans hp')
      exact hframe
    · exact h.frame x u p' hx hp'
  · rw [hcreates]
    exact h.creates
  · rw [hcreates]
    exact h.apart

/-! ### Loading -/

/-- Loading a policy adds it as it was read, unless it is there already. -/
theorem load_get? (plan : Plan) {p : Policy} {id : String} (hid : p.id = some id) :
    (∀ x, (plan.load p).tracked.get? x =
      if x = id then some ((plan.tracked.get? id).getD ⟨.unchanged, p⟩)
      else plan.tracked.get? x) ∧ (plan.load p).creates = plan.creates := by
  unfold load
  rw [hid]
  dsimp only
  cases ht : plan.tracked.get? id with
  | some t =>
    have hin : plan.tracked.contains id = true := by rw [NameMap.contains, ht]; rfl
    rw [if_pos hin]
    refine ⟨fun x => ?_, rfl⟩
    split
    · next heq => rw [heq, ht]; rfl
    · rfl
  | none =>
    have hout : ¬ plan.tracked.contains id = true := by rw [NameMap.contains, ht]; simp
    rw [if_neg hout]
    exact ⟨fun x => NameMap.get?_insert, rfl⟩

/-- Loading stored policies keeps a working copy. -/
theorem Tracks.load (h : plan.Tracks stored) (hs : Policy.WellStored stored) {p : Policy}
    {id : String} (hp : stored.get? id = some p) : (plan.load p).Tracks stored := by
  obtain ⟨hget, hcreates⟩ := load_get? plan (hs.id id p hp)
  cases ht : plan.tracked.get? id with
  | none =>
    rw [ht] at hget
    exact h.update hget hcreates (hs.id id p hp) (hs.tidy id p hp) hp rfl fun _ => rfl
  | some t =>
    rw [ht] at hget
    obtain ⟨p', hp', -, hsame⟩ := h.origin id t ht
    exact h.update hget hcreates (h.id id t ht) (h.tidy id t ht) hp' (h.frame id t p' ht hp') hsame

/-! ### Writing and deleting -/

theorem put_of_id {p : Policy} {id : String} (hid : p.id = some id) :
    plan.put p = { plan with tracked := plan.tracked.insert id ⟨.updated, p⟩ } := by
  unfold put
  rw [hid]

theorem delete_of_id {p : Policy} {id : String} (hid : p.id = some id) :
    plan.delete p = { plan with tracked := plan.tracked.insert id ⟨.deleted, p⟩ } := by
  unfold delete
  rw [hid]

/-! ### Placing a provisional policy -/

/-- What placing a provisional policy does to a plan. Identifiers outside the given ones are left
alone. -/
inductive Places (stored : NameMap Policy) (allowed : String → Prop) (role : String) (plan : Plan)
    (q : Policy) (plan' : Plan) : Prop
  /-- It is merged into a tracked policy with its target, which is not deleted then. -/
  | tracked (id : String) (t t' : Tracked) (hallowed : allowed id)
      (ht : plan.tracked.get? id = some t) (htarget : t.policy.target = q.target)
      (hmerged : t.policy.Merged q role t'.policy) (hfate : t'.fate ≠ .deleted)
      (hsame : t'.fate = .unchanged → t' = t)
      (hget : ∀ x, plan'.tracked.get? x = if x = id then some t' else plan.tracked.get? x)
      (hcreates : plan'.creates = plan.creates)
  /-- It is merged into a planned policy with its target. -/
  | planned (index : Nat) (c c' : Policy) (hc : plan.creates[index]? = some c)
      (htarget : c.target = q.target) (hmerged : c.Merged q role c')
      (hget : ∀ x, plan'.tracked.get? x = plan.tracked.get? x)
      (hcreates : plan'.creates = plan.creates.set index c')
  /-- It is planned itself, since nothing with its target is found. -/
  | created (hstored : ∀ id p, stored.get? id = some p → ¬ p.Rivals q)
      (hplanned : ∀ c ∈ plan.creates, ¬ c.Rivals q)
      (hget : ∀ x, plan'.tracked.get? x = plan.tracked.get? x)
      (hcreates : plan'.creates = plan.creates ++ [q])

variable {allowed : String → Prop} {q : Policy}

/-- Merging into a tracked policy with the target of a provisional policy places it there. -/
theorem mergeTracked_places (h : plan.Tracks stored) (hq : q.IsProvisional role) {id : String}
    {t : Tracked} (hallowed : allowed id) (ht : plan.tracked.get? id = some t) {existing : Policy}
    (hid : existing.id = some id) (htarget : t.policy.target = q.target) :
    Places stored allowed role plan q (plan.mergeTracked existing q role) := by
  have hmerged := Policy.mergeRoleItem_spec (h.tidy id t ht) hq htarget
  have hcurrent : plan.get? id = some t.policy := by rw [Plan.get?, ht]; rfl
  have hput : ∀ p : Policy, p.id = some id →
      (∀ x, (plan.put p).tracked.get? x =
        if x = id then some ⟨.updated, p⟩ else plan.tracked.get? x) ∧
        (plan.put p).creates = plan.creates := by
    intro p hp
    unfold put
    rw [hp]
    exact ⟨fun x => NameMap.get?_insert, rfl⟩
  unfold mergeTracked
  simp only [hid, Option.getD_some, hcurrent]
  cases hm : t.policy.mergeRoleItem q role with
  | some merged =>
    rw [hm, Option.getD_some] at hmerged
    obtain ⟨hget, hcreates⟩ := hput merged (hmerged.id.trans (h.id id t ht))
    exact .tracked id t ⟨.updated, merged⟩ hallowed ht htarget hmerged
      Fate.noConfusion Fate.noConfusion hget hcreates
  | none =>
    rw [hm, Option.getD_none] at hmerged
    dsimp only
    split
    · -- The policy was to be deleted, and is written back as it is.
      obtain ⟨hget, hcreates⟩ := hput t.policy (h.id id t ht)
      exact .tracked id t ⟨.updated, t.policy⟩ hallowed ht htarget hmerged
        Fate.noConfusion Fate.noConfusion hget hcreates
    · next hkept =>
      have hfate : t.fate ≠ .deleted := by
        intro hdeleted
        rw [isDeleted, ht, Option.any_some, hdeleted] at hkept
        exact hkept rfl
      refine .tracked id t t hallowed ht htarget hmerged hfate (fun _ => rfl) (fun x => ?_) rfl
      split
      · next heq => rw [heq, ht]
      · rfl

/-- Merging into a planned policy with the target of a provisional policy places it there. -/
theorem mergePlanned_places (h : plan.Tracks stored) (hq : q.IsProvisional role) {index : Nat}
    {c : Policy} (hc : plan.creates[index]? = some c) (htarget : c.target = q.target) :
    Places stored allowed role plan q (plan.mergePlanned index q role) := by
  have hmem : c ∈ plan.creates := List.mem_of_getElem? hc
  have hmerged := Policy.mergeRoleItem_spec (h.creates c hmem).tidy hq htarget
  unfold mergePlanned planned?
  rw [hc, Option.bind_some]
  cases hm : c.mergeRoleItem q role with
  | some merged =>
    rw [hm, Option.getD_some] at hmerged
    exact .planned index c merged hc htarget hmerged (fun _ => rfl) rfl
  | none =>
    rw [hm, Option.getD_none] at hmerged
    refine .planned index c c hc htarget hmerged (fun _ => rfl) ?_
    obtain ⟨hlt, rfl⟩ := List.getElem?_eq_some_iff.1 hc
    exact (List.set_getElem_self hlt).symm

/-- A list whose elements are related goes on being so when one is replaced by another with the same
relations. -/
theorem pairwise_set {α : Type} {R : α → α → Prop} {l : List α} (h : l.Pairwise R) {i : Nat}
    {c c' : α} (hc : l[i]? = some c) (hleft : ∀ x, R x c → R x c') (hright : ∀ x, R c x → R c' x) :
    (l.set i c').Pairwise R := by
  obtain ⟨hi, rfl⟩ := List.getElem?_eq_some_iff.1 hc
  rw [List.pairwise_iff_getElem] at h ⊢
  intro j k hj hk hjk
  rw [List.length_set] at hj hk
  have hold := h j k hj hk hjk
  rw [List.getElem_set, List.getElem_set]
  by_cases hij : i = j
  · subst hij
    rw [if_pos rfl, if_neg (Nat.ne_of_lt hjk)]
    exact hright _ hold
  · by_cases hik : i = k
    · subst hik
      rw [if_neg hij, if_pos rfl]
      exact hleft _ hold
    · rw [if_neg hij, if_neg hik]
      exact hold

/-- Placing a provisional policy keeps a working copy. -/
theorem Places.tracks (hplaces : Places stored allowed role plan q plan') (h : plan.Tracks stored)
    (hq : q.IsProvisional role) (hid : q.id = none) (hsynthetic : q.IsSynthetic) :
    plan'.Tracks stored := by
  have hcopy : ∀ {creates : List Policy}, (∀ x, plan'.tracked.get? x = plan.tracked.get? x) →
      plan'.creates = creates → (∀ c ∈ creates, c.IsNew stored) →
      (creates.Pairwise fun c d => ¬ c.Rivals d) → plan'.Tracks stored := by
    intro creates hget hcreates hall hapart
    exact ⟨fun x t hx => h.id x t (hget x ▸ hx), fun x t hx => h.tidy x t (hget x ▸ hx),
      fun x t hx => h.origin x t (hget x ▸ hx), fun x t p hx => h.frame x t p (hget x ▸ hx),
      hcreates ▸ hall, hcreates ▸ hapart⟩
  cases hplaces with
  | tracked id t t' hallowed ht htarget hmerged hfate hsame hget hcreates =>
    obtain ⟨p, hp, -, hunchanged⟩ := h.origin id t ht
    refine h.update hget hcreates (hmerged.id.trans (h.id id t ht)) hmerged.tidy hp
      (hmerged.frame.trans (h.frame id t p ht hp)) fun hkept => ?_
    obtain rfl := hsame hkept
    exact hunchanged hkept
  | planned index c c' hc htarget hmerged hget hcreates =>
    have hnew := h.creates c (List.mem_of_getElem? hc)
    refine hcopy hget hcreates (fun d hd => ?_) (pairwise_set h.apart hc ?_ ?_)
    · rcases List.mem_or_eq_of_mem_set hd with hd | rfl
      · exact h.creates d hd
      · exact hnew.of_frame hmerged.id hmerged.tidy hmerged.frame
    · exact fun x hx hrivals => hx (hrivals.symm.of_frame hmerged.frame).symm
    · exact fun x hx hrivals => hx (hrivals.of_frame hmerged.frame)
  | created hstored hplanned hget hcreates =>
    refine hcopy hget hcreates (fun d hd => ?_) (List.pairwise_append.2
      ⟨h.apart, List.pairwise_singleton _ _, fun c hc d hd => ?_⟩)
    · rcases List.mem_append.1 hd with hd | hd
      · exact h.creates d hd
      · obtain rfl := List.mem_singleton.1 hd
        exact ⟨hid, hq.tidy, hsynthetic, hstored⟩
    · obtain rfl := List.mem_singleton.1 hd
      exact hplanned c hc

/-! ### Holding a provisional policy -/

/-- Some policy of the plan carries the provisional policy and is not deleted. If it is tracked, its
identifier is among the given ones. -/
def Holds (plan : Plan) (allowed : String → Prop) (role : String) (q : Policy) : Prop :=
  (∃ id t, allowed id ∧ plan.tracked.get? id = some t ∧ t.fate ≠ .deleted ∧
    t.policy.Carries q role) ∨ ∃ c ∈ plan.creates, c.Carries q role

/-- A provisional policy is held once it is placed. -/
theorem Places.holds (hplaces : Places stored allowed role plan q plan') (hq : q.IsProvisional role) :
    plan'.Holds allowed role q := by
  cases hplaces with
  | tracked id t t' hallowed ht htarget hmerged hfate hsame hget hcreates =>
    have ht' : plan'.tracked.get? id = some t' := by rw [hget, if_pos rfl]
    exact .inl ⟨id, t', hallowed, ht', hfate, hmerged.carries⟩
  | planned index c c' hc htarget hmerged hget hcreates =>
    obtain ⟨hlt, -⟩ := List.getElem?_eq_some_iff.1 hc
    refine .inr ⟨c', ?_, hmerged.carries⟩
    rw [hcreates]
    exact List.mem_set hlt c'
  | created hstored hplanned hget hcreates =>
    refine .inr ⟨q, ?_, hq.carries_self⟩
    rw [hcreates]
    exact List.mem_append_right _ (List.mem_singleton_self q)

/-- Placing a provisional policy does not undo an earlier placement: a policy that carried another
one with the same target carries both, since they ask for the same. -/
theorem Places.holds_other (hplaces : Places stored allowed role plan q plan') {q₀ : Policy}
    (h : plan.Holds allowed role q₀) (halike : q.target = q₀.target → Policy.Alike q q₀) :
    plan'.Holds allowed role q₀ := by
  cases hplaces with
  | tracked id t t' hallowed ht htarget hmerged hfate hsame hget hcreates =>
    rcases h with ⟨id₀, t₀, hallowed₀, ht₀, hfate₀, hcarries⟩ | ⟨c, hc, hcarries⟩
    · by_cases heq : id₀ = id
      · subst heq
        obtain rfl : t = t₀ := Option.some.inj (ht.symm.trans ht₀)
        -- Both have the target of this policy, so what carries one carries the other.
        have hsame₀ := halike (htarget.symm.trans hcarries.target)
        have ht' : plan'.tracked.get? id₀ = some t' := by rw [hget, if_pos rfl]
        exact .inl ⟨id₀, t', hallowed, ht', hfate, hmerged.carries.of_alike hsame₀⟩
      · have ht₀' : plan'.tracked.get? id₀ = some t₀ := by rw [hget, if_neg heq, ht₀]
        exact .inl ⟨id₀, t₀, hallowed₀, ht₀', hfate₀, hcarries⟩
    · exact .inr ⟨c, hcreates ▸ hc, hcarries⟩
  | planned index c c' hc htarget hmerged hget hcreates =>
    rcases h with ⟨id₀, t₀, hallowed₀, ht₀, hfate₀, hcarries⟩ | ⟨d, hd, hcarries⟩
    · exact .inl ⟨id₀, t₀, hallowed₀, (hget id₀).trans ht₀, hfate₀, hcarries⟩
    · obtain ⟨i, hi⟩ := List.mem_iff_getElem?.1 hd
      obtain ⟨hlt, -⟩ := List.getElem?_eq_some_iff.1 hc
      by_cases heq : index = i
      · subst heq
        obtain rfl : c = d := Option.some.inj (hc.symm.trans hi)
        have hsame₀ := halike (htarget.symm.trans hcarries.target)
        refine .inr ⟨c', ?_, hmerged.carries.of_alike hsame₀⟩
        rw [hcreates]
        exact List.mem_set hlt c'
      · refine .inr ⟨d, ?_, hcarries⟩
        rw [hcreates]
        exact List.mem_of_getElem? ((List.getElem?_set_ne heq).trans hi)
  | created hstored hplanned hget hcreates =>
    rcases h with ⟨id₀, t₀, hallowed₀, ht₀, hfate₀, hcarries⟩ | ⟨d, hd, hcarries⟩
    · exact .inl ⟨id₀, t₀, hallowed₀, (hget id₀).trans ht₀, hfate₀, hcarries⟩
    · refine .inr ⟨d, ?_, hcarries⟩
      rw [hcreates]
      exact List.mem_append_left _ hd

/-! ### Stripping -/

/-- The entry of what is left of a policy: it is written, or deleted when it has no items. -/
def Tracked.leftover (p : Policy) : Tracked := ⟨if p.hasNoItems then .deleted else .updated, p⟩

theorem Tracked.leftover_fate (p : Policy) : (leftover p).fate ≠ .unchanged := by
  unfold leftover
  split <;> exact Fate.noConfusion

/-- What stripping policies does to a plan: each of them is replaced by what is left of it, and
everything else stays. -/
structure Strips (role : String) (dropped : List String) (plan : Plan) (policies : List Policy)
    (plan' : Plan) : Prop where
  /-- A policy that is stripped is replaced. -/
  stripped : ∀ p ∈ policies, ∀ x, p.id = some x → ∃ p' ∈ policies, p'.id = some x ∧
    plan'.tracked.get? x = some (.leftover (p'.stripped role dropped))
  /-- Any other tracked policy stays. -/
  other : ∀ x, (∀ p ∈ policies, p.id ≠ some x) → plan'.tracked.get? x = plan.tracked.get? x
  /-- The planned policies stay. -/
  creates : plan'.creates = plan.creates

/-- Applying what stripping leaves of a policy replaces the policy, loaded or not, when stripping
changes it. -/
theorem strips_apply {p : Policy} {id : String} (hid : p.id = some id) {dropped : List String}
    (hchanged : p.stripRole role dropped ≠ .unchanged)
    (hplan : ∀ x, x ≠ id → plan'.tracked.get? x = plan.tracked.get? x)
    (hcreates : plan'.creates = plan.creates) :
    Strips role dropped plan [p] (plan'.apply (p.stripRole role dropped)) := by
  -- Writing and deleting differ in the fate only.
  have hput : Strips role dropped plan [p] { plan' with
      tracked := plan'.tracked.insert id (.leftover (p.stripped role dropped)) } := by
    refine ⟨fun p' hp' x hx => ?_, fun x hx => ?_, hcreates⟩
    · obtain rfl := List.mem_singleton.1 hp'
      obtain rfl : id = x := Option.some.inj (hid.symm.trans hx)
      refine ⟨p', hp', hx, ?_⟩
      rw [NameMap.get?_insert, if_pos rfl]
    · have hne : x ≠ id := by
        rintro rfl
        exact hx p (List.mem_singleton_self p) hid
      show (plan'.tracked.insert id _).get? x = _
      rw [NameMap.get?_insert, if_neg hne, hplan x hne]
  have hsid : (p.stripped role dropped).id = some id := hid
  unfold Tracked.leftover at hput
  rw [Policy.stripRole_eq] at hchanged ⊢
  split
  · next hitems =>
    simp only [apply, delete, hsid]
    rwa [if_pos hitems] at hput
  · next hitems =>
    rw [if_neg hitems] at hchanged hput
    split
    · simp only [apply, put, hsid]
      exact hput
    · next hsame =>
      rw [if_neg hsame] at hchanged
      exact absurd rfl hchanged

/-- Stripping policies one after the other. -/
theorem strips_foldl {dropped : List String} {step : Plan → Policy → Plan} {policies : List Policy}
    (hstep : ∀ plan, ∀ p ∈ policies, Strips role dropped plan [p] (step plan p)) :
    Strips role dropped plan policies (policies.foldl step plan) := by
  induction policies generalizing plan with
  | nil => exact ⟨fun p hp => absurd hp List.not_mem_nil, fun _ _ => rfl, rfl⟩
  | cons p ps ih =>
    have hfirst := hstep plan p List.mem_cons_self
    have hrest : Strips role dropped (step plan p) ps (ps.foldl step (step plan p)) :=
      ih fun plan q hq => hstep plan q (List.mem_cons_of_mem p hq)
    rw [List.foldl_cons]
    refine ⟨fun q hq x hx => ?_, fun x hx => ?_, hrest.creates.trans hfirst.creates⟩
    · by_cases hlater : ∃ q' ∈ ps, q'.id = some x
      · obtain ⟨q', hq', hx'⟩ := hlater
        obtain ⟨r, hr, hrx, ht⟩ := hrest.stripped q' hq' x hx'
        exact ⟨r, List.mem_cons_of_mem p hr, hrx, ht⟩
      · -- The first policy has this identifier, and no later one replaces it again.
        have hlast : ∀ q' ∈ ps, q'.id ≠ some x := fun q' hq' hx' => hlater ⟨q', hq', hx'⟩
        rcases List.mem_cons.1 hq with rfl | hq
        · obtain ⟨r, hr, hrx, ht⟩ := hfirst.stripped q (List.mem_singleton_self q) x hx
          obtain rfl := List.mem_singleton.1 hr
          exact ⟨r, List.mem_cons_self, hrx, (hrest.other x hlast).trans ht⟩
        · exact absurd hx (hlast q hq)
    · have hp : ∀ q ∈ [p], q.id ≠ some x := by
        intro q hq
        obtain rfl := List.mem_singleton.1 hq
        exact hx q List.mem_cons_self
      rw [hrest.other x fun q hq => hx q (List.mem_cons_of_mem p hq), hfirst.other x hp]

/-- What is tracked after stripping stored policies was tracked before, or is what is left of one of
them. -/
theorem Strips.cases {dropped : List String} {policies : List Policy}
    (hstrips : Strips role dropped plan policies plan') (hs : Policy.WellStored stored)
    (hpolicies : ∀ p ∈ policies, ∃ id, stored.get? id = some p) {x : String} {t : Tracked}
    (ht : plan'.tracked.get? x = some t) : plan.tracked.get? x = some t ∨
      ∃ p ∈ policies, stored.get? x = some p ∧ t = .leftover (p.stripped role dropped) := by
  by_cases hx : ∃ p ∈ policies, p.id = some x
  · obtain ⟨p, hp, hid⟩ := hx
    obtain ⟨p', hp', hid', ht'⟩ := hstrips.stripped p hp x hid
    obtain ⟨id, hstored⟩ := hpolicies p' hp'
    obtain rfl : id = x := Option.some.inj ((hs.id id p' hstored).symm.trans hid')
    exact .inr ⟨p', hp', hstored, Option.some.inj (ht.symm.trans ht')⟩
  · left
    rw [← hstrips.other x fun p hp hid => hx ⟨p, hp, hid⟩]
    exact ht

/-- Stripping stored policies keeps a working copy. -/
theorem Strips.tracks {dropped : List String} {policies : List Policy}
    (hstrips : Strips role dropped plan policies plan') (h : plan.Tracks stored)
    (hs : Policy.WellStored stored)
    (hpolicies : ∀ p ∈ policies, ∃ id, stored.get? id = some p) : plan'.Tracks stored := by
  constructor
  · intro x t ht
    rcases hstrips.cases hs hpolicies ht with ht | ⟨p, -, hp, rfl⟩
    · exact h.id x t ht
    · exact hs.id x p hp
  · intro x t ht
    rcases hstrips.cases hs hpolicies ht with ht | ⟨p, -, hp, rfl⟩
    · exact h.tidy x t ht
    · exact Policy.stripped_tidy (hs.tidy x p hp) role dropped
  · intro x t ht
    rcases hstrips.cases hs hpolicies ht with ht | ⟨p, -, hp, rfl⟩
    · exact h.origin x t ht
    · exact ⟨p, hp, rfl, fun hkept => absurd hkept (Tracked.leftover_fate _)⟩
  · intro x t p hx hp
    rcases hstrips.cases hs hpolicies hx with ht | ⟨p', -, hp', rfl⟩
    · exact h.frame x t p ht hp
    · obtain rfl : p = p' := Option.some.inj (hp.symm.trans hp')
      exact Policy.stripped_frame p role dropped
  · rw [hstrips.creates]
    exact h.creates
  · rw [hstrips.creates]
    exact h.apart

end Plan

end CatalogAccess
