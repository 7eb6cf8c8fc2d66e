import CatalogAccess.Proofs.Persona.Replanning
import Mathlib.Data.List.Nodup

/-!
# Just what is asked for

`Authority.GrantsExactly` compares what the policies of a persona policy say about the role of the persona
with what is asked for: each provisional policy has one labelled policy, which names the role in one item
and in no other list. Merging takes care of the list of the provisional policy and of no other
(`Policy.SparesRest`), so that an item for the role in another list stays. When the provisional policies
are enforced, what is granted is just what is asked for if and only if there is no such item
(`Authority.Enforces.grantsExactly_iff`), and an update neither adds one nor takes one away as long as it
does not strip the policy (`Plan.Built.confinedTo_iff`).
-/

namespace CatalogAccess

/-! ### What a policy says about a role -/

namespace Policy

variable {m p q : Policy} {role : String}

/-- What a policy says about a role. -/
structure Outline where
  /-- The target. -/
  target : Kind × Service × List UInt8
  /-- The accesses granted, item by item. -/
  allow : List NameSet
  /-- The accesses denied, item by item. -/
  deny : List NameSet
  /-- The masked accesses with their masks, item by item. -/
  mask : List (NameSet × String)
deriving DecidableEq

/-- What the policy says about a role. -/
def outline (role : String) (p : Policy) : Outline where
  target := p.target
  allow := (p.itemsNaming role).allow.map Item.accesses
  deny := (p.itemsNaming role).deny.map Item.accesses
  mask := (p.itemsNaming role).mask.map fun m => (m.item.accesses, m.maskType)

/-- The policy names the role in no list in which a provisional policy has no item. -/
structure ConfinedTo (p q : Policy) (role : String) : Prop where
  /-- No item grants where none is asked for. -/
  allow : q.allowItems = [] → (p.itemsNaming role).allow = []
  /-- No item denies where none is asked for. -/
  deny : q.denyItems = [] → (p.itemsNaming role).deny = []
  /-- No item masks where none is asked for. -/
  mask : q.maskItems = [] → (p.itemsNaming role).mask = []

theorem ConfinedTo.self (q : Policy) (role : String) : q.ConfinedTo q role := by
  constructor
  · intro h
    simp [itemsNaming, h]
  · intro h
    simp [itemsNaming, h]
  · intro h
    simp [itemsNaming, h]

/-- A policy without an item for the role is confined to any provisional policy. -/
theorem ConfinedTo.of_unnamed (h : p.itemsNaming role = ∅) : p.ConfinedTo q role :=
  ⟨fun _ => congrArg RoleItems.allow h, fun _ => congrArg RoleItems.deny h,
    fun _ => congrArg RoleItems.mask h⟩

/-- A policy that says the same about the role as a provisional policy is confined to it. -/
theorem ConfinedTo.of_outline_eq (h : p.outline role = q.outline role) : p.ConfinedTo q role := by
  have hself := ConfinedTo.self q role
  constructor
  · intro hq
    have hsame := congrArg Outline.allow h
    rw [outline, outline, hself.allow hq] at hsame
    exact List.map_eq_nil_iff.1 hsame
  · intro hq
    have hsame := congrArg Outline.deny h
    rw [outline, outline, hself.deny hq] at hsame
    exact List.map_eq_nil_iff.1 hsame
  · intro hq
    have hsame := congrArg Outline.mask h
    rw [outline, outline, hself.mask hq] at hsame
    exact List.map_eq_nil_iff.1 hsame

/-- Policies with the same lists apart from those of a provisional policy are both confined to it, or
neither is. -/
theorem SparesRest.confinedTo_iff (h : m.SparesRest p q) :
    m.ConfinedTo q role ↔ p.ConfinedTo q role := by
  have hhands : ∀ {m p : Policy}, m.SparesRest p q → p.ConfinedTo q role → m.ConfinedTo q role := by
    intro m p h hp
    constructor
    · intro hq
      rw [itemsNaming, h.allow hq]
      exact hp.allow hq
    · intro hq
      rw [itemsNaming, h.deny hq]
      exact hp.deny hq
    · intro hq
      rw [itemsNaming, h.mask hq]
      exact hp.mask hq
  exact ⟨hhands h.symm, hhands h⟩

/-- Policies are confined to provisional policies that are alike, or to none of them. -/
theorem Alike.confinedTo_iff {q' : Policy} (h : Alike q q') :
    p.ConfinedTo q role ↔ p.ConfinedTo q' role := by
  constructor
  · intro hp
    exact ⟨fun hq => hp.allow (h.allow.trans hq), fun hq => hp.deny (h.deny.trans hq),
      fun hq => hp.mask (h.mask.trans hq)⟩
  · intro hp
    exact ⟨fun hq => hp.allow (h.allow.symm.trans hq), fun hq => hp.deny (h.deny.symm.trans hq),
      fun hq => hp.mask (h.mask.symm.trans hq)⟩

/-- The items for a role say in one list what they say in another, which has at most one item and one for
the role, if that item has its only counterpart there and nothing is added to an empty list. -/
theorem map_filter_eq_iff {α β : Type} (item : α → Item) (f : α → β) {l k : List α}
    (hk : k = [] ∨ ∃ w, k = [w] ∧ (item w).hasRole role = true)
    (h : ∀ w ∈ k, NamedOnce item l role fun x => f x = f w) :
    (l.filter fun x => (item x).hasRole role).map f = (k.filter fun x => (item x).hasRole role).map f ↔
      (k = [] → (l.filter fun x => (item x).hasRole role) = []) := by
  rcases hk with rfl | ⟨w, rfl, hrole⟩
  · simp
  · obtain ⟨x, hx, hsame⟩ := h w (List.mem_singleton_self w)
    have hw : ([w].filter fun x => (item x).hasRole role) = [w] := List.filter_cons_of_pos hrole
    refine ⟨fun _ hnil => absurd hnil (List.cons_ne_nil w []), fun _ => ?_⟩
    rw [hx, hw]
    exact congrArg (fun b => [b]) hsame

/-- A list of a provisional policy is empty, or has one item, for the role. -/
theorem IsProvisional.lists (h : q.IsProvisional role) :
    (q.allowItems = [] ∨ ∃ i, q.allowItems = [i] ∧ i.hasRole role = true) ∧
    (q.denyItems = [] ∨ ∃ i, q.denyItems = [i] ∧ i.hasRole role = true) ∧
    (q.maskItems = [] ∨ ∃ m, q.maskItems = [m] ∧ m.item.hasRole role = true) := by
  have hrole := fun accesses => Item.forRole_hasRole accesses role
  cases h with
  | allow accesses hk ha hd hm => exact ⟨.inr ⟨_, ha, hrole accesses⟩, .inl hd, .inl hm⟩
  | deny accesses hk ha hd hm => exact ⟨.inl ha, .inr ⟨_, hd, hrole accesses⟩, .inl hm⟩
  | mask accesses maskType hk ha hd hm => exact ⟨.inl ha, .inl hd, .inr ⟨_, hm, hrole accesses⟩⟩

/-- Provisional policies of one kind, both of which allow or both of which do not, have their item in the
same list. -/
theorem ConfinedTo.of_same_list {q' : Policy} {role' : String} (hq : q.IsProvisional role')
    (hq' : q'.IsProvisional role') (hkind : q.kind = q'.kind) {allow : Bool}
    (heffect : if allow then q.denyItems = [] else q.allowItems = [])
    (heffect' : if allow then q'.denyItems = [] else q'.allowItems = []) (h : p.ConfinedTo q role) :
    p.ConfinedTo q' role := by
  have hlists : (q'.allowItems = [] → q.allowItems = []) ∧ (q'.denyItems = [] → q.denyItems = []) ∧
      (q'.maskItems = [] → q.maskItems = []) := by
    cases hq <;> cases hq' <;> cases allow <;> simp_all
  exact ⟨fun hnone => h.allow (hlists.1 hnone), fun hnone => h.deny (hlists.2.1 hnone),
    fun hnone => h.mask (hlists.2.2 hnone)⟩

/-- A policy that carries a provisional policy says the same about the role, unless it names the role in
another list. -/
theorem Carries.outline_eq_iff (h : p.Carries q role) (hq : q.IsProvisional role) :
    p.outline role = q.outline role ↔ p.ConfinedTo q role := by
  obtain ⟨hallow, hdeny, hmask⟩ := hq.lists
  have ha := map_filter_eq_iff Item.itself Item.accesses hallow h.allow
  have hd := map_filter_eq_iff Item.itself Item.accesses hdeny h.deny
  have hm := map_filter_eq_iff MaskItem.item (fun m => (m.item.accesses, m.maskType)) hmask
    fun w hw => by
      obtain ⟨x, hx, haccesses, htype⟩ := h.mask w hw
      exact ⟨x, hx, Prod.ext haccesses htype⟩
  rw [outline, outline, Outline.mk.injEq]
  constructor
  · rintro ⟨-, hallow', hdeny', hmask'⟩
    exact ⟨ha.1 hallow', hd.1 hdeny', hm.1 hmask'⟩
  · intro hconfined
    exact ⟨h.target, ha.2 hconfined.allow, hd.2 hconfined.deny, hm.2 hconfined.mask⟩

end Policy

/-! ### Just what is asked for -/

/-- The labelled policies and the provisional policies correspond to each other, one by one: a labelled
policy has the target of its provisional policy, and names the role in one item only, in the list and
with the accesses and the mask of the item of the provisional policy. -/
def Authority.GrantsExactly (a : Authority) (label role : String) (qs : List Policy) : Prop :=
  ((a.withLabel label).map (Policy.outline role)).Perm (qs.map (Policy.outline role))

instance (a : Authority) (label role : String) (qs : List Policy) :
    Decidable (a.GrantsExactly label role qs) :=
  inferInstanceAs (Decidable (List.Perm _ _))

namespace Authority

variable {a : Authority} {label role : String} {qs : List Policy}

/-- Labelled policies have different targets if all of them are wanted and no two stored policies have a
wanted target. -/
theorem targets_nodup (hwanted : ∀ p ∈ a.withLabel label, p.IsWanted qs)
    (hunique : ∀ q ∈ qs, ∀ id id' p p', a.policies.get? id = some p → a.policies.get? id' = some p' →
      p.target = q.target → p'.target = q.target → id = id') :
    ((a.withLabel label).map Policy.target).Nodup := by
  refine List.pairwise_map.2 (List.pairwise_filter.2 (List.pairwise_map.2
    (a.policies.increasing.imp_of_mem ?_)))
  intro e f he hf hlt hlabelled hlabelled' hsame
  have hstored : a.policies.get? e.1 = some e.2 := NameMap.get?_eq_some_iff.2 he
  have hstored' : a.policies.get? f.1 = some f.2 := NameMap.get?_eq_some_iff.2 hf
  have hmem : e.2 ∈ a.withLabel label :=
    List.mem_filter.2 ⟨NameMap.mem_values_iff.2 ⟨e.1, hstored⟩, hlabelled⟩
  obtain ⟨q, hq, htarget⟩ := hwanted e.2 hmem
  have hid := hunique q hq e.1 f.1 e.2 f.2 hstored hstored' htarget (hsame.symm.trans htarget)
  exact String.lt_irrefl f.1 (hid ▸ hlt)

/-- When the provisional policies are enforced and nothing else has the label, what is granted is just
what is asked for if every labelled policy is confined to the provisional policy with its target. -/
theorem Enforces.grantsExactly_iff (h : a.Enforces label role qs)
    (hqs : ∀ q ∈ qs, q.IsProvisional role) (hwanted : ∀ p ∈ a.withLabel label, p.IsWanted qs)
    (hapart : qs.Pairwise fun q q' => q.target ≠ q'.target) :
    a.GrantsExactly label role qs ↔
      ∀ q ∈ qs, ∀ p ∈ a.policies.values, p.target = q.target → p.ConfinedTo q role := by
  have hnodup : (qs.map Policy.target).Nodup := List.pairwise_map.2 hapart
  -- What has the target of a provisional policy carries it.
  have hcarries : ∀ q ∈ qs, ∀ p ∈ a.policies.values, p.target = q.target →
      p ∈ a.withLabel label ∧ p.Carries q role := by
    intro q hq p hp htarget
    obtain ⟨id, hget⟩ := NameMap.mem_values_iff.1 hp
    obtain ⟨p', hp', hcarries⟩ := h.carried q hq
    obtain ⟨⟨id', hget'⟩, -⟩ := mem_withLabel.1 hp'
    obtain rfl := h.unique q hq id id' p p' hget hget' htarget hcarries.target
    obtain rfl := Option.some.inj (hget.symm.trans hget')
    exact ⟨hp', hcarries⟩
  have houtline : ∀ q ∈ qs, ∀ p ∈ a.policies.values, p.target = q.target →
      (p.outline role = q.outline role ↔ p.ConfinedTo q role) :=
    fun q hq p hp htarget => (hcarries q hq p hp htarget).2.outline_eq_iff (hqs q hq)
  constructor
  · intro hperm q hq p hp htarget
    have hmem : p.outline role ∈ qs.map (Policy.outline role) :=
      hperm.subset (List.mem_map_of_mem (hcarries q hq p hp htarget).1)
    obtain ⟨q', hq', hsame⟩ := List.mem_map.1 hmem
    have htarget' : q'.target = p.target := congrArg Policy.Outline.target hsame
    obtain rfl := List.inj_on_of_nodup_map hnodup hq' hq (htarget'.trans htarget)
    exact (houtline q' hq p hp htarget).1 hsame.symm
  · intro hconfined
    have hlabelled : ∀ p ∈ a.withLabel label, p ∈ a.policies.values :=
      fun p hp => (List.mem_filter.1 hp).1
    -- An outline tells the target, so that no outline occurs twice.
    have hdistinct : ∀ ps : List Policy, (ps.map Policy.target).Nodup →
        (ps.map (Policy.outline role)).Nodup := by
      intro ps hps
      refine List.Nodup.of_map Policy.Outline.target ?_
      rw [List.map_map]
      exact hps
    refine (List.perm_ext_iff_of_nodup (hdistinct _ (targets_nodup hwanted h.unique))
      (hdistinct _ hnodup)).2 fun x => ?_
    rw [List.mem_map, List.mem_map]
    constructor
    · rintro ⟨p, hp, rfl⟩
      obtain ⟨q, hq, htarget⟩ := hwanted p hp
      exact ⟨q, hq, ((houtline q hq p (hlabelled p hp) htarget).2
        (hconfined q hq p (hlabelled p hp) htarget)).symm⟩
    · rintro ⟨q, hq, rfl⟩
      obtain ⟨p, hp, hcarries⟩ := h.carried q hq
      exact ⟨p, hp, (houtline q hq p (hlabelled p hp) hcarries.target).2
        (hconfined q hq p (hlabelled p hp) hcarries.target)⟩

end Authority

/-- A policy with the target of a placed policy is confined to it after the plan is carried out just when
what was stored with the target was so before. -/
theorem Plan.Built.confinedTo_iff {plan : Plan} {a a' : Authority} {role : String}
    {placed stripped : Policy → Prop} {shed : String → Prop}
    (h : plan.Built a.policies role placed stripped shed)
    (ha : a.WellKept) (hfurnished : ∀ id p, a.policies.get? id = some p → p.IsFurnished)
    (hplaced : ∀ q, placed q → q.IsPlaceable role)
    (halike : ∀ q q', placed q → placed q' → q.target = q'.target → Policy.Alike q q')
    (hstripped : ∀ p q, stripped p → placed q → p.target ≠ q.target)
    (hrealized : plan.Realized a a') {q : Policy} (hq : placed q)
    (hshort : (ResourceMap.canonicalBytes q.resources).length < 2 ^ 60)
    (hunique : ∀ id id' p p', a.policies.get? id = some p → a.policies.get? id' = some p' →
      p.target = q.target → p'.target = q.target → id = id') {p' : Policy}
    (hp' : p' ∈ a'.policies.values) (htarget : p'.target = q.target) :
    p'.ConfinedTo q role ↔
      ∀ p ∈ a.policies.values, p.target = q.target → p.ConfinedTo q role := by
  obtain ⟨hspares, hspares'⟩ := h.spares ha.toWellStored hplaced halike hstripped hq
  have htracks := h.tracks ha.toWellStored hplaced
  -- What was stored under the same identifier is all that was stored with the target.
  have hone : ∀ {id : String} {p : Policy}, a.policies.get? id = some p → p.target = q.target →
      (p.ConfinedTo q role ↔
        ∀ p ∈ a.policies.values, p.target = q.target → p.ConfinedTo q role) := by
    intro id p hp hptarget
    refine ⟨fun hconfined p₀ hp₀ htarget₀ => ?_,
      fun hall => hall p (NameMap.mem_values_iff.2 ⟨id, hp⟩) hptarget⟩
    obtain ⟨id₀, hget₀⟩ := NameMap.mem_values_iff.1 hp₀
    obtain rfl := hunique id id₀ p p₀ hp hget₀ hptarget htarget₀
    obtain rfl := Option.some.inj (hp.symm.trans hget₀)
    exact hconfined
  obtain ⟨id, hget⟩ := NameMap.mem_values_iff.1 hp'
  rcases hrealized.cases hget with ⟨t, ht, hsettled⟩ | ⟨-, hbefore⟩ | ⟨c, hc, rfl⟩
  · obtain ⟨p, hp, hsame, -⟩ := htracks.origin id t ht
    obtain rfl := Tracked.policy_of_settled hsettled
    have hptarget := hsame.symm.trans htarget
    rw [(hspares id t p ht hp hptarget).confinedTo_iff]
    exact hone hp hptarget
  · exact hone hbefore htarget
  · -- What is created has no rival among the stored policies.
    have hconfined := (hspares' c hc htarget).confinedTo_iff.2 (Policy.ConfinedTo.self q role)
    refine ⟨fun _ p hp hptarget => ?_, fun _ => ⟨hconfined.allow, hconfined.deny, hconfined.mask⟩⟩
    obtain ⟨id₀, hp⟩ := NameMap.mem_values_iff.1 hp
    have hnew := htracks.creates c hc
    have hbytes := Policy.canonicalBytes_eq_of_target hptarget
    exact absurd ((ha.synthetic id₀ p hp).rivals hnew.synthetic (hptarget.trans htarget.symm)
      (by rw [hbytes]; exact hshort) (hfurnished id₀ p hp).values) (hnew.apart id₀ p hp)

end CatalogAccess
