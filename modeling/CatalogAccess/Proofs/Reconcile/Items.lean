import CatalogAccess.Reconcile.Merge
import CatalogAccess.Reconcile.Strip

/-!
# Items that name one role each

The policies that persona management writes have items that name a single role and nobody else, and
within a list no role is named twice (`TidyList`). In such a list the item of a role is found, added,
changed and taken out without touching the items of other roles (`SameApartFrom`): `mergeItem_spec`
and `mergeMaskItem_spec` say that merging leaves exactly one item for the role, as wanted, and
`strip_tidy` that stripping is dropping the item of the role.

The lists of grants and denials hold items, and the list of masks holds items with a mask, so
everything is said of lists of any kind with a function that gives the item. Merging into either is the
same function of such lists (`mergeInto?`).
-/

namespace CatalogAccess.Policy

/-! ### Tidy lists -/

/-- The item names one role, and neither users nor groups. -/
structure Item.NamesOneRole (i : Item) : Prop where
  /-- No users are named. -/
  users : i.users = []
  /-- No groups are named. -/
  groups : i.groups = []
  /-- One role is named. -/
  roles : ∃ r, i.roles = [r]

namespace Item.NamesOneRole

variable {i : Item}

theorem hasRole_iff (h : i.NamesOneRole) {role : String} :
    i.hasRole role = true ↔ i.roles = [role] := by
  obtain ⟨r, hr⟩ := h.roles
  rw [hasRole, hr, List.contains_iff_mem, List.mem_singleton, List.cons.injEq, eq_comm]
  simp

theorem not_isShared (h : i.NamesOneRole) : i.isShared = false := by
  simp [isShared, h.users, h.groups]

theorem hasSubjects (h : i.NamesOneRole) : i.hasSubjects = true := by
  obtain ⟨r, hr⟩ := h.roles
  simp [Item.hasSubjects, hr]

/-- Without its role an item names nobody. -/
theorem withoutRole_hasSubjects (h : i.NamesOneRole) {role : String} (hi : i.hasRole role = true) :
    (i.withoutRole role).hasSubjects = false := by
  have hr := h.hasRole_iff.1 hi
  simp [Item.hasSubjects, withoutRole, h.users, h.groups, hr]

end Item.NamesOneRole

theorem Item.namesOneRole_forRole (accesses : NameSet) (role : String) :
    (Item.forRole accesses role).NamesOneRole :=
  ⟨rfl, rfl, role, rfl⟩

theorem Item.forRole_hasRole (accesses : NameSet) (role : String) :
    (Item.forRole accesses role).hasRole role = true := by
  simp [forRole, hasRole]

/-- An item for one role names no other. -/
theorem Item.not_hasRole {i : Item} {role r : String} (hroles : i.roles = [role]) (hr : r ≠ role) :
    i.hasRole r = false := by
  rw [hasRole, hroles, ← Bool.not_eq_true, List.contains_iff_mem, List.mem_singleton]
  exact hr

/-- An item as it stands in the lists of grants and denials. -/
abbrev Item.itself (i : Item) : Item := i

variable {α : Type} {item : α → Item}

/-- An element that alone passes a test is what a filter leaves. -/
theorem filter_eq_singleton {p : α → Bool} {as bs : List α} {c : α}
    (has : ∀ x ∈ as, p x = false) (hc : p c = true) (hbs : ∀ x ∈ bs, p x = false) :
    (as ++ c :: bs).filter p = [c] := by
  have hnone : ∀ l : List α, (∀ x ∈ l, p x = false) → l.filter p = [] := by
    intro l hl
    exact List.filter_eq_nil_iff.2 fun x hx => by simp [hl x hx]
  rw [List.filter_append, List.filter_cons_of_pos hc, hnone as has, hnone bs hbs]
  rfl

/-- Every item names one role, and no role is named twice. -/
structure TidyList (item : α → Item) (l : List α) : Prop where
  /-- Every item names one role. -/
  each : ∀ x ∈ l, (item x).NamesOneRole
  /-- The roles differ. -/
  distinct : l.Pairwise fun x y => (item x).roles ≠ (item y).roles

/-- Exactly one item of a list names the role, and it is as wanted. -/
def NamedOnce (item : α → Item) (l : List α) (role : String) (wanted : α → Prop) : Prop :=
  ∃ x, l.filter (fun y => (item y).hasRole role) = [x] ∧ wanted x

/-- The item that alone names the role is the one that is found for it. -/
theorem NamedOnce.find? {l : List α} {role : String} {wanted : α → Prop}
    (h : NamedOnce item l role wanted) :
    ∃ x, l.find? (fun y => (item y).hasRole role) = some x ∧ wanted x := by
  obtain ⟨x, hx, hwanted⟩ := h
  refine ⟨x, ?_, hwanted⟩
  rw [← List.head?_filter, hx]
  rfl

/-- For all roles but one the items of two lists are the same. -/
def SameApartFrom (item : α → Item) (role : String) (l k : List α) : Prop :=
  ∀ r, r ≠ role → (k.filter fun x => (item x).hasRole r) = l.filter fun x => (item x).hasRole r

theorem SameApartFrom.refl (item : α → Item) (role : String) (l : List α) :
    SameApartFrom item role l l :=
  fun _ _ => rfl

namespace TidyList

variable {l : List α} {role : String}

theorem nil : TidyList item [] := ⟨by simp, .nil⟩

/-- A part of a tidy list is tidy. -/
theorem sublist {k : List α} (h : TidyList item l) (hk : k.Sublist l) : TidyList item k :=
  ⟨fun x hx => h.each x (hk.subset hx), h.distinct.sublist hk⟩

theorem singleton {x : α} (h : (item x).NamesOneRole) : TidyList item [x] :=
  ⟨by simpa using h, List.pairwise_singleton _ _⟩

/-- The item of a role stands alone: the items around it name other roles. -/
theorem split (h : TidyList item l) {c : α}
    (hc : l.find? (fun x => (item x).hasRole role) = some c) :
    ∃ as bs, l = as ++ c :: bs ∧ (item c).roles = [role] ∧
      (∀ x ∈ as, (item x).hasRole role = false) ∧ ∀ x ∈ bs, (item x).hasRole role = false := by
  obtain ⟨hrole, as, bs, rfl, has⟩ := List.find?_eq_some_iff_append.1 hc
  have hmem : ∀ x ∈ c :: bs, x ∈ as ++ c :: bs := fun x hx => List.mem_append_right as hx
  have hroles := (h.each c (hmem c List.mem_cons_self)).hasRole_iff.1 hrole
  refine ⟨as, bs, rfl, hroles, fun x hx => by simpa using has x hx, fun x hx => ?_⟩
  have hne : (item c).roles ≠ (item x).roles :=
    (List.pairwise_cons.1 (List.pairwise_append.1 h.distinct).2.1).1 x hx
  rw [← Bool.not_eq_true, (h.each x (hmem x (List.mem_cons_of_mem c hx))).hasRole_iff]
  intro hx
  exact hne (hroles.trans hx.symm)

/-- Where an item of a role is found, it is the only one. -/
theorem namedOnce (h : TidyList item l) {c : α}
    (hc : l.find? (fun x => (item x).hasRole role) = some c) :
    l.filter (fun x => (item x).hasRole role) = [c] := by
  obtain ⟨as, bs, rfl, hroles, has, hbs⟩ := h.split hc
  have hrole : (item c).hasRole role = true := by rw [Item.hasRole, hroles]; simp
  exact filter_eq_singleton has hrole hbs

/-- An item of a role that is as wanted is the only one of the role. -/
theorem namedOnce_iff (h : TidyList item l) {wanted : α → Prop} :
    NamedOnce item l role wanted ↔ ∃ x ∈ l, (item x).hasRole role = true ∧ wanted x := by
  constructor
  · intro honce
    obtain ⟨x, hx, hwanted⟩ := honce.find?
    have hrole := List.find?_some hx
    exact ⟨x, List.mem_of_find?_eq_some hx, hrole, hwanted⟩
  · rintro ⟨x, hx, hrole, hwanted⟩
    have hfound : (l.find? fun y => (item y).hasRole role).isSome = true :=
      List.find?_isSome.2 ⟨x, hx, hrole⟩
    obtain ⟨c, hc⟩ := Option.isSome_iff_exists.1 hfound
    have hone := h.namedOnce hc
    have hmem : x ∈ l.filter fun y => (item y).hasRole role := List.mem_filter.2 ⟨hx, hrole⟩
    rw [hone] at hmem
    obtain rfl := List.mem_singleton.1 hmem
    exact ⟨x, hone, hwanted⟩

/-- An item for a role that has none is added at the end. -/
theorem append (h : TidyList item l) {w : α} (hw : (item w).NamesOneRole)
    (hrole : (item w).hasRole role = true)
    (hnone : l.find? (fun x => (item x).hasRole role) = none) :
    TidyList item (l ++ [w]) ∧ (l ++ [w]).filter (fun x => (item x).hasRole role) = [w] ∧
      SameApartFrom item role l (l ++ [w]) := by
  have hother : ∀ x ∈ l, (item x).hasRole role = false := by
    intro x hx
    simpa using List.find?_eq_none.1 hnone x hx
  refine ⟨?_, filter_eq_singleton hother hrole (by simp), fun r hr => ?_⟩
  · constructor
    · intro x hx
      rcases List.mem_append.1 hx with hx | hx
      · exact h.each x hx
      · exact List.mem_singleton.1 hx ▸ hw
    · refine List.pairwise_append.2 ⟨h.distinct, List.pairwise_singleton _ _, ?_⟩
      intro x hx y hy hsame
      obtain rfl := List.mem_singleton.1 hy
      -- An item with the same role would have been found.
      have hyes := (h.each x hx).hasRole_iff.2 (hsame.trans (hw.hasRole_iff.1 hrole))
      rw [hother x hx] at hyes
      exact Bool.false_ne_true hyes
  · have hno := Item.not_hasRole (hw.hasRole_iff.1 hrole) hr
    rw [List.filter_append, List.filter_cons, hno]
    exact List.append_nil _

end TidyList

/-- The first element that passes is replaced, and those around it stay. -/
theorem replaceFirst_append {p : α → Bool} {f : α → α} {as bs : List α} {c : α}
    (has : ∀ x ∈ as, p x = false) (hc : p c = true) :
    replaceFirst p f (as ++ c :: bs) = as ++ f c :: bs := by
  induction as with
  | nil => rw [List.nil_append, replaceFirst, if_pos hc]; rfl
  | cons a as ih =>
    have ha : ¬ p a = true := by simp [has a List.mem_cons_self]
    rw [List.cons_append, replaceFirst, if_neg ha, ih fun x hx => has x (List.mem_cons_of_mem a hx)]
    rfl

/-- The item of a role is changed in its place, as long as it goes on naming the role alone. -/
theorem TidyList.replaceFirst {l : List α} {role : String} (h : TidyList item l) {c : α}
    (hc : l.find? (fun x => (item x).hasRole role) = some c) {f : α → α}
    (hf : (item (f c)).NamesOneRole) (hroles : (item (f c)).roles = (item c).roles) :
    TidyList item (replaceFirst (fun x => (item x).hasRole role) f l) ∧
      (CatalogAccess.replaceFirst (fun x => (item x).hasRole role) f l).filter
        (fun x => (item x).hasRole role) = [f c] ∧
      SameApartFrom item role l
        (CatalogAccess.replaceFirst (fun x => (item x).hasRole role) f l) := by
  obtain ⟨as, bs, rfl, hrole, has, hbs⟩ := h.split hc
  have hyes : (item c).hasRole role = true := by rw [Item.hasRole, hrole]; simp
  have hyes' : (item (f c)).hasRole role = true := by rw [Item.hasRole, hroles, hrole]; simp
  rw [replaceFirst_append has hyes]
  refine ⟨?_, filter_eq_singleton has hyes' hbs, fun r hr => ?_⟩
  · constructor
    · intro x hx
      rcases List.mem_append.1 hx with hx | hx
      · exact h.each x (List.mem_append_left _ hx)
      · rcases List.mem_cons.1 hx with rfl | hx
        · exact hf
        · exact h.each x (List.mem_append_right _ (List.mem_cons_of_mem c hx))
    · -- The roles of the list are the same as before, place by place.
      obtain ⟨has', hcbs, hcross⟩ := List.pairwise_append.1 h.distinct
      obtain ⟨hcb, hbs'⟩ := List.pairwise_cons.1 hcbs
      refine List.pairwise_append.2 ⟨has', List.pairwise_cons.2 ⟨fun y hy => ?_, hbs'⟩, ?_⟩
      · rw [hroles]
        exact hcb y hy
      · intro x hx y hy
        rcases List.mem_cons.1 hy with rfl | hy
        · rw [hroles]
          exact hcross x hx c List.mem_cons_self
        · exact hcross x hx y (List.mem_cons_of_mem c hy)
  · have hno := Item.not_hasRole hrole hr
    have hno' := Item.not_hasRole (hroles.trans hrole) hr
    rw [List.filter_append, List.filter_append, List.filter_cons, List.filter_cons, hno, hno']
    rfl

/-! ### Merging -/

/-- Merging into a list of any kind. The first element whose item names the role stays if it fits, loses
the role to a new element if its item is shared, and is overwritten otherwise. -/
def mergeInto? (item : α → Item) (fits : α → Bool) (drop overwrite : α → α) (l : List α) (w : α)
    (role : String) : Option (List α) :=
  match l.find? fun x => (item x).hasRole role with
  | none => some (l ++ [w])
  | some c =>
    if fits c then none
    else if (item c).isShared then
      some (CatalogAccess.replaceFirst (fun x => (item x).hasRole role) drop l ++ [w])
    else some (CatalogAccess.replaceFirst (fun x => (item x).hasRole role) overwrite l)

theorem mergeItem?_eq (l : List Item) (w : Item) (role : String) :
    mergeItem? l w role = mergeInto? Item.itself (fun i => i.accesses = w.accesses)
      (·.withoutRole role) (fun i => { i with accesses := w.accesses }) l w role := by
  unfold mergeItem? mergeInto?
  cases l.find? fun i => i.hasRole role with
  | none => rfl
  | some c => simp only [decide_eq_true_eq]

theorem mergeMaskItem?_eq (l : List MaskItem) (w : MaskItem) (role : String) :
    mergeMaskItem? l w role = mergeInto? MaskItem.item
      (fun m => m.item.accesses = w.item.accesses ∧ m.maskType = w.maskType) (·.withoutRole role)
      (fun m => ⟨{ m.item with accesses := w.item.accesses }, w.maskType⟩) l w role := by
  unfold mergeMaskItem? mergeInto?
  cases l.find? fun m => m.item.hasRole role with
  | none => rfl
  | some c => simp only [decide_eq_true_eq]

/-- Merging into a tidy list leaves exactly one item for the role, which fits, and the items of other
roles as they were. What is added has to fit, and so does what is overwritten, which goes on naming the
same subjects. -/
theorem TidyList.mergeInto {l : List α} {role : String} (h : TidyList item l) {w : α}
    (fits : α → Bool) (drop overwrite : α → α) (hw : (item w).NamesOneRole)
    (hrole : (item w).hasRole role = true) (hfits : fits w = true)
    (hfits' : ∀ x, fits (overwrite x) = true)
    (hover : ∀ x, ∃ accesses, item (overwrite x) = { item x with accesses := accesses }) :
    let k := (mergeInto? item fits drop overwrite l w role).getD l
    TidyList item k ∧ NamedOnce item k role (fun x => fits x = true) ∧ SameApartFrom item role l k := by
  unfold mergeInto?
  cases hc : l.find? fun x => (item x).hasRole role with
  | none =>
    obtain ⟨htidy, honce, hothers⟩ := h.append hw hrole hc
    exact ⟨htidy, ⟨w, honce, hfits⟩, hothers⟩
  | some c =>
    have hone : (item c).NamesOneRole := h.each c (List.mem_of_find?_eq_some hc)
    simp only [hone.not_isShared]
    split
    · next hsame => exact ⟨h, ⟨c, h.namedOnce hc, hsame⟩, .refl item role l⟩
    · obtain ⟨accesses, hitem⟩ := hover c
      have hone' : (item (overwrite c)).NamesOneRole :=
        hitem ▸ ⟨hone.users, hone.groups, hone.roles⟩
      obtain ⟨htidy, honce, hothers⟩ := h.replaceFirst hc hone' (by rw [hitem])
      exact ⟨htidy, ⟨overwrite c, honce, hfits' c⟩, hothers⟩

/-- Merging an item for a role leaves exactly one item for it, with the accesses wanted, and the items
of other roles as they were. -/
theorem mergeItem_spec {l : List Item} (h : TidyList Item.itself l) (accesses : NameSet)
    (role : String) :
    TidyList Item.itself ((mergeItem? l (.forRole accesses role) role).getD l) ∧
      NamedOnce Item.itself ((mergeItem? l (.forRole accesses role) role).getD l) role
        (fun i => i.accesses = accesses) ∧
      SameApartFrom Item.itself role l ((mergeItem? l (.forRole accesses role) role).getD l) := by
  have hmerged := h.mergeInto (w := .forRole accesses role) (fun i => i.accesses = accesses)
    (·.withoutRole role) (fun i => { i with accesses := accesses })
    (Item.namesOneRole_forRole accesses role) (Item.forRole_hasRole accesses role)
    (decide_eq_true rfl) (fun i => decide_eq_true rfl) fun i => ⟨accesses, rfl⟩
  simp only [decide_eq_true_eq] at hmerged
  rw [mergeItem?_eq]
  exact hmerged

/-- Merging a mask for a role leaves exactly one for it, with the accesses and the mask wanted, and the
masks of other roles as they were. -/
theorem mergeMaskItem_spec {l : List MaskItem} (h : TidyList MaskItem.item l) (accesses : NameSet)
    (role maskType : String) :
    TidyList MaskItem.item
        ((mergeMaskItem? l ⟨.forRole accesses role, maskType⟩ role).getD l) ∧
      NamedOnce MaskItem.item ((mergeMaskItem? l ⟨.forRole accesses role, maskType⟩ role).getD l) role
        (fun m => m.item.accesses = accesses ∧ m.maskType = maskType) ∧
      SameApartFrom MaskItem.item role l
        ((mergeMaskItem? l ⟨.forRole accesses role, maskType⟩ role).getD l) := by
  have hmerged := h.mergeInto (w := ⟨.forRole accesses role, maskType⟩)
    (fun m => m.item.accesses = accesses ∧ m.maskType = maskType) (·.withoutRole role)
    (fun m => ⟨{ m.item with accesses := accesses }, maskType⟩)
    (Item.namesOneRole_forRole accesses role) (Item.forRole_hasRole accesses role)
    (decide_eq_true ⟨rfl, rfl⟩) (fun m => decide_eq_true ⟨rfl, rfl⟩) fun m => ⟨accesses, rfl⟩
  simp only [decide_eq_true_eq] at hmerged
  rw [mergeMaskItem?_eq]
  exact hmerged

/-! ### Stripping -/

/-- What stripping a role leaves of a list: the role is taken out where it is named, and what names nobody
then goes. -/
def stripWith (item : α → Item) (drop : α → α) (role : String) (l : List α) : List α :=
  (l.map fun x => if (item x).hasRole role then drop x else x).filter fun x => (item x).hasSubjects

/-- Stripping a role from a tidy list drops the item of the role. -/
theorem strip_tidy {l : List α} (h : TidyList item l) {role : String} {drop : α → α}
    (hdrop : ∀ x, item (drop x) = (item x).withoutRole role) :
    stripWith item drop role l = l.filter fun x => !(item x).hasRole role := by
  unfold stripWith
  induction l with
  | nil => rfl
  | cons x xs ih =>
    have hx := h.each x List.mem_cons_self
    have hxs := ih (h.sublist (List.sublist_cons_self x xs))
    rw [List.map_cons]
    by_cases hrole : (item x).hasRole role = true
    · -- The item loses its only subject, and goes.
      have hempty : ¬ (item (drop x)).hasSubjects = true := by
        rw [hdrop, hx.withoutRole_hasSubjects hrole]
        exact Bool.false_ne_true
      have hgone : ¬ (!(item x).hasRole role) = true := by simp [hrole]
      rw [if_pos hrole, List.filter_cons, if_neg hempty, List.filter_cons, if_neg hgone, hxs]
    · -- Any other item keeps its role, and stays.
      have hstays : (!(item x).hasRole role) = true := by simpa using hrole
      rw [if_neg hrole, List.filter_cons, if_pos hx.hasSubjects, List.filter_cons, if_pos hstays,
        hxs]

/-- Dropping the item of a role leaves none for it. -/
theorem filter_drop_self (item : α → Item) (l : List α) (role : String) :
    (l.filter fun x => !(item x).hasRole role).filter (fun x => (item x).hasRole role) = [] := by
  rw [List.filter_filter, List.filter_eq_nil_iff]
  intro x _
  cases (item x).hasRole role <;> exact Bool.false_ne_true

/-- Dropping the item of a role from a tidy list leaves those of other roles as they were. -/
theorem TidyList.drop_sameApartFrom {l : List α} (h : TidyList item l) (role : String) :
    SameApartFrom item role l (l.filter fun x => !(item x).hasRole role) := by
  intro r hr
  rw [List.filter_filter]
  refine List.filter_congr fun x hx => ?_
  by_cases hrole : (item x).hasRole role = true
  · have hno := Item.not_hasRole ((h.each x hx).hasRole_iff.1 hrole) hr
    rw [hno, Bool.false_and]
  · rw [Bool.not_eq_true] at hrole
    rw [hrole, Bool.not_false, Bool.and_true]

/-- Stripping a role from a list of items drops the item of the role. -/
theorem stripItems_tidy {l : List Item} (h : TidyList Item.itself l) (role : String) :
    stripItems l role = l.filter fun i => !i.hasRole role :=
  strip_tidy h fun _ => rfl

end CatalogAccess.Policy
