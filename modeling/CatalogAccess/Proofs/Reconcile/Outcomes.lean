import CatalogAccess.Proofs.Reconcile.Items
import Mathlib.Data.Set.Basic

/-!
# What merging does to any list

The lists of policies that persona management did not write have items that name users, groups and
several roles together, and may name a role in several items. Merging an item for a role into such a
list has one of four outcomes (`Policy.Merging`), told by the first entry that names the role.

What a list grants to somebody (`Policy.granted`) is followed through each outcome. Others than the role
keep what they are granted (`Policy.Merging.granted_kept`), but for those who are named in an item that
is overwritten (`Policy.Merging.granted_overwritten`). The entries that name the role afterwards are
those of `Policy.mergeNamed`, where only the first of those before is looked at.
-/

namespace CatalogAccess.Policy

/-! ### Whom items name -/

/-- Somebody whom an item can name. -/
inductive Grantee where
  /-- A user. -/
  | user (name : String)
  /-- A group of users. -/
  | group (name : String)
  /-- A role. -/
  | role (name : String)
deriving DecidableEq

namespace Item

/-- Whether the item names a grantee. -/
def names (i : Item) : Grantee → Bool
  | .user name => i.users.contains name
  | .group name => i.groups.contains name
  | .role name => i.hasRole name

/-- The item names one role, and nobody else. -/
def NamesOnly (i : Item) (role : String) : Prop :=
  ∀ g, i.names g = true ↔ g = .role role

variable {i : Item} {role : String} {g : Grantee}

theorem NamesOnly.hasRole (h : i.NamesOnly role) : i.hasRole role = true := (h (.role role)).2 rfl

theorem namesOnly_forRole (accesses : NameSet) (role : String) :
    (forRole accesses role).NamesOnly role := by
  intro g
  cases g <;> simp [names, Item.hasRole, forRole]

/-- An item that is not shared names roles only. -/
theorem exists_role_of_names (h : i.isShared = false) (hg : i.names g = true) :
    ∃ other, g = .role other := by
  obtain ⟨husers, hgroups⟩ : i.users = [] ∧ i.groups = [] := by simpa [isShared] using h
  cases g with
  | user name => simp [names, husers] at hg
  | group name => simp [names, hgroups] at hg
  | role other => exact ⟨other, rfl⟩

theorem withoutRole_hasRole (i : Item) (role : String) : (i.withoutRole role).hasRole role = false := by
  simp [withoutRole, Item.hasRole]

/-- An item without a role goes on naming everybody else. -/
theorem names_withoutRole (hg : g ≠ .role role) : (i.withoutRole role).names g = i.names g := by
  cases g with
  | user name => rfl
  | group name => rfl
  | role other =>
    have hne : other ≠ role := fun h => hg (congrArg Grantee.role h)
    rw [Bool.eq_iff_iff]
    simp [names, withoutRole, Item.hasRole, hne]

end Item

/-! ### Entries -/

/-- An item as it stands in one of the lists of a policy, with its mask in the list of masks. -/
structure Entry where
  /-- The subjects and accesses. -/
  item : Item
  /-- The way in which data is masked, in the list of masks. -/
  maskType : Option String
deriving DecidableEq

namespace Entry

/-- An item of a list of grants or denials. -/
def ofItem (i : Item) : Entry := ⟨i, none⟩

/-- An item of a list of masks. -/
def ofMaskItem (m : MaskItem) : Entry := ⟨m.item, some m.maskType⟩

/-- The entry does what another does, for whomever it names. -/
def Fits (e w : Entry) : Prop := e.item.accesses = w.item.accesses ∧ e.maskType = w.maskType

instance (e w : Entry) : Decidable (e.Fits w) :=
  inferInstanceAs (Decidable (_ ∧ _))

/-- The entry without a role. -/
def withoutRole (e : Entry) (role : String) : Entry := { e with item := e.item.withoutRole role }

/-- The entry made to do what another does, for those whom it names. -/
def overwrite (e w : Entry) : Entry :=
  ⟨{ e.item with accesses := w.item.accesses }, w.maskType⟩

theorem fits_self (w : Entry) : w.Fits w := ⟨rfl, rfl⟩

theorem overwrite_fits (e w : Entry) : (e.overwrite w).Fits w := ⟨rfl, rfl⟩

end Entry

/-! ### What lists grant -/

/-- The accesses that the entries of a list grant, or deny, to a grantee. -/
def granted (l : List Entry) (g : Grantee) : Set String :=
  {a | ∃ e ∈ l, e.item.names g = true ∧ a ∈ e.item.accesses}

instance (l : List Entry) (g : Grantee) (a : String) : Decidable (a ∈ granted l g) :=
  inferInstanceAs (Decidable (∃ e ∈ l, e.item.names g = true ∧ a ∈ e.item.accesses))

section Granted

variable {l k : List Entry} {e w : Entry} {g : Grantee} {role : String}

theorem granted_append : granted (l ++ k) g = granted l g ∪ granted k g := by
  ext a
  simp [granted, or_and_right, exists_or]

theorem granted_cons : granted (e :: l) g = granted [e] g ∪ granted l g := granted_append (l := [e])

theorem granted_singleton (h : e.item.names g = true) :
    granted [e] g = {a | a ∈ e.item.accesses} := by
  simp [granted, h]

theorem granted_singleton_of_not_names (h : e.item.names g = false) : granted [e] g = ∅ := by
  simp [granted, h]

/-- Taking a role out of an entry changes nothing for anybody else. -/
theorem granted_withoutRole (hg : g ≠ .role role) :
    granted [e.withoutRole role] g = granted [e] g := by
  have hnames : (e.withoutRole role).item.names g = e.item.names g := Item.names_withoutRole hg
  simp only [granted, List.mem_singleton, exists_eq_left, hnames]
  rfl

/-- Overwriting an entry changes nothing for those whom it does not name. -/
theorem granted_overwrite_of_not_names (h : e.item.names g = false) :
    granted [e.overwrite w] g = granted [e] g := by
  have h' : (e.overwrite w).item.names g = false := by cases g <;> exact h
  rw [granted_singleton_of_not_names h, granted_singleton_of_not_names h']

/-- Those whom an overwritten entry names are granted what it was overwritten with. -/
theorem granted_overwrite (h : e.item.names g = true) :
    granted [e.overwrite w] g = {a | a ∈ w.item.accesses} :=
  granted_singleton (by cases g <;> exact h)

/-- An entry for one role grants nothing to anybody else. -/
theorem Item.NamesOnly.granted_other (h : w.item.NamesOnly role) (hg : g ≠ .role role) :
    granted [w] g = ∅ :=
  granted_singleton_of_not_names (Bool.eq_false_iff.2 fun hw => hg ((h g).1 hw))

/-- What a role is granted is what the entries that name it grant. -/
theorem granted_role :
    granted l (.role role) = {a | ∃ e ∈ l.filter (·.item.hasRole role), a ∈ e.item.accesses} := by
  ext a
  simp only [granted, Item.names, List.mem_filter, and_assoc]

end Granted

/-! ### The outcomes of merging -/

theorem filter_hasRole_eq_nil {role : String} {l : List Entry}
    (h : ∀ e ∈ l, e.item.hasRole role = false) : l.filter (·.item.hasRole role) = [] :=
  List.filter_eq_nil_iff.2 fun e he => by simp [h e he]

/-- An entry is the first of a list to name the role. -/
structure FirstNaming (role : String) (l as : List Entry) (c : Entry) (bs : List Entry) : Prop where
  /-- It stands in the list. -/
  eq : l = as ++ c :: bs
  /-- It names the role. -/
  hasRole : c.item.hasRole role = true
  /-- Those before do not. -/
  before : ∀ e ∈ as, e.item.hasRole role = false

/-- What merging an entry for a role makes of a list of entries; nothing where it leaves the list as it
is. -/
inductive Merging (w : Entry) (role : String) : List Entry → Option (List Entry) → Prop
  /-- A role that is not named gets the entry. -/
  | added {l : List Entry} (hnone : ∀ e ∈ l, e.item.hasRole role = false) :
      Merging w role l (some (l ++ [w]))
  /-- The first entry that names the role does what is wanted. -/
  | kept {l as bs : List Entry} {c : Entry} (hfirst : FirstNaming role l as c bs)
      (hfits : c.Fits w) : Merging w role l none
  /-- The role leaves an entry that names users or groups besides, and gets one of its own. -/
  | split {l as bs : List Entry} {c : Entry} (hfirst : FirstNaming role l as c bs)
      (hfits : ¬ c.Fits w) (hshared : c.item.isShared = true) :
      Merging w role l (some (as ++ c.withoutRole role :: bs ++ [w]))
  /-- Any other entry is overwritten in its place. -/
  | overwritten {l as bs : List Entry} {c : Entry} (hfirst : FirstNaming role l as c bs)
      (hfits : ¬ c.Fits w) (hshared : c.item.isShared = false) :
      Merging w role l (some (as ++ c.overwrite w :: bs))

/-- Merging into a list of any kind has one of the outcomes. -/
theorem merging_mergeInto {α : Type} {item : α → Item} {fits : α → Bool} {drop overwrite : α → α}
    {w : α} {role : String} {entry : α → Entry} (hitem : ∀ x, (entry x).item = item x)
    (hfits : ∀ x, fits x = true ↔ (entry x).Fits (entry w))
    (hdrop : ∀ x, entry (drop x) = (entry x).withoutRole role)
    (hover : ∀ x, entry (overwrite x) = (entry x).overwrite (entry w)) (l : List α) :
    Merging (entry w) role (l.map entry)
      ((mergeInto? item fits drop overwrite l w role).map (List.map entry)) := by
  unfold mergeInto?
  cases hc : l.find? fun x => (item x).hasRole role with
  | none =>
    have hnone : ∀ e ∈ l.map entry, e.item.hasRole role = false := by
      simpa [hitem] using hc
    simpa using Merging.added (w := entry w) hnone
  | some c =>
    obtain ⟨hrole, as, bs, rfl, has⟩ := List.find?_eq_some_iff_append.1 hc
    have hbefore : ∀ x ∈ as, (item x).hasRole role = false := by simpa using has
    have hfirst : FirstNaming role ((as ++ c :: bs).map entry) (as.map entry) (entry c)
        (bs.map entry) := by
      refine ⟨List.map_append, by rw [hitem]; exact hrole, ?_⟩
      simpa [hitem] using hbefore
    dsimp only
    rw [replaceFirst_append hbefore hrole, replaceFirst_append hbefore hrole]
    split
    · next h => exact .kept hfirst ((hfits c).1 h)
    · next h =>
      have hfits' : ¬ (entry c).Fits (entry w) := fun h' => h ((hfits c).2 h')
      split
      · next hshared =>
        simpa [hdrop] using Merging.split hfirst hfits' (by rw [hitem]; exact hshared)
      · next hshared =>
        simpa [hover] using
          Merging.overwritten hfirst hfits' (by rw [hitem]; exact Bool.eq_false_iff.2 hshared)

theorem merging_mergeItem (l : List Item) (w : Item) (role : String) :
    Merging (.ofItem w) role (l.map .ofItem) ((mergeItem? l w role).map (List.map .ofItem)) := by
  rw [mergeItem?_eq]
  refine merging_mergeInto (fun _ => rfl) (fun i => ?_) (fun _ => rfl) (fun _ => rfl) l
  simp [Entry.Fits, Entry.ofItem]

theorem merging_mergeMaskItem (l : List MaskItem) (w : MaskItem) (role : String) :
    Merging (.ofMaskItem w) role (l.map .ofMaskItem)
      ((mergeMaskItem? l w role).map (List.map .ofMaskItem)) := by
  rw [mergeMaskItem?_eq]
  refine merging_mergeInto (fun _ => rfl) (fun m => ?_) (fun _ => rfl) (fun _ => rfl) l
  simp [Entry.Fits, Entry.ofMaskItem]

/-- The entry of a list that is overwritten when an entry for a role is merged into the list: the first
that names the role, if it does not do what is wanted and names neither users nor groups. -/
def overwritten? (l : List Entry) (w : Entry) (role : String) : Option Entry :=
  (l.find? (·.item.hasRole role)).filter fun c => !decide (c.Fits w) && !c.item.isShared

namespace FirstNaming

variable {role : String} {l as bs : List Entry} {c : Entry}

theorem find? (h : FirstNaming role l as c bs) : l.find? (·.item.hasRole role) = some c :=
  List.find?_eq_some_iff_append.2 ⟨h.hasRole, as, bs, h.eq, by simpa using h.before⟩

theorem filter (h : FirstNaming role l as c bs) :
    l.filter (·.item.hasRole role) = c :: bs.filter (·.item.hasRole role) := by
  rw [h.eq, List.filter_append, filter_hasRole_eq_nil h.before, List.nil_append]
  exact List.filter_cons_of_pos h.hasRole

/-- Taking out what is equal to the entry takes out the entry. -/
theorem erase (h : FirstNaming role l as c bs) : l.erase c = as ++ bs := by
  have hc : c ∉ as := fun hmem => Bool.false_ne_true ((h.before c hmem).symm.trans h.hasRole)
  rw [h.eq, List.erase_append_right _ hc, List.erase_cons_head]

/-- The entry is overwritten if it does not do what is wanted and is not shared. -/
theorem overwritten? (h : FirstNaming role l as c bs) {w : Entry} (hfits : ¬ c.Fits w)
    (hshared : c.item.isShared = false) : overwritten? l w role = some c := by
  rw [Policy.overwritten?, h.find?]
  simp [hfits, hshared]

theorem granted (h : FirstNaming role l as c bs) (g : Grantee) :
    granted l g = Policy.granted as g ∪ (Policy.granted [c] g ∪ Policy.granted bs g) := by
  rw [h.eq, granted_append, granted_cons]

end FirstNaming

namespace Merging

variable {w : Entry} {role : String} {l : List Entry} {k : Option (List Entry)} {g : Grantee}

/-- Whoever is not named in an entry that is overwritten keeps what is granted. -/
theorem granted_kept (h : Merging w role l k) (hw : w.item.NamesOnly role) (hg : g ≠ .role role)
    (hother : ∀ c, overwritten? l w role = some c → c.item.names g = false) :
    granted (k.getD l) g = granted l g := by
  have hnew := hw.granted_other hg
  cases h with
  | added hnone => rw [Option.getD_some, granted_append, hnew, Set.union_empty]
  | kept hfirst hfits => rfl
  | split hfirst hfits hshared =>
    rw [Option.getD_some, granted_append, granted_append, granted_cons, granted_withoutRole hg, hnew,
      Set.union_empty, hfirst.granted]
  | overwritten hfirst hfits hshared =>
    have hc := hother _ (hfirst.overwritten? hfits hshared)
    rw [Option.getD_some, granted_append, granted_cons, granted_overwrite_of_not_names hc,
      hfirst.granted]

/-- Whoever is named in the entry that is overwritten is granted what it is overwritten with, besides
what other entries grant. -/
theorem granted_overwritten (h : Merging w role l k) {c : Entry}
    (hc : overwritten? l w role = some c) (hg : c.item.names g = true) :
    granted (k.getD l) g = granted (l.erase c) g ∪ {a | a ∈ w.item.accesses} := by
  obtain ⟨hfind, htest⟩ := Option.filter_eq_some_iff.1 hc
  obtain ⟨hnot, hown⟩ : ¬ c.Fits w ∧ c.item.isShared = false := by simpa using htest
  cases h with
  | added hnone => simp [List.find?_eq_none.2 (by simpa using hnone)] at hfind
  | kept hfirst hfits =>
    obtain rfl := Option.some.inj (hfirst.find?.symm.trans hfind)
    exact absurd hfits hnot
  | split hfirst hfits hshared =>
    obtain rfl := Option.some.inj (hfirst.find?.symm.trans hfind)
    rw [hown] at hshared
    exact absurd hshared Bool.false_ne_true
  | overwritten hfirst hfits hshared =>
    obtain rfl := Option.some.inj (hfirst.find?.symm.trans hfind)
    rw [Option.getD_some, granted_append, granted_cons, granted_overwrite hg, hfirst.erase,
      granted_append, Set.union_assoc, Set.union_comm (granted _ g) {a | a ∈ w.item.accesses}]

/-- Nothing is left to do where the first entry that names the role does what is wanted. -/
theorem eq_none_iff (h : Merging w role l k) :
    k = none ↔ ∃ c, (l.filter (·.item.hasRole role)).head? = some c ∧ c.Fits w := by
  cases h with
  | added hnone => simp [filter_hasRole_eq_nil hnone]
  | kept hfirst hfits => simp [hfirst.filter, hfits]
  | split hfirst hfits hshared => simp [hfirst.filter, hfits]
  | overwritten hfirst hfits hshared => simp [hfirst.filter, hfits]

end Merging

/-- What merging an entry for a role makes of the entries that name the role. -/
def mergeNamed (w : Entry) : List Entry → List Entry
  | [] => [w]
  | c :: rest =>
    if c.Fits w then c :: rest
    else if c.item.isShared then rest ++ [w]
    else c.overwrite w :: rest

theorem mergeNamed_of_fits {c w : Entry} {rest : List Entry} (hfits : c.Fits w) :
    mergeNamed w (c :: rest) = c :: rest := if_pos hfits

theorem mergeNamed_of_isShared {c w : Entry} {rest : List Entry} (hfits : ¬ c.Fits w)
    (hshared : c.item.isShared = true) : mergeNamed w (c :: rest) = rest ++ [w] := by
  rw [mergeNamed, if_neg hfits, if_pos hshared]

theorem mergeNamed_of_not_isShared {c w : Entry} {rest : List Entry} (hfits : ¬ c.Fits w)
    (hshared : c.item.isShared = false) : mergeNamed w (c :: rest) = c.overwrite w :: rest := by
  rw [mergeNamed, if_neg hfits, hshared, if_neg Bool.false_ne_true]

/-- The entries that name the role afterwards. -/
theorem Merging.filter_hasRole {w : Entry} {role : String} {l : List Entry}
    {k : Option (List Entry)} (h : Merging w role l k) (hw : w.item.hasRole role = true) :
    (k.getD l).filter (·.item.hasRole role) = mergeNamed w (l.filter (·.item.hasRole role)) := by
  have hnew : [w].filter (·.item.hasRole role) = [w] := List.filter_cons_of_pos hw
  cases h with
  | added hnone =>
    rw [Option.getD_some, List.filter_append, hnew, filter_hasRole_eq_nil hnone]
    rfl
  | kept hfirst hfits => rw [Option.getD_none, hfirst.filter, mergeNamed_of_fits hfits]
  | split hfirst hfits hshared =>
    -- The entry that loses the role does not name it any more.
    rw [Option.getD_some, List.filter_append, List.filter_append, hnew,
      filter_hasRole_eq_nil hfirst.before, hfirst.filter, mergeNamed_of_isShared hfits hshared,
      List.filter_cons_of_neg (by simp [Entry.withoutRole, Item.withoutRole_hasRole])]
    rfl
  | overwritten hfirst hfits hshared =>
    rw [Option.getD_some, List.filter_append, filter_hasRole_eq_nil hfirst.before, hfirst.filter,
      mergeNamed_of_not_isShared hfits hshared, List.nil_append]
    exact List.filter_cons_of_pos hfirst.hasRole

/-- An entry with the accesses wanted is among those that name the role afterwards, and so are all that
did but the first. -/
theorem exists_mem_mergeNamed (w : Entry) (named : List Entry) :
    ∃ x : Entry, x.item.accesses = w.item.accesses ∧
      ∀ e, e ∈ mergeNamed w named ↔ e = x ∨ e ∈ named.tail := by
  cases named with
  | nil => exact ⟨w, rfl, fun e => by simp [mergeNamed]⟩
  | cons c rest =>
    by_cases hfits : c.Fits w
    · rw [mergeNamed_of_fits hfits]
      exact ⟨c, hfits.1, fun e => List.mem_cons⟩
    · cases hshared : c.item.isShared with
      | true =>
        rw [mergeNamed_of_isShared hfits hshared]
        exact ⟨w, rfl, fun e => by simp [or_comm]⟩
      | false =>
        rw [mergeNamed_of_not_isShared hfits hshared]
        exact ⟨c.overwrite w, rfl, fun e => List.mem_cons⟩

/-- The entries that name the role afterwards grant what is wanted exactly if those after the first
granted nothing else. -/
theorem accesses_mergeNamed (w : Entry) (named : List Entry) :
    {a | ∃ e ∈ mergeNamed w named, a ∈ e.item.accesses} = {a | a ∈ w.item.accesses} ↔
      ∀ e ∈ named.tail, ∀ a ∈ e.item.accesses, a ∈ w.item.accesses := by
  obtain ⟨x, hx, hmem⟩ := exists_mem_mergeNamed w named
  simp only [hmem, Set.ext_iff, Set.mem_ofPred_eq]
  constructor
  · intro h e he a ha
    exact (h a).1 ⟨e, .inr he, ha⟩
  · intro h a
    constructor
    · rintro ⟨e, rfl | he, ha⟩
      · rwa [← hx]
      · exact h e he a ha
    · intro ha
      exact ⟨x, .inl rfl, by rwa [hx]⟩

/-- The first entry that names the role afterwards does what is wanted, unless the role has left the
first and the second does something else. -/
theorem head_mergeNamed_fits (w : Entry) (named : List Entry) :
    (∃ c, (mergeNamed w named).head? = some c ∧ c.Fits w) ↔
      ∀ c d rest, named = c :: d :: rest → ¬ c.Fits w → c.item.isShared = true → d.Fits w := by
  cases named with
  | nil => simp [mergeNamed, Entry.fits_self]
  | cons c rest =>
    by_cases hfits : c.Fits w
    · simp only [mergeNamed_of_fits hfits, List.head?_cons, Option.some.injEq, exists_eq_left', hfits,
        true_iff, List.cons.injEq]
      rintro _ d rest ⟨rfl, -⟩ hnot
      exact absurd hfits hnot
    · cases hshared : c.item.isShared with
      | false =>
        simp only [mergeNamed_of_not_isShared hfits hshared, List.head?_cons, Option.some.injEq,
          exists_eq_left', Entry.overwrite_fits, true_iff, List.cons.injEq]
        rintro _ d rest ⟨rfl, -⟩ - hyes
        exact absurd (hshared.symm.trans hyes) Bool.false_ne_true
      | true =>
        rw [mergeNamed_of_isShared hfits hshared]
        cases rest with
        | nil => simp [Entry.fits_self]
        | cons d rest => simp [hfits, hshared]

end CatalogAccess.Policy
