import CatalogAccess.NameSet

/-!
# Finite maps keyed by names

Resource dimensions, attributes, stored objects and user groups are looked up by a string key and
reported in increasing order of it. A `NameMap` is the list of its entries with strictly
increasing keys. `get?_insert` and `get?_erase` say what a write does to every key, and
`ext_get?` that a map is determined by its look-ups.
-/

namespace CatalogAccess

/-- A finite map from strings, held as the list of its entries in increasing order of key. -/
structure NameMap (α : Type) where
  /-- The entries, by increasing key. -/
  toList : List (String × α)
  /-- The keys increase strictly, so none is repeated. -/
  increasing : toList.Pairwise (fun a b => a.1 < b.1)

namespace NameMap

variable {α β : Type}

instance [DecidableEq α] : DecidableEq (NameMap α) := fun m n =>
  decidable_of_iff (m.toList = n.toList) ⟨fun h => by cases m; cases n; simp_all, fun h => h ▸ rfl⟩

/-- The map without entries. -/
def empty : NameMap α := ⟨[], .nil⟩

instance : EmptyCollection (NameMap α) := ⟨empty⟩
instance : Inhabited (NameMap α) := ⟨empty⟩
instance [Repr α] : Repr (NameMap α) := ⟨fun m n => reprPrec m.toList n⟩

/-- The keys, in increasing order. -/
def keys (m : NameMap α) : List String := m.toList.map Prod.fst

/-- The values, in increasing order of their keys. -/
def values (m : NameMap α) : List α := m.toList.map Prod.snd

/-- The number of entries. -/
def size (m : NameMap α) : Nat := m.toList.length

/-- Whether there is no entry. -/
def isEmpty (m : NameMap α) : Bool := m.toList.isEmpty

/-- The value stored under a key. -/
def get? (m : NameMap α) (k : String) : Option α :=
  (m.toList.find? (·.1 == k)).map Prod.snd

/-- Whether something is stored under the key. -/
def contains (m : NameMap α) (k : String) : Bool := (m.get? k).isSome

/-- Puts an entry into a list with increasing keys, in place of the entry of that key if there is
one. -/
def insertSorted (k : String) (v : α) : List (String × α) → List (String × α)
  | [] => [(k, v)]
  | e :: es =>
    if k < e.1 then (k, v) :: e :: es
    else if k = e.1 then (k, v) :: es
    else e :: insertSorted k v es

theorem mem_keys_insertSorted {k x : String} {v : α} {l : List (String × α)} :
    x ∈ (insertSorted k v l).map Prod.fst ↔ x = k ∨ x ∈ l.map Prod.fst := by
  induction l with
  | nil => simp [insertSorted]
  | cons e es ih =>
    by_cases hlt : k < e.1
    · simp [insertSorted, hlt]
    · by_cases heq : k = e.1
      · simp [insertSorted, heq]
      · simp only [insertSorted, hlt, heq, if_false, List.map_cons, List.mem_cons, ih]
        exact or_left_comm

theorem insertSorted_increasing {k : String} {v : α} {l : List (String × α)}
    (h : l.Pairwise (fun a b => a.1 < b.1)) :
    (insertSorted k v l).Pairwise (fun a b => a.1 < b.1) := by
  induction l with
  | nil => simp [insertSorted]
  | cons e es ih =>
    obtain ⟨he, hes⟩ := List.pairwise_cons.1 h
    by_cases hlt : k < e.1
    · simp only [insertSorted, hlt, if_true]
      exact List.pairwise_cons.2 ⟨fun z hz => by
        rcases List.mem_cons.1 hz with rfl | hz
        · exact hlt
        · exact String.lt_trans hlt (he z hz), h⟩
    · by_cases heq : k = e.1
      · simp only [insertSorted, heq, if_false, if_true, String.lt_irrefl]
        exact List.pairwise_cons.2 ⟨fun z hz => he z hz, hes⟩
      · have hek : e.1 < k := Decidable.byContradiction fun hn =>
          heq (String.le_antisymm (String.not_lt.1 hn) (String.not_lt.1 hlt))
        simp only [insertSorted, hlt, heq, if_false]
        refine List.pairwise_cons.2 ⟨fun z hz => ?_, ih hes⟩
        have hzk : z.1 ∈ (insertSorted k v es).map Prod.fst := List.mem_map_of_mem hz
        rcases mem_keys_insertSorted.1 hzk with hz' | hz'
        · exact hz' ▸ hek
        · obtain ⟨w, hw, hwz⟩ := List.mem_map.1 hz'
          exact hwz ▸ he w hw

/-- The map with a value stored under a key, in place of what was there. -/
def insert (m : NameMap α) (k : String) (v : α) : NameMap α :=
  ⟨insertSorted k v m.toList, insertSorted_increasing m.increasing⟩

/-- The entries that pass a test on key and value. -/
def filter (p : String → α → Bool) (m : NameMap α) : NameMap α :=
  ⟨m.toList.filter fun e => p e.1 e.2, m.increasing.sublist List.filter_sublist⟩

/-- The map without the entry of a key. -/
def erase (m : NameMap α) (k : String) : NameMap α := m.filter fun x _ => x ≠ k

/-- The map with a function applied to every value. -/
def mapValues (f : String → α → β) (m : NameMap α) : NameMap β :=
  ⟨m.toList.map fun e => (e.1, f e.1 e.2), by
    rw [List.pairwise_map]; exact m.increasing⟩

/-- The map of a list of entries; of two entries with one key the later counts. -/
def ofList (l : List (String × α)) : NameMap α := l.foldl (fun m e => m.insert e.1 e.2) empty

theorem find?_insertSorted {k x : String} {v : α} {l : List (String × α)}
    (h : l.Pairwise (fun a b => a.1 < b.1)) :
    (insertSorted k v l).find? (·.1 == x) =
      if x = k then some (k, v) else l.find? (·.1 == x) := by
  induction l with
  | nil =>
    by_cases hx : x = k
    · simp [insertSorted, hx]
    · simp [insertSorted, hx, Ne.symm hx]
  | cons e es ih =>
    obtain ⟨he, hes⟩ := List.pairwise_cons.1 h
    by_cases hlt : k < e.1
    · by_cases hx : x = k
      · simp [insertSorted, hlt, hx]
      · simp [insertSorted, hlt, hx, Ne.symm hx]
    · by_cases heq : k = e.1
      · by_cases hx : x = k
        · simp [insertSorted, heq, hx]
        · have hex : ¬ e.1 = x := fun h => hx (h.symm.trans heq.symm)
          simp [insertSorted, heq, hex, Ne.symm hex]
      · simp only [insertSorted, hlt, heq, if_false, List.find?_cons]
        by_cases hex : e.1 = x
        · have hx : ¬ x = k := fun h => heq (h.symm.trans hex.symm)
          simp [hex, hx]
        · rw [beq_eq_false_iff_ne.2 hex, ih hes]

@[simp] theorem get?_empty {k : String} : (empty : NameMap α).get? k = none := rfl

/-- A write is seen under its own key and nowhere else. -/
theorem get?_insert {m : NameMap α} {k x : String} {v : α} :
    (m.insert k v).get? x = if x = k then some v else m.get? x := by
  unfold get? insert
  rw [find?_insertSorted m.increasing]
  split <;> rfl

theorem mem_of_get? {m : NameMap α} {k : String} {v : α} (h : m.get? k = some v) :
    (k, v) ∈ m.toList := by
  unfold get? at h
  obtain ⟨e, he, rfl⟩ := Option.map_eq_some_iff.1 h
  have hk : e.1 = k := by simpa using List.find?_some he
  exact hk ▸ List.mem_of_find?_eq_some he

theorem find?_of_mem {l : List (String × α)} (hl : l.Pairwise (fun a b => a.1 < b.1))
    {k : String} {v : α} (h : (k, v) ∈ l) : l.find? (·.1 == k) = some (k, v) := by
  induction l with
  | nil => simp at h
  | cons e es ih =>
    obtain ⟨he, hes⟩ := List.pairwise_cons.1 hl
    rcases List.mem_cons.1 h with rfl | h'
    · simp
    · have hne : ¬ e.1 = k := fun heq => String.lt_irrefl k (by simpa [heq] using he _ h')
      simp [hne, ih hes h']

/-- The look-up of a key finds exactly the entry of that key. -/
theorem get?_eq_some_iff {m : NameMap α} {k : String} {v : α} :
    m.get? k = some v ↔ (k, v) ∈ m.toList :=
  ⟨mem_of_get?, fun h => by simp [get?, find?_of_mem m.increasing h]⟩

theorem get?_filter {m : NameMap α} {p : String → α → Bool} {x : String} :
    (m.filter p).get? x = (m.get? x).filter (p x) := by
  apply Option.ext
  intro v
  rw [get?_eq_some_iff, Option.filter_eq_some_iff, get?_eq_some_iff]
  simp [filter, List.mem_filter]

/-- A removal is seen under its own key and nowhere else. -/
theorem get?_erase {m : NameMap α} {k x : String} :
    (m.erase k).get? x = if x = k then none else m.get? x := by
  unfold erase
  rw [get?_filter]
  by_cases h : x = k
  · subst h; cases m.get? x <;> simp [Option.filter]
  · cases m.get? x <;> simp [Option.filter, h]

/-- Two entry lists with increasing keys and the same entries are equal. -/
theorem eq_of_increasing {l k : List (String × α)} (hl : l.Pairwise (fun a b => a.1 < b.1))
    (hk : k.Pairwise (fun a b => a.1 < b.1)) (h : ∀ e, e ∈ l ↔ e ∈ k) : l = k := by
  induction l generalizing k with
  | nil =>
    cases k with
    | nil => rfl
    | cons y ys => exact absurd ((h y).2 (by simp)) (by simp)
  | cons x xs ih =>
    cases k with
    | nil => exact absurd ((h x).1 (by simp)) (by simp)
    | cons y ys =>
      obtain ⟨hx, hxs⟩ := List.pairwise_cons.1 hl
      obtain ⟨hy, hys⟩ := List.pairwise_cons.1 hk
      have hxy : x = y := by
        rcases List.mem_cons.1 ((h x).1 (by simp)) with rfl | hxk
        · rfl
        · rcases List.mem_cons.1 ((h y).2 (by simp)) with rfl | hyl
          · rfl
          · exact absurd (String.lt_trans (hx y hyl) (hy x hxk)) (String.lt_irrefl _)
      subst hxy
      have htail : xs = ys := by
        refine ih hxs hys fun z => ⟨fun hz => ?_, fun hz => ?_⟩
        · rcases List.mem_cons.1 ((h z).1 (List.mem_cons_of_mem _ hz)) with rfl | hz'
          · exact absurd (hx z hz) (String.lt_irrefl _)
          · exact hz'
        · rcases List.mem_cons.1 ((h z).2 (List.mem_cons_of_mem _ hz)) with rfl | hz'
          · exact absurd (hy z hz) (String.lt_irrefl _)
          · exact hz'
      rw [htail]

/-- Maps with the same look-ups are equal. -/
theorem ext_get? {m n : NameMap α} (h : ∀ k, m.get? k = n.get? k) : m = n := by
  obtain ⟨l, hl⟩ := m
  obtain ⟨k, hk⟩ := n
  obtain rfl : l = k := eq_of_increasing hl hk fun e => by
    have hm := get?_eq_some_iff (m := ⟨l, hl⟩) (k := e.1) (v := e.2)
    have hn := get?_eq_some_iff (m := ⟨k, hk⟩) (k := e.1) (v := e.2)
    exact hm.symm.trans ((by rw [h] : _ ↔ _).trans hn)
  rfl

end NameMap

end CatalogAccess
