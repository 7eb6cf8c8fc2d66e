/-!
# Finite sets of names

Action names, labels, groups and roles come as sets of strings that are reported in increasing
order of code points. A `NameSet` is the increasing list of its members, with the order carried
by the type, so that two sets with the same members are equal (`NameSet.ext_mem`) and the list
reported is the list stored.
-/

namespace CatalogAccess

/-- A finite set of strings, held as its strictly increasing list of members. -/
structure NameSet where
  /-- The members, in increasing order. -/
  toList : List String
  /-- The members increase strictly, so none is repeated. -/
  increasing : toList.Pairwise (· < ·)
deriving DecidableEq

namespace NameSet

/-- The set without members. -/
def empty : NameSet := ⟨[], .nil⟩

instance : EmptyCollection NameSet := ⟨empty⟩
instance : Inhabited NameSet := ⟨empty⟩
instance : Repr NameSet := ⟨fun s n => reprPrec s.toList n⟩

instance : Membership String NameSet := ⟨fun s x => x ∈ s.toList⟩

instance (x : String) (s : NameSet) : Decidable (x ∈ s) :=
  inferInstanceAs (Decidable (x ∈ s.toList))

/-- Whether the name is a member. -/
def contains (s : NameSet) (x : String) : Bool := decide (x ∈ s)

/-- Whether there is no member. -/
def isEmpty (s : NameSet) : Bool := s.toList.isEmpty

/-- The number of members. -/
def size (s : NameSet) : Nat := s.toList.length

@[simp] theorem mem_toList {s : NameSet} {x : String} : x ∈ s.toList ↔ x ∈ s := Iff.rfl

@[simp] theorem contains_iff {s : NameSet} {x : String} : s.contains x = true ↔ x ∈ s := by
  simp [contains]

/-- Inserts into an increasing list, keeping it increasing; a member already there stays as it
is. -/
def insertSorted (x : String) : List String → List String
  | [] => [x]
  | y :: ys => if x < y then x :: y :: ys else if x = y then y :: ys else y :: insertSorted x ys

theorem mem_insertSorted {x z : String} {l : List String} :
    z ∈ insertSorted x l ↔ z = x ∨ z ∈ l := by
  induction l with
  | nil => simp [insertSorted]
  | cons y ys ih =>
    by_cases hlt : x < y
    · simp [insertSorted, hlt]
    · by_cases heq : x = y
      · subst heq; simp [insertSorted]
      · simp [insertSorted, hlt, heq, ih, or_left_comm]

theorem insertSorted_increasing {x : String} {l : List String} (h : l.Pairwise (· < ·)) :
    (insertSorted x l).Pairwise (· < ·) := by
  induction l with
  | nil => simp [insertSorted]
  | cons y ys ih =>
    obtain ⟨hy, hys⟩ := List.pairwise_cons.1 h
    by_cases hlt : x < y
    · simp only [insertSorted, hlt, if_true]
      exact List.pairwise_cons.2 ⟨fun z hz => by
        rcases List.mem_cons.1 hz with rfl | hz
        · exact hlt
        · exact String.lt_trans hlt (hy z hz), h⟩
    · by_cases heq : x = y
      · simpa [insertSorted, hlt, heq, String.lt_irrefl] using h
      · have hyx : y < x := Decidable.byContradiction fun hn =>
          heq (String.le_antisymm (String.not_lt.1 hn) (String.not_lt.1 hlt))
        simp only [insertSorted, hlt, heq, if_false]
        exact List.pairwise_cons.2 ⟨fun z hz => by
          rcases mem_insertSorted.1 hz with rfl | hz
          · exact hyx
          · exact hy z hz, ih hys⟩

theorem length_insertSorted {x : String} {l : List String} (h : ¬ x ∈ l) :
    (insertSorted x l).length = l.length + 1 := by
  induction l with
  | nil => rfl
  | cons y ys ih =>
    rw [List.mem_cons, not_or] at h
    obtain ⟨hxy, hys⟩ := h
    by_cases hlt : x < y
    · simp [insertSorted, hlt]
    · simp [insertSorted, hlt, hxy, ih hys]

/-- The set with one more member. -/
def insert (s : NameSet) (x : String) : NameSet :=
  ⟨insertSorted x s.toList, insertSorted_increasing s.increasing⟩

/-- The set of the names of a list, whatever their order and repetitions. -/
def ofList (l : List String) : NameSet := l.foldl insert empty

/-- The members of either set. -/
def union (s t : NameSet) : NameSet := t.toList.foldl insert s

instance : Union NameSet := ⟨union⟩

/-- The members that pass a test. -/
def filter (p : String → Bool) (s : NameSet) : NameSet :=
  ⟨s.toList.filter p, s.increasing.sublist List.filter_sublist⟩

/-- The set without one name. -/
def erase (s : NameSet) (x : String) : NameSet := s.filter (· ≠ x)

/-- Whether some member passes the test. -/
def any (s : NameSet) (p : String → Bool) : Bool := s.toList.any p

/-- Whether every member of the first set is in the second. -/
def isSubset (s t : NameSet) : Bool := s.toList.all t.contains

@[simp] theorem not_mem_empty {x : String} : ¬ x ∈ (∅ : NameSet) := List.not_mem_nil

@[simp] theorem mem_insert {s : NameSet} {x z : String} : z ∈ s.insert x ↔ z = x ∨ z ∈ s :=
  mem_insertSorted

/-- A new member counts as one. -/
theorem size_insert {s : NameSet} {x : String} (h : ¬ x ∈ s) : (s.insert x).size = s.size + 1 :=
  length_insertSorted h

theorem mem_foldl_insert {l : List String} {s : NameSet} {z : String} :
    z ∈ l.foldl insert s ↔ z ∈ l ∨ z ∈ s := by
  induction l generalizing s with
  | nil => simp
  | cons x l ih => simp [ih, or_assoc, or_left_comm]

@[simp] theorem mem_ofList {l : List String} {z : String} : z ∈ ofList l ↔ z ∈ l := by
  unfold ofList
  rw [mem_foldl_insert]
  simp [show empty = (∅ : NameSet) from rfl]

@[simp] theorem mem_union {s t : NameSet} {z : String} : z ∈ s ∪ t ↔ z ∈ s ∨ z ∈ t := by
  show z ∈ t.toList.foldl insert s ↔ _
  rw [mem_foldl_insert, mem_toList, or_comm]

@[simp] theorem mem_filter {s : NameSet} {p : String → Bool} {z : String} :
    z ∈ s.filter p ↔ z ∈ s ∧ p z = true := List.mem_filter

@[simp] theorem mem_erase {s : NameSet} {x z : String} : z ∈ s.erase x ↔ z ∈ s ∧ z ≠ x := by
  simp [erase]

theorem isSubset_iff {s t : NameSet} : s.isSubset t = true ↔ ∀ z ∈ s, z ∈ t := by
  simp [isSubset]

/-- Two increasing lists with the same members are equal. -/
theorem eq_of_increasing {l k : List String} (hl : l.Pairwise (· < ·)) (hk : k.Pairwise (· < ·))
    (h : ∀ x, x ∈ l ↔ x ∈ k) : l = k := by
  induction l generalizing k with
  | nil =>
    cases k with
    | nil => rfl
    | cons y ys => exact absurd ((h y).2 (by simp)) (by simp)
  | cons x xs ih =>
    cases k with
    | nil => exact absurd ((h x).1 (by simp)) (by simp)
    | cons y ys =>
      obtain ⟨hx, hxs⟩ := List.pairwise_cons.1 hl
      obtain ⟨hy, hys⟩ := List.pairwise_cons.1 hk
      have hxy : x = y := by
        rcases List.mem_cons.1 ((h x).1 (by simp)) with rfl | hxk
        · rfl
        · rcases List.mem_cons.1 ((h y).2 (by simp)) with rfl | hyl
          · rfl
          · exact absurd (String.lt_trans (hx y hyl) (hy x hxk)) (String.lt_irrefl _)
      subst hxy
      have htail : xs = ys := by
        refine ih hxs hys fun z => ⟨fun hz => ?_, fun hz => ?_⟩
        · rcases List.mem_cons.1 ((h z).1 (List.mem_cons_of_mem _ hz)) with rfl | hz'
          · exact absurd (hx z hz) (String.lt_irrefl _)
          · exact hz'
        · rcases List.mem_cons.1 ((h z).2 (List.mem_cons_of_mem _ hz)) with rfl | hz'
          · exact absurd (hy z hz) (String.lt_irrefl _)
          · exact hz'
      rw [htail]

/-- Sets with the same members are equal. -/
theorem ext_mem {s t : NameSet} (h : ∀ x, x ∈ s ↔ x ∈ t) : s = t := by
  obtain ⟨l, hl⟩ := s
  obtain ⟨k, hk⟩ := t
  obtain rfl : l = k := eq_of_increasing hl hk h
  rfl

/-- The names of a list that are not in a set. -/
def missing (names : List String) (s : NameSet) : List String :=
  names.filter fun x => !s.contains x

/-- Fewer names are missing from a larger set. -/
theorem length_missing_lt {names : List String} {s t : NameSet} {x : String}
    (hsub : ∀ y ∈ s, y ∈ t) (hnames : x ∈ names) (hs : ¬ x ∈ s) (ht : x ∈ t) :
    (missing names t).length < (missing names s).length := by
  -- What is missing from the larger set is missing from the smaller one, and `x` is not missing.
  have hfilter : missing names t = (missing names s).filter fun y => !t.contains y := by
    unfold missing
    rw [List.filter_filter]
    refine List.filter_congr fun y _ => ?_
    by_cases hy : y ∈ s
    · simp [contains, hy, hsub y hy]
    · simp [contains, hy]
  have hmem : x ∈ missing names s := by simp [missing, hnames, hs, contains]
  rw [hfilter]
  exact List.length_filter_lt_length_iff_exists.2 ⟨x, hmem, by simp [contains, ht]⟩

/-- Reading back the members of a set gives the set. -/
@[simp] theorem ofList_toList (s : NameSet) : ofList s.toList = s := ext_mem fun x => by simp

end NameSet

end CatalogAccess
