import CatalogAccess.EntitySource
import Mathlib.Logic.Relation

/-!
# The ancestors of a type

The parents of types make a graph, with circles and with names that are parents without being types. On
it the search for ancestors ends with what can be reached, after a step for each type that it finds and
one for the type itself (`EntitySource.ancestors_exact`). The invariant of the search is that a type that
was found is still pending, or its parents have been found too (`EntitySource.KeepsUp`), so that nothing
is lost where a path meets what was found before.
-/

namespace CatalogAccess.EntitySource

variable {s : EntitySource} {w : Ascent} {ps : List String} {t x : String}

/-- A type has another one among its parents. -/
def HasParent (s : EntitySource) (typeName parent : String) : Prop := parent ∈ s.parentsOf typeName

/-- The search ends with a set of types found, after so many types have been followed. -/
inductive Ends (s : EntitySource) : Nat → Ascent → NameSet → Prop
  /-- Nothing is pending. -/
  | done {found : NameSet} : Ends s 0 ⟨found, []⟩ found
  /-- The type found last is followed, and the search goes on. -/
  | next {n : Nat} {found result : NameSet} {current : String} {rest : List String}
      (hnext : Ends s n (s.follow ⟨found, rest⟩ current) result) :
      Ends s (n + 1) ⟨found, current :: rest⟩ result

/-! ### One type -/

theorem mem_found_foldl_note : x ∈ (ps.foldl Ascent.note w).found ↔ x ∈ ps ∨ x ∈ w.found := by
  induction ps generalizing w with
  | nil => simp
  | cons p ps ih =>
    have hnote : x ∈ (w.note p).found ↔ x = p ∨ x ∈ w.found := by
      unfold Ascent.note
      split
      · next hold =>
        rw [or_iff_right_of_imp]
        rintro rfl
        exact NameSet.contains_iff.1 hold
      · exact NameSet.mem_insert
    rw [List.foldl_cons, ih, hnote, List.mem_cons, or_left_comm, or_assoc]

theorem mem_pending_foldl_note :
    x ∈ (ps.foldl Ascent.note w).pending ↔ x ∈ ps ∧ ¬ x ∈ w.found ∨ x ∈ w.pending := by
  induction ps generalizing w with
  | nil => simp
  | cons p ps ih =>
    rw [List.foldl_cons, ih, List.mem_cons]
    unfold Ascent.note
    split
    · next hold =>
      have hp : p ∈ w.found := NameSet.contains_iff.1 hold
      by_cases hx : x = p <;> simp [hx, hp]
    · next hnew =>
      have hp : ¬ p ∈ w.found := mt NameSet.contains_iff.2 hnew
      by_cases hx : x = p <;> simp [hx, hp]

/-- What is found and what becomes pending grow alike. -/
theorem size_found_foldl_note : (ps.foldl Ascent.note w).found.size + w.pending.length =
    w.found.size + (ps.foldl Ascent.note w).pending.length := by
  induction ps generalizing w with
  | nil => rfl
  | cons p ps ih =>
    have hnote : (w.note p).found.size + w.pending.length =
        w.found.size + (w.note p).pending.length := by
      unfold Ascent.note
      split
      · rfl
      · next hnew =>
        rw [NameSet.size_insert (mt NameSet.contains_iff.2 hnew), List.length_cons]
        omega
    have hrest := ih (w := w.note p)
    rw [List.foldl_cons]
    omega

/-! ### The whole search -/

/-- The search ends, and what it has followed by then is what was pending and what it has found. -/
theorem exists_ends (s : EntitySource) (w : Ascent) :
    ∃ n, n + w.found.size = (s.climb w).size + w.pending.length ∧ s.Ends n w (s.climb w) := by
  fun_induction climb s w with
  | case1 found => exact ⟨0, Nat.zero_add _, .done⟩
  | case2 found current rest ih =>
    obtain ⟨n, hn, hends⟩ := ih
    have hgrow : (s.follow ⟨found, rest⟩ current).found.size + rest.length =
        found.size + (s.follow ⟨found, rest⟩ current).pending.length := size_found_foldl_note
    refine ⟨n + 1, ?_, .next hends⟩
    simp only [List.length_cons]
    omega

/-- The types found so far are pending, or their parents have been found as well. -/
def KeepsUp (s : EntitySource) (w : Ascent) : Prop :=
  ∀ t ∈ w.found, t ∈ w.pending ∨ ∀ p ∈ s.parentsOf t, p ∈ w.found

/-- Following a type keeps the search up with what it has found. -/
theorem KeepsUp.follow {found : NameSet} {current : String} {rest : List String}
    (h : s.KeepsUp ⟨found, current :: rest⟩) : s.KeepsUp (s.follow ⟨found, rest⟩ current) := by
  intro t ht
  -- A type that is new is pending; an old one may be the one that is followed, or is as it was.
  by_cases hold : t ∈ found
  · rcases h t hold with hpending | hparents
    · rcases List.mem_cons.1 hpending with rfl | hrest
      · exact .inr fun p hp => mem_found_foldl_note.2 (.inl hp)
      · exact .inl (mem_pending_foldl_note.2 (.inr hrest))
    · exact .inr fun p hp => mem_found_foldl_note.2 (.inr (hparents p hp))
  · have hparent : t ∈ s.parentsOf current := (mem_found_foldl_note.1 ht).resolve_right hold
    exact .inl (mem_pending_foldl_note.2 (.inl ⟨hparent, hold⟩))

/-- A path from a type that was found has been followed to its end, or passes a type that is pending. -/
theorem KeepsUp.reaches (h : s.KeepsUp w) (ht : t ∈ w.found)
    (hpath : Relation.TransGen s.HasParent t x) :
    x ∈ w.found ∨ ∃ u ∈ w.pending, Relation.TransGen s.HasParent u x := by
  induction hpath using Relation.TransGen.head_induction_on with
  | single hparent =>
    rcases h _ ht with hpending | hparents
    · exact .inr ⟨_, hpending, .single hparent⟩
    · exact .inl (hparents _ hparent)
  | head hparent hrest ih =>
    rcases h _ ht with hpending | hparents
    · exact .inr ⟨_, hpending, .head hparent hrest⟩
    · exact ih (hparents _ hparent)

/-- The search finds what can be reached from the types that are pending. -/
theorem mem_climb_iff (h : s.KeepsUp w) :
    x ∈ s.climb w ↔ x ∈ w.found ∨ ∃ t ∈ w.pending, Relation.TransGen s.HasParent t x := by
  fun_induction climb s w with
  | case1 found => simp
  | case2 found current rest ih =>
    rw [ih h.follow]
    constructor
    · rintro (hx | ⟨t, ht, hpath⟩)
      · rcases mem_found_foldl_note.1 hx with hparent | hfound
        · exact .inr ⟨current, List.mem_cons_self, .single hparent⟩
        · exact .inl hfound
      · rcases mem_pending_foldl_note.1 ht with ⟨hparent, -⟩ | hrest
        · exact .inr ⟨current, List.mem_cons_self, .head hparent hpath⟩
        · exact .inr ⟨t, List.mem_cons_of_mem current hrest, hpath⟩
    · rintro (hfound | ⟨t, ht, hpath⟩)
      · exact .inl (mem_found_foldl_note.2 (.inr hfound))
      · rcases List.mem_cons.1 ht with rfl | hrest
        · -- The path starts with a parent of the type that is followed, which has been found now.
          obtain ⟨p, hparent, hup⟩ := Relation.TransGen.head'_iff.1 hpath
          have hp : p ∈ (s.follow ⟨found, rest⟩ t).found := mem_found_foldl_note.2 (.inl hparent)
          rcases Relation.reflTransGen_iff_eq_or_transGen.1 hup with rfl | hup
          · exact .inl hp
          · exact h.follow.reaches hp hup
        · exact .inr ⟨t, mem_pending_foldl_note.2 (.inr hrest), hpath⟩

/-- The search for the ancestors of a type ends, and by then it has followed one type for each that it has
found, and the type itself. The ancestors are exactly the other types that a path of parents leads to. -/
theorem ancestors_exact (s : EntitySource) (typeName : String) :
    (∃ found : NameSet, s.Ends (found.size + 1) { pending := [typeName] } found ∧
      s.ancestors typeName = found.erase typeName) ∧
    ∀ x, x ∈ s.ancestors typeName ↔ x ≠ typeName ∧ Relation.TransGen s.HasParent typeName x := by
  constructor
  · obtain ⟨n, hn, hends⟩ := s.exists_ends { pending := [typeName] }
    obtain rfl : n = (s.climb { pending := [typeName] }).size + 1 := hn
    exact ⟨_, hends, rfl⟩
  · intro x
    have hstart : s.KeepsUp { pending := [typeName] } :=
      fun t ht => absurd ht NameSet.not_mem_empty
    rw [ancestors, NameSet.mem_erase, mem_climb_iff hstart, and_comm]
    simp

/-- Two types that are above each other, and a third one that only the way through the circle leads to. -/
example :
    let s : EntitySource := { parents := .ofList [("Table", ["View"]), ("View", ["Table", "Asset"])] }
    (s.ancestors "Table").toList = ["Asset", "View"] := by decide +kernel

end CatalogAccess.EntitySource
