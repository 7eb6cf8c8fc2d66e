import CatalogAccess.NameSet.Saturation

/-!
# Saturation reaches the least closed set

`NameSet.saturate` applies a rule for a bounded number of rounds. When the rule only ever names
members of a list, as many rounds as the list is long are enough: the loop without a bound ends by
then, with the same result (`settles_saturate`). The result contains the start (`subset_saturate`),
is closed under the rule (`saturate_closed`), and holds nothing that a set closed under the rule
could leave out (`saturate_induction`).
-/

namespace CatalogAccess.NameSet

variable {rule : NameSet → List String}

@[simp] theorem mem_additions {s : NameSet} {x : String} :
    x ∈ additions rule s ↔ x ∈ rule s ∧ ¬ x ∈ s := by
  simp [additions, contains]

/-- A round keeps the names of the set and adds what the rule names. -/
theorem mem_round {s : NameSet} {x : String} :
    x ∈ (additions rule s).foldl insert s ↔ x ∈ s ∨ x ∈ rule s := by
  rw [mem_foldl_insert, mem_additions]
  by_cases hx : x ∈ s <;> simp [hx]

/-- Nothing is lost on the way. -/
theorem subset_saturate (rounds : Nat) {s : NameSet} {x : String} (h : x ∈ s) :
    x ∈ saturate rule rounds s := by
  induction rounds generalizing s with
  | zero => exact h
  | succ n ih =>
    rw [saturate]
    split
    · exact h
    · exact ih (mem_round.2 (.inl h))

/-- What holds of the start and is handed on by the rule holds of the result. -/
theorem saturate_induction {P : String → Prop}
    (hrule : ∀ s : NameSet, (∀ x ∈ s, P x) → ∀ x ∈ rule s, P x) (rounds : Nat) {s : NameSet}
    (hs : ∀ x ∈ s, P x) : ∀ x ∈ saturate rule rounds s, P x := by
  induction rounds generalizing s with
  | zero => exact hs
  | succ n ih =>
    rw [saturate]
    split
    · exact hs
    · refine ih fun x hx => ?_
      rcases mem_round.1 hx with hx | hx
      · exact hs x hx
      · exact hrule s hs x hx

/-- A round that adds something leaves fewer names missing. -/
theorem missing_round_lt {names : List String} (hrule : ∀ s, ∀ x ∈ rule s, x ∈ names)
    {s : NameSet} (h : additions rule s ≠ []) :
    (missing names ((additions rule s).foldl insert s)).length < (missing names s).length := by
  obtain ⟨x, hx⟩ := List.exists_mem_of_ne_nil _ h
  obtain ⟨hxr, hxs⟩ := mem_additions.1 hx
  exact length_missing_lt (fun y hy => mem_round.2 (.inl hy)) (hrule s x hxr) hxs
    (mem_round.2 (.inr hxr))

/-- The loop that applies a rule for as long as it adds something ends with `t` after so many
rounds. -/
inductive Settles (rule : NameSet → List String) : Nat → NameSet → NameSet → Prop
  /-- Nothing is added any more. -/
  | done {s : NameSet} (h : additions rule s = []) : Settles rule 0 s s
  /-- A round adds something, and the loop goes on. -/
  | next {n : Nat} {s t : NameSet} (h : additions rule s ≠ [])
      (hnext : Settles rule n ((additions rule s).foldl insert s) t) : Settles rule (n + 1) s t

/-- When the loop has ended, its result is closed under the rule. -/
theorem Settles.closed {n : Nat} {s t : NameSet} (h : Settles rule n s t) : ∀ x ∈ rule t, x ∈ t := by
  induction h with
  | done h =>
    intro x hx
    refine Decidable.byContradiction fun hmissing => ?_
    have hadd := mem_additions.2 ⟨hx, hmissing⟩
    rw [h] at hadd
    exact List.not_mem_nil hadd
  | next h hnext ih => exact ih

/-- With a round for each missing name the bound is never reached: the loop ends by itself, with the
result of the bounded rounds. -/
theorem settles_saturate {names : List String} (hrule : ∀ s, ∀ x ∈ rule s, x ∈ names) {rounds : Nat}
    {s : NameSet} (h : (missing names s).length ≤ rounds) :
    ∃ n ≤ (missing names s).length, Settles rule n s (saturate rule rounds s) := by
  induction rounds generalizing s with
  | zero =>
    -- No name is missing, so the rule names nothing new.
    have hnil : missing names s = [] := List.length_eq_zero_iff.1 (by omega)
    refine ⟨0, Nat.zero_le _, .done (List.eq_nil_iff_forall_not_mem.2 fun x hx => ?_)⟩
    obtain ⟨hxr, hxs⟩ := mem_additions.1 hx
    have hkept := List.filter_eq_nil_iff.1 hnil x (hrule s x hxr)
    simp [contains, hxs] at hkept
  | succ rounds ih =>
    rw [saturate]
    split
    · next hnil => exact ⟨0, Nat.zero_le _, .done (List.isEmpty_iff.1 hnil)⟩
    · next hne =>
      -- The round uses up one of the missing names.
      have hadds : additions rule s ≠ [] := fun hnil => hne (List.isEmpty_iff.2 hnil)
      have hlt := missing_round_lt hrule hadds
      obtain ⟨n, hn, hsettles⟩ := ih (s := (additions rule s).foldl insert s) (by omega)
      exact ⟨n + 1, by omega, .next hadds hsettles⟩

/-- With a round for each missing name the result is closed under the rule. -/
theorem saturate_closed {names : List String} (hrule : ∀ s, ∀ x ∈ rule s, x ∈ names)
    {rounds : Nat} {s : NameSet} (h : (missing names s).length ≤ rounds) :
    ∀ x ∈ rule (saturate rule rounds s), x ∈ saturate rule rounds s := by
  obtain ⟨n, -, hsettles⟩ := settles_saturate hrule h
  exact hsettles.closed

end CatalogAccess.NameSet
