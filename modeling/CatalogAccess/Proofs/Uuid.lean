import CatalogAccess.Text
import CatalogAccess.Uuid
import Mathlib.Data.List.TakeWhile
import Mathlib.Tactic.IntervalCases

/-!
# Fresh identifiers are new

Different draws give different identifiers (`Uuid.ofDraw_injective`): the groups of an identifier have
fixed lengths, apart from the first one, and between them they show all digits of the number. An
identifier holds nothing but hexadecimal digits and hyphens (`Uuid.isPlain_of_mem_ofDraw`), so that it can
be told from a longer name that ends with it (`Uuid.draw_eq_of_append`).
-/

namespace CatalogAccess.Uuid

/-! ### Digits -/

/-- The number that a hexadecimal digit stands for. -/
def digitValue (c : Char) : Nat := if 'a' ≤ c then c.toNat - 87 else c.toNat - 48

/-- The number that hexadecimal digits stand for. -/
def hexValue (l : List Char) : Nat := l.foldl (fun n c => 16 * n + digitValue c) 0

theorem digitValue_digitChar {d : Nat} (h : d < 16) : digitValue (Nat.digitChar d) = d := by
  interval_cases d <;> decide

theorem hexValue_append (l : List Char) (c : Char) :
    hexValue (l ++ [c]) = 16 * hexValue l + digitValue c := by
  rw [hexValue, List.foldl_append]
  rfl

/-- The digits of a number can be read back. -/
theorem hexValue_toDigits (n : Nat) : hexValue (Nat.toDigits 16 n) = n := by
  induction n using Nat.strongRecOn with
  | ind n ih =>
    rcases Nat.lt_or_ge n 16 with hlt | hge
    · rw [Nat.toDigits_of_lt_base hlt]
      show 16 * 0 + digitValue n.digitChar = n
      rw [digitValue_digitChar hlt]
      omega
    · rw [Nat.toDigits_of_base_le (by decide) hge, hexValue_append, ih (n / 16) (by omega),
        digitValue_digitChar (Nat.mod_lt _ (by decide))]
      omega

/-- So can padded digits. -/
theorem hexValue_paddedHex (count n : Nat) : hexValue (paddedHex count n) = n := by
  have hzeros : ∀ k l, hexValue (List.replicate k '0' ++ l) = hexValue l := by
    intro k l
    induction k with
    | zero => rfl
    | succ k ih => exact ih
  rw [paddedHex, hzeros, hexValue_toDigits]

/-- The last digits of two numbers are the same only if the numbers are, up to a power of sixteen. -/
theorem mod_eq_of_hexDigits_eq {count n m : Nat} (h : hexDigits count n = hexDigits count m) :
    n % 16 ^ count = m % 16 ^ count := by
  have hdigit : ∀ i < count, n / 16 ^ i % 16 = m / 16 ^ i % 16 := by
    intro i hi
    have hget := congrArg (fun l : List Char => digitValue l[count - 1 - i]!) h
    have hindex : count - 1 - i < count := by omega
    have hback : count - 1 - (count - 1 - i) = i := by omega
    simpa [hexDigits, hindex, hback, digitValue_digitChar, Nat.mod_lt] using hget
  have hmod : ∀ k ≤ count, n % 16 ^ k = m % 16 ^ k := by
    intro k hk
    induction k with
    | zero => rw [Nat.pow_zero, Nat.mod_one, Nat.mod_one]
    | succ k ih => rw [Nat.mod_pow_succ, Nat.mod_pow_succ, ih (by omega), hdigit k (by omega)]
  exact hmod count (Nat.le_refl _)

theorem length_hexDigits (count n : Nat) : (hexDigits count n).length = count := by
  simp [hexDigits]

/-! ### Draws -/

/-- Different draws give different identifiers. -/
theorem ofDraw_injective {n m : Nat} (h : ofDraw n = ofDraw m) : n = m := by
  -- The groups are told apart from the end, where their lengths are known.
  obtain ⟨h, hlast⟩ := List.append_inj' (String.ofList_injective h) (by simp [length_hexDigits])
  obtain ⟨h, hfourth⟩ := List.append_inj' h (by simp [length_hexDigits])
  obtain ⟨h, hthird⟩ := List.append_inj' h (by simp [length_hexDigits])
  obtain ⟨hfirst, hsecond⟩ := List.append_inj' h (by simp [length_hexDigits])
  simp only [List.cons.injEq, true_and] at hlast hfourth hthird hsecond
  have hhigh := congrArg hexValue hfirst
  rw [hexValue_paddedHex, hexValue_paddedHex] at hhigh
  have h18 := mod_eq_of_hexDigits_eq hsecond
  have h15 := mod_eq_of_hexDigits_eq hthird
  have h12 := mod_eq_of_hexDigits_eq hfourth
  have h0 := mod_eq_of_hexDigits_eq hlast
  norm_num at hhigh h18 h15 h12 h0
  omega

/-! ### Characters -/

/-- A character of identifiers: a hexadecimal digit or a hyphen. -/
def IsPlain (c : Char) : Prop := c = '-' ∨ ∃ d < 16, c = Nat.digitChar d

instance (c : Char) : Decidable (IsPlain c) :=
  inferInstanceAs (Decidable (c = '-' ∨ ∃ d < 16, c = Nat.digitChar d))

theorem IsPlain.ne {c : Char} (h : IsPlain c) : c ≠ '/' ∧ c ≠ 'p' := by
  rcases h with rfl | ⟨d, hd, rfl⟩
  · decide
  · interval_cases d <;> decide

theorem isPlain_of_mem_toDigits {n : Nat} {c : Char} (h : c ∈ Nat.toDigits 16 n) : IsPlain c := by
  induction n using Nat.strongRecOn with
  | ind n ih =>
    rcases Nat.lt_or_ge n 16 with hlt | hge
    · rw [Nat.toDigits_of_lt_base hlt, List.mem_singleton] at h
      exact .inr ⟨n, hlt, h⟩
    · rw [Nat.toDigits_of_base_le (by decide) hge, List.mem_append, List.mem_singleton] at h
      rcases h with h | h
      · exact ih (n / 16) (by omega) h
      · exact .inr ⟨n % 16, Nat.mod_lt _ (by decide), h⟩

theorem isPlain_of_mem_hexDigits {count n : Nat} {c : Char} (h : c ∈ hexDigits count n) :
    IsPlain c := by
  obtain ⟨i, -, rfl⟩ := List.mem_map.1 h
  exact .inr ⟨_, Nat.mod_lt _ (by decide), rfl⟩

/-- Identifiers consist of hexadecimal digits and hyphens. -/
theorem isPlain_of_mem_ofDraw {n : Nat} {c : Char} (h : c ∈ (ofDraw n).toList) : IsPlain c := by
  have hdigit : IsPlain '4' ∧ IsPlain '8' ∧ IsPlain '0' :=
    ⟨.inr ⟨4, by decide, rfl⟩, .inr ⟨8, by decide, rfl⟩, .inr ⟨0, by decide, rfl⟩⟩
  have hpadded : ∀ count n, c ∈ paddedHex count n → IsPlain c := by
    intro count n hc
    rcases List.mem_append.1 hc with hc | hc
    · exact List.eq_of_mem_replicate hc ▸ hdigit.2.2
    · exact isPlain_of_mem_toDigits hc
  simp only [ofDraw, String.toList_ofList, List.mem_append, List.mem_cons] at h
  rcases h with (((h | rfl | h) | rfl | rfl | h) | rfl | rfl | h) | rfl | h
  · exact hpadded _ _ h
  · exact .inl rfl
  · exact isPlain_of_mem_hexDigits h
  · exact .inl rfl
  · exact hdigit.1
  · exact isPlain_of_mem_hexDigits h
  · exact .inl rfl
  · exact hdigit.2.1
  · exact isPlain_of_mem_hexDigits h
  · exact .inl rfl
  · exact isPlain_of_mem_hexDigits h

/-- A name with another character is no identifier that is drawn. -/
theorem ne_ofDraw {name : String} {c : Char} (hc : c ∈ name.toList) (hplain : ¬ IsPlain c) (n : Nat) :
    name ≠ ofDraw n := by
  rintro rfl
  exact hplain (isPlain_of_mem_ofDraw hc)

/-- A name that ends with an identifier after a slash tells the identifier. -/
theorem draw_eq_of_append {start start' : String} {n m : Nat}
    (h : start ++ "/" ++ ofDraw n = start' ++ "/" ++ ofDraw m) : n = m := by
  have hread : ∀ (start : String) (n : Nat),
      ((start ++ "/" ++ ofDraw n).toList.reverse.takeWhile (· ≠ '/')) = (ofDraw n).toList.reverse := by
    intro start n
    have hplain : ∀ c ∈ (ofDraw n).toList.reverse, decide (c ≠ '/') = true := by
      intro c hc
      exact decide_eq_true (isPlain_of_mem_ofDraw (List.mem_reverse.1 hc)).ne.1
    rw [String.toList_append, String.toList_append, List.reverse_append, List.reverse_append,
      List.takeWhile_append_of_pos hplain]
    simp
  have hdraws : (ofDraw n).toList.reverse = (ofDraw m).toList.reverse := by
    rw [← hread start n, h, hread start' m]
  exact ofDraw_injective (String.toList_injective (List.reverse_inj.1 hdraws))

/-- No identifier starts like the label of a persona policy goes on. -/
theorem not_startsWith_policy (n : Nat) : Text.startsWith (ofDraw n) "policy:" = false := by
  rw [← Bool.not_eq_true]
  intro h
  have hmem : 'p' ∈ (ofDraw n).toList := (List.isPrefixOf_iff_prefix.1 h).subset (by decide)
  exact (isPlain_of_mem_ofDraw hmem).ne.2 rfl

end CatalogAccess.Uuid
