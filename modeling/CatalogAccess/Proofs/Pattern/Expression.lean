import CatalogAccess.Pattern.Expression
import CatalogAccess.Proofs.Pattern

/-!
# Expressions of patterns are read back

What a pattern is written as compiles to the glob of the pattern (`compile?_expression`), whatever
characters the pattern and the name of the user are made of: escaped text reads as itself
(`tokens?_escape`), and a dot is followed by a star only where the pattern has a wildcard.
-/

namespace CatalogAccess

namespace Expression

/-- A character without a meaning of its own reads as itself. -/
theorem tokens?_cons {c : Char} (h : isMeta c = false) (r : Expression) :
    tokens? (c :: r) = (tokens? r).map (.lit c :: ·) := by
  have hne : ∀ d, isMeta d = true → c ≠ d := by
    rintro d hd rfl
    exact Bool.false_ne_true (h.symm.trans hd)
  rw [tokens?]
  · rw [if_neg (by rw [h]; exact Bool.false_ne_true)]
  · exact fun hclosing _ => hne ')' (by decide) hclosing
  · exact fun _ _ hbackslash _ => hne '\\' (by decide) hbackslash
  · exact fun _ hdot _ => hne '.' (by decide) hdot
  · exact fun hdot => hne '.' (by decide) hdot

theorem escape_cons (c : Char) (text : List Char) : escape (c :: text) = escape [c] ++ escape text := by
  simp only [escape, List.flatMap_cons, List.flatMap_nil, List.append_nil]

/-- An escaped character reads as itself. -/
theorem tokens?_escape_singleton (c : Char) (r : Expression) :
    tokens? (escape [c] ++ r) = (tokens? r).map (.lit c :: ·) := by
  rw [escape, List.flatMap_singleton]
  cases hmeta : isMeta c with
  | true => rw [if_pos rfl, List.cons_append, List.singleton_append, tokens?, if_pos hmeta]
  | false => rw [if_neg Bool.false_ne_true, List.singleton_append, tokens?_cons hmeta]

/-- Escaped text reads as itself. -/
theorem tokens?_escape (text : List Char) (r : Expression) :
    tokens? (escape text ++ r) = (tokens? r).map (Glob.ofText text ++ ·) := by
  induction text with
  | nil => exact (Option.map_id' ..).symm
  | cons c text ih =>
    rw [escape_cons, List.append_assoc, tokens?_escape_singleton, ih, Option.map_map]
    rfl

/-- A dot with a star reads as a run. -/
theorem tokens?_anything (r : Expression) :
    tokens? (anything ++ r) = (tokens? r).map (.run :: ·) := rfl

end Expression

namespace Pattern

open Expression (escape tokens? tokens?_escape tokens?_escape_singleton tokens?_anything)

/-! ### Joining parts -/

section Joining

variable {α β : Type} {f : List α → List β} {l : List (List α)}

/-- A first part joined to the others. -/
theorem intercalate_cons_map (h : l ≠ []) (sep : List β) (p : List α) :
    sep.intercalate ((p :: l).map f) = f p ++ (sep ++ sep.intercalate (l.map f)) := by
  have hne : l.map f ≠ [] := fun hnil => h (List.map_eq_nil_iff.1 hnil)
  rw [List.map_cons, List.intercalate_cons_of_ne_nil hne, List.append_assoc]

/-- What comes before the first part comes before all of them. -/
theorem intercalate_modifyHead (h : l ≠ []) (sep : List β) {a : α} {start : List β}
    (hf : ∀ p, f (a :: p) = start ++ f p) :
    sep.intercalate ((l.modifyHead (a :: ·)).map f) = start ++ sep.intercalate (l.map f) := by
  obtain ⟨p, ps, rfl⟩ := List.exists_cons_of_ne_nil h
  cases ps with
  | nil => simp only [List.modifyHead_cons, List.map_cons, List.map_nil, List.intercalate_singleton, hf]
  | cons q ps =>
    simp only [List.modifyHead_cons, List.map_cons, List.intercalate_cons_cons, hf, List.append_assoc]

end Joining

theorem modifyHead_ne_nil {α : Type} {f : α → α} {l : List α} (h : l ≠ []) : l.modifyHead f ≠ [] := by
  obtain ⟨a, l, rfl⟩ := List.exists_cons_of_ne_nil h
  exact List.cons_ne_nil _ _

theorem pieces_ne_nil (text : List Char) : pieces text ≠ [] := by
  induction text with
  | nil => exact List.cons_ne_nil _ _
  | cons c r ih =>
    rw [pieces]
    split
    · exact List.cons_ne_nil _ _
    · exact modifyHead_ne_nil ih

theorem parts_ne_nil (pattern : List Char) : parts pattern ≠ [] := by
  fun_induction parts pattern with
  | case1 => exact List.cons_ne_nil _ _
  | case2 r ih => exact List.cons_ne_nil _ _
  | case3 c r hne ih => exact modifyHead_ne_nil ih

/-! ### Expressions -/

/-- The expression of a text, character by character. -/
theorem starExpression_cons (c : Char) (r : List Char) :
    starExpression (c :: r) =
      (if c = '*' then Expression.anything else escape [c]) ++ starExpression r := by
  rw [starExpression, pieces]
  split
  · exact intercalate_cons_map (pieces_ne_nil r) _ []
  · exact intercalate_modifyHead (pieces_ne_nil r) _ (Expression.escape_cons c)

/-- The expression of a pattern reads as the tokens of the pattern. -/
theorem tokens?_parts (user pattern : List Char) :
    tokens? ((escape user).intercalate ((parts pattern).map starExpression) ++ Expression.closing) =
      some (tokens user pattern) := by
  fun_induction tokens user pattern with
  | case1 => rfl
  | case2 r ih =>
    have hempty : starExpression [] = [] := rfl
    rw [parts, intercalate_cons_map (parts_ne_nil r), hempty, List.nil_append, List.append_assoc,
      tokens?_escape, ih, Option.map_some]
  | case3 c r hne ih =>
    rw [parts, intercalate_modifyHead (parts_ne_nil r) _ (starExpression_cons c), List.append_assoc]
    · split
      · rw [tokens?_anything, ih, Option.map_some]
      · rw [tokens?_escape_singleton, ih, Option.map_some]
    · exact hne

/-- The expression of a pattern compiles to the glob of the pattern. -/
theorem compile?_expression (pattern user : String) :
    Expression.compile? (expression pattern user) = some (glob pattern user) := by
  have hopening : Expression.opening.isPrefixOf (expression pattern user) = true := by
    rw [List.isPrefixOf_iff_prefix, expression, List.append_assoc]
    exact List.prefix_append _ _
  rw [Expression.compile?, if_pos hopening, expression, List.append_assoc, List.drop_left]
  exact tokens?_parts user.toList pattern.toList

example : String.ofList (expression "home/\x7bUSER\x7d/*" "j.doe") = "^(?s:home/j\\.doe/.*)$" := by decide

end Pattern

end CatalogAccess
