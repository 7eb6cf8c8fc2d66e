import CatalogAccess.Query

/-!
# Globs as splittings of a text

`Glob.Matches` says that a text can be split along the tokens of a glob, with any characters for a
run and the character itself for a literal. `accepts_iff_matches` shows that `Glob.accepts`, which
works on all suffixes of the text at once, decides it. What a glob made of two parts matches is then
a matter of cutting the text in two (`matches_append`), and a literal start or end of a text is a
glob with a run behind or before it.

`expressionTokens_escapeWhere` reads a text back from its escaped form in a wildcard expression.
-/

namespace CatalogAccess

/-- The text can be split along the tokens of the glob. -/
inductive Glob.Matches : Glob → List Char → Prop where
  /-- Without tokens nothing is left of the text. -/
  | nil : Matches [] []
  /-- A literal takes the character itself. -/
  | lit {c : Char} {g : Glob} {s : List Char} : Matches g s → Matches (.lit c :: g) (c :: s)
  /-- The token for one character takes any. -/
  | one {c : Char} {g : Glob} {s : List Char} : Matches g s → Matches (.one :: g) (c :: s)
  /-- A run takes any characters, none included. -/
  | run {r : List Char} {g : Glob} {s : List Char} : Matches g s → Matches (.run :: g) (r ++ s)

namespace Glob

/-! ### All suffixes at once -/

/-- The empty text is its only suffix. -/
theorem matchSuffixes_nil (g : Glob) : matchSuffixes g [] = [accepts g []] := by
  unfold accepts
  induction g with
  | nil => rfl
  | cons t g ih =>
    cases t with
    | run => rw [matchSuffixes, ih]; rfl
    | one => rw [matchSuffixes, ih]; rfl
    | lit c => rfl

/-- The flag for the whole text comes first, and the others are those of the text without its first
character. -/
theorem matchSuffixes_cons (g : Glob) (c : Char) (s : List Char) :
    matchSuffixes g (c :: s) = accepts g (c :: s) :: matchSuffixes g s := by
  unfold accepts
  induction g generalizing c s with
  | nil => rfl
  | cons t g ih =>
    -- The tokens that take a character drop the first flag of the rest, so there must be one.
    obtain ⟨b, l, hs⟩ : ∃ b l, matchSuffixes g s = b :: l := by
      cases s with
      | nil => exact ⟨_, _, matchSuffixes_nil g⟩
      | cons d s => exact ⟨_, _, ih d s⟩
    have hc := ih c s
    generalize (matchSuffixes g (c :: s)).headD false = a at hc
    cases t with
    | run => rw [matchSuffixes, matchSuffixes, hc]; rfl
    | one => rw [matchSuffixes, matchSuffixes, hc, hs]; rfl
    | lit x => rw [matchSuffixes, matchSuffixes, hc, hs]; rfl

theorem accepts_run_nil (g : Glob) : accepts (.run :: g) [] = accepts g [] := by
  rw [accepts, matchSuffixes, matchSuffixes_nil]
  exact Bool.or_false _

/-- A run stops before the first character or takes it. -/
theorem accepts_run_cons (g : Glob) (c : Char) (s : List Char) :
    accepts (.run :: g) (c :: s) = (accepts g (c :: s) || accepts (.run :: g) s) := by
  rw [accepts, matchSuffixes, matchSuffixes_cons]
  rfl

theorem accepts_one_nil (g : Glob) : accepts (.one :: g) [] = false := by
  rw [accepts, matchSuffixes, matchSuffixes_nil]
  rfl

theorem accepts_one_cons (g : Glob) (c : Char) (s : List Char) :
    accepts (.one :: g) (c :: s) = accepts g s := by
  rw [accepts, matchSuffixes, matchSuffixes_cons, List.tail_cons, accepts]
  cases s with
  | nil => rw [matchSuffixes_nil]; rfl
  | cons d s => rw [matchSuffixes_cons]; rfl

theorem accepts_lit_nil (x : Char) (g : Glob) : accepts (.lit x :: g) [] = false := rfl

theorem accepts_lit_cons (x : Char) (g : Glob) (c : Char) (s : List Char) :
    accepts (.lit x :: g) (c :: s) = (x == c && accepts g s) := by
  rw [accepts, matchSuffixes, matchSuffixes_cons, List.tail_cons, accepts]
  cases s with
  | nil => rw [matchSuffixes_nil, Bool.beq_comm]; rfl
  | cons d s => rw [matchSuffixes_cons, Bool.beq_comm]; rfl

/-! ### Splittings -/

theorem matches_nil_iff {s : List Char} : Matches [] s ↔ s = [] :=
  ⟨fun h => by cases h; rfl, fun h => h ▸ .nil⟩

/-- What a run leaves over is a suffix of the text. -/
theorem matches_run_iff {g : Glob} {s : List Char} :
    Matches (.run :: g) s ↔ ∃ r t, s = r ++ t ∧ Matches g t := by
  constructor
  · intro h
    cases h with
    | run h => exact ⟨_, _, rfl, h⟩
  · rintro ⟨r, t, rfl, h⟩
    exact .run h

theorem matches_lit_iff {x : Char} {g : Glob} {s : List Char} :
    Matches (.lit x :: g) s ↔ ∃ t, s = x :: t ∧ Matches g t := by
  constructor
  · intro h
    cases h with
    | lit h => exact ⟨_, rfl, h⟩
  · rintro ⟨t, rfl, h⟩
    exact .lit h

theorem matches_one_iff {g : Glob} {s : List Char} :
    Matches (.one :: g) s ↔ ∃ c t, s = c :: t ∧ Matches g t := by
  constructor
  · intro h
    cases h with
    | one h => exact ⟨_, _, rfl, h⟩
  · rintro ⟨c, t, rfl, h⟩
    exact .one h

/-- `accepts` decides whether the text can be split along the glob. -/
theorem accepts_iff_matches {g : Glob} {s : List Char} : accepts g s = true ↔ Matches g s := by
  induction g generalizing s with
  | nil => cases s <;> simp [matches_nil_iff, accepts, matchSuffixes]
  | cons t g ih =>
    cases t with
    | run =>
      -- A run may go on for as long as the text does, so the text is taken apart as well.
      rw [matches_run_iff]
      induction s with
      | nil =>
        rw [accepts_run_nil, ih]
        constructor
        · intro h
          exact ⟨[], [], rfl, h⟩
        · rintro ⟨r, t, hrt, h⟩
          obtain ⟨rfl, rfl⟩ := List.append_eq_nil_iff.1 hrt.symm
          exact h
      | cons c s ihs =>
        rw [accepts_run_cons, Bool.or_eq_true, ih, ihs]
        constructor
        -- The run takes nothing, or the first character and what it takes of the others.
        · rintro (h | ⟨r, t, rfl, h⟩)
          · exact ⟨[], _, rfl, h⟩
          · exact ⟨c :: r, t, rfl, h⟩
        · rintro ⟨r, t, hrt, h⟩
          cases r with
          | nil => exact .inl (by rw [List.nil_append] at hrt; exact hrt ▸ h)
          | cons d r =>
            obtain ⟨-, rfl⟩ := List.cons.inj hrt
            exact .inr ⟨r, t, rfl, h⟩
    | one =>
      cases s with
      | nil => simp [matches_one_iff, accepts_one_nil]
      | cons c s =>
        rw [accepts_one_cons, ih, matches_one_iff]
        exact ⟨fun h => ⟨c, s, rfl, h⟩, fun ⟨_, _, hcs, h⟩ => (List.cons.inj hcs).2 ▸ h⟩
    | lit x =>
      cases s with
      | nil => simp [matches_lit_iff, accepts_lit_nil]
      | cons c s =>
        rw [accepts_lit_cons, Bool.and_eq_true, beq_iff_eq, ih, matches_lit_iff]
        constructor
        · rintro ⟨rfl, h⟩
          exact ⟨s, rfl, h⟩
        · rintro ⟨t, hcs, h⟩
          obtain ⟨rfl, rfl⟩ := List.cons.inj hcs
          exact ⟨rfl, h⟩

/-- A glob made of two parts matches what is made of a match of each. -/
theorem matches_append {g h : Glob} {s : List Char} :
    Matches (g ++ h) s ↔ ∃ t u, s = t ++ u ∧ Matches g t ∧ Matches h u := by
  constructor
  · intro hs
    -- Along the first part, which gives up its tokens together with what they took.
    induction g generalizing s with
    | nil => exact ⟨[], s, rfl, .nil, hs⟩
    | cons t g ih =>
      cases hs with
      | lit hs =>
        obtain ⟨t, u, rfl, ht, hu⟩ := ih hs
        exact ⟨_, u, rfl, .lit ht, hu⟩
      | one hs =>
        obtain ⟨t, u, rfl, ht, hu⟩ := ih hs
        exact ⟨_, u, rfl, .one ht, hu⟩
      | run hs =>
        obtain ⟨t, u, rfl, ht, hu⟩ := ih hs
        exact ⟨_, u, (List.append_assoc ..).symm, .run ht, hu⟩
  · rintro ⟨t, u, rfl, ht, hu⟩
    -- Along the splitting of the first text, with the second one behind it.
    induction ht with
    | nil => exact hu
    | lit _ ih => exact .lit ih
    | one _ ih => exact .one ih
    | run _ ih => rw [List.append_assoc]; exact .run ih

/-- The glob of a text matches that text only. -/
theorem matches_ofText_iff {t s : List Char} : Matches (ofText t) s ↔ s = t := by
  induction t generalizing s with
  | nil => exact matches_nil_iff
  | cons c t ih =>
    show Matches (.lit c :: ofText t) s ↔ _
    simp [matches_lit_iff, ih]

theorem accepts_ofText (t s : List Char) : accepts (ofText t) s = (t == s) := by
  rw [Bool.eq_iff_iff, accepts_iff_matches, matches_ofText_iff, beq_iff_eq, eq_comm]

/-- A text with a run behind it matches what starts with the text. -/
theorem accepts_ofText_run (t s : List Char) :
    accepts (ofText t ++ [.run]) s = t.isPrefixOf s := by
  rw [Bool.eq_iff_iff, accepts_iff_matches, matches_append, List.isPrefixOf_iff_prefix]
  constructor
  · rintro ⟨u, r, rfl, hu, -⟩
    exact ⟨r, by rw [matches_ofText_iff.1 hu]⟩
  · rintro ⟨r, rfl⟩
    exact ⟨t, r, rfl, matches_ofText_iff.2 rfl, matches_run_iff.2 ⟨r, [], by simp, .nil⟩⟩

/-- A text between two runs matches what the text occurs in. -/
theorem accepts_run_ofText_run (t s : List Char) :
    accepts (.run :: (ofText t ++ [.run])) s = true ↔ t <:+: s := by
  rw [accepts_iff_matches, matches_run_iff]
  simp only [← accepts_iff_matches, accepts_ofText_run, List.isPrefixOf_iff_prefix]
  constructor
  · rintro ⟨r, u, rfl, ⟨v, rfl⟩⟩
    exact ⟨r, v, List.append_assoc ..⟩
  · rintro ⟨r, v, rfl⟩
    exact ⟨r, t ++ v, List.append_assoc .., v, rfl⟩

/-- A text with a run before it matches what ends with the text. -/
theorem accepts_run_ofText (t s : List Char) :
    accepts (.run :: ofText t) s = t.isSuffixOf s := by
  rw [Bool.eq_iff_iff, accepts_iff_matches, matches_run_iff, List.isSuffixOf_iff_suffix]
  constructor
  · rintro ⟨r, u, rfl, hu⟩
    exact ⟨r, by rw [matches_ofText_iff.1 hu]⟩
  · rintro ⟨r, rfl⟩
    exact ⟨r, t, rfl, matches_ofText_iff.2 rfl⟩

end Glob

namespace Query

/-! ### Wildcard expressions -/

/-- The token of a character of a text that is written into a wildcard expression with a backslash
before the characters that pass the test. -/
def escapedToken (special : Char → Bool) (c : Char) : Glob.Token :=
  if special c then .lit c else if c = '*' then .run else if c = '?' then .one else .lit c

/-- A character without a meaning of its own reads as one token. -/
theorem expressionTokens_cons {c : Char} (h : c ≠ '\\') (r : List Char) :
    expressionTokens (c :: r) =
      (if c = '*' then .run else if c = '?' then .one else .lit c) :: expressionTokens r := by
  rw [expressionTokens]
  · intro hc _
    exact h hc
  · intro d s hc _
    exact h hc

/-- A text written into a wildcard expression reads as the tokens of its characters, when
backslashes are among those that are escaped. -/
theorem expressionTokens_escape {special : Char → Bool} (h : special '\\' = true)
    (s rest : List Char) :
    expressionTokens ((s.flatMap fun c => if special c then ['\\', c] else [c]) ++ rest) =
      s.map (escapedToken special) ++ expressionTokens rest := by
  induction s with
  | nil => rfl
  | cons c s ih =>
    rw [List.flatMap_cons, List.append_assoc, List.map_cons, List.cons_append]
    by_cases hc : special c = true
    · rw [if_pos hc, List.cons_append, List.cons_append, List.nil_append, expressionTokens, ih,
        escapedToken, if_pos hc]
    -- What is not escaped is no backslash, and keeps the meaning it has.
    · have hne : c ≠ '\\' := fun heq => hc (heq ▸ h)
      rw [if_neg hc, List.cons_append, List.nil_append, expressionTokens_cons hne, ih,
        escapedToken, if_neg hc]

/-- The tokens of an escaped text with an expression behind it. -/
theorem expressionTokens_escapeWhere (special : Char → Bool) (h : special '\\' = true)
    (s rest : String) :
    expressionTokens (escapeWhere special s ++ rest).toList =
      s.toList.map (escapedToken special) ++ expressionTokens rest.toList := by
  rw [String.toList_append, escapeWhere, String.toList_ofList]
  exact expressionTokens_escape h s.toList rest.toList

end Query

end CatalogAccess
