import CatalogAccess.Pattern
import CatalogAccess.Proofs.Glob

/-!
# Patterns as globs

Every pattern is accepted as its glob is (`accepts_eq_glob`): the short cuts for the bare wildcard
and for literal text change nothing. So a pattern accepts the texts that can be split along it
(`accepts_iff_describes`). Literal text with wildcards behind it or around it matches what is below the
text or contains it (`accepts_glob_below`, `accepts_glob_containing`). A pattern whose placeholders have
been replaced by the name of the user reads as text with wildcards (`tokens_eq_starTokens`), as long as
the name has no wildcard of its own.
-/

namespace CatalogAccess

namespace Pattern

/-- The tokens of a text in which only the wildcard has a meaning. -/
def starTokens (s : List Char) : Glob := s.map fun c => if c = '*' then .run else .lit c

/-- Without wildcards a text stands for itself. -/
theorem starTokens_of_not_mem {s : List Char} (h : '*' ∉ s) : starTokens s = Glob.ofText s := by
  refine List.map_congr_left fun c hc => ?_
  have hne : c ≠ '*' := fun heq => h (heq ▸ hc)
  rw [if_neg hne]

/-- A character that begins no placeholder is read alone. -/
theorem tokens_cons {c : Char} {pattern : List Char} (h : ¬ placeholder <+: c :: pattern)
    (user : List Char) :
    tokens user (c :: pattern) = (if c = '*' then .run else .lit c) :: tokens user pattern := by
  rw [tokens]
  rintro r rfl rfl
  exact h ⟨r, rfl⟩

/-- The name of the user is put in place of the placeholders on both sides. -/
theorem tokens_eq_starTokens {user : List Char} (h : '*' ∉ user) (s : List Char) :
    tokens user s = starTokens (substitute user s) := by
  fun_induction tokens user s with
  | case1 => rfl
  | case2 r ih =>
    rw [substitute, starTokens, List.map_append, ← starTokens, ← starTokens, ← ih,
      starTokens_of_not_mem h]
  | case3 c r hne ih =>
    rw [substitute, starTokens, List.map_cons, ← starTokens, ← ih]
    exact hne

/-- A pattern without placeholders reads the same for every user. -/
theorem tokens_of_not_hasPlaceholder {s : List Char} (h : hasPlaceholder s = false)
    (user : List Char) : tokens user s = starTokens s := by
  fun_induction tokens user s with
  | case1 => rfl
  | case2 r ih => simp [hasPlaceholder, placeholder, userPlaceholder] at h
  | case3 c r hne ih =>
    rw [hasPlaceholder, Bool.or_eq_false_iff] at h
    rw [starTokens, List.map_cons, ← starTokens, ih h.2]

/-- For a user with the name of the placeholder, placeholders stand for themselves. -/
theorem tokens_placeholder (s : List Char) : tokens placeholder s = starTokens s := by
  fun_induction tokens placeholder s with
  | case1 => rfl
  | case2 r ih => rw [ih]; rfl
  | case3 c r hne ih => rw [ih]; rfl

/-- A placeholder is found where its characters occur. -/
theorem hasPlaceholder_iff {s : List Char} : hasPlaceholder s = true ↔ placeholder <:+: s := by
  induction s with
  | nil => exact iff_of_false Bool.false_ne_true (by decide)
  | cons c r ih =>
    rw [hasPlaceholder, Bool.or_eq_true, List.isPrefixOf_iff_prefix, ih, List.infix_cons_iff]

theorem isLiteral_iff {pattern : String} :
    isLiteral pattern = true ↔ '*' ∉ pattern.toList ∧ hasPlaceholder pattern.toList = false := by
  rw [isLiteral, Bool.and_eq_true, Bool.not_eq_true', Bool.not_eq_true',
    ← Bool.not_eq_true (List.contains _ _), List.contains_iff_mem]

/-- Around a character that placeholders do not have, none is made of what comes before and after. -/
theorem hasPlaceholder_append_cons {c : Char} (hc : c ∉ placeholder) {s t : List Char}
    (hs : hasPlaceholder s = false) (ht : hasPlaceholder t = false) :
    hasPlaceholder (s ++ c :: t) = false := by
  rw [← Bool.not_eq_true, hasPlaceholder_iff] at hs ht ⊢
  -- What starts at the character has it, unless it is empty.
  have hempty : ∀ l, l <+: c :: t → c ∉ l → l = [] := by
    intro l hl hnot
    cases l with
    | nil => rfl
    | cons d l =>
      obtain ⟨rfl, -⟩ := List.cons_prefix_cons.1 hl
      exact absurd List.mem_cons_self hnot
  rw [List.infix_append_iff, List.infix_cons_iff]
  rintro (h | (h | h) | ⟨u, v, huv, hu, hv⟩)
  · exact hs h
  · exact absurd (hempty _ h hc) (by decide)
  · exact ht h
  · obtain rfl := hempty v hv fun hmem => hc (huv ▸ List.mem_append_right u hmem)
    rw [List.append_nil] at huv
    exact hs (huv ▸ hu.isInfix)

/-- The tokens of literal text are its characters, whatever text with wildcards stands behind it. -/
theorem tokens_literal_append {s t : List Char} (hs : '*' ∉ s)
    (hst : hasPlaceholder (s ++ t) = false) (user : List Char) :
    tokens user (s ++ t) = Glob.ofText s ++ starTokens t := by
  rw [tokens_of_not_hasPlaceholder hst, starTokens, List.map_append, ← starTokens, ← starTokens,
    starTokens_of_not_mem hs]

/-- A literal pattern matches its own text and nothing else. -/
theorem glob_of_isLiteral {pattern : String} (h : isLiteral pattern = true) (user : String) :
    glob pattern user = Glob.ofText pattern.toList := by
  obtain ⟨hstar, hplaceholder⟩ := isLiteral_iff.1 h
  rw [glob, tokens_of_not_hasPlaceholder hplaceholder, starTokens_of_not_mem hstar]

/-- Literal text with a slash and a wildcard behind it matches what is below the text. -/
theorem accepts_glob_below {text : String} (h : isLiteral text = true) (user value : String) :
    (glob (text ++ "/*") user).accepts value.toList = true ↔
      (text ++ "/").toList <+: value.toList := by
  obtain ⟨hstar, hplaceholder⟩ := isLiteral_iff.1 h
  have hpattern : (text ++ "/*").toList = (text ++ "/").toList ++ ['*'] := by
    rw [String.toList_append, String.toList_append, List.append_assoc]
    rfl
  have hslash : (text ++ "/").toList = text.toList ++ ['/'] := String.toList_append
  have hbefore : hasPlaceholder (text ++ "/").toList = false := by
    rw [hslash]
    exact hasPlaceholder_append_cons (by decide) hplaceholder rfl
  have hliteral : '*' ∉ (text ++ "/").toList := by
    rw [hslash, List.mem_append, not_or]
    exact ⟨hstar, by decide⟩
  have htokens := tokens_literal_append hliteral (t := ['*'])
    (hasPlaceholder_append_cons (by decide) hbefore rfl) user.toList
  have hrun : starTokens ['*'] = [.run] := rfl
  rw [glob, hpattern, htokens, hrun, Glob.accepts_ofText_run, List.isPrefixOf_iff_prefix]

/-- Literal text between wildcards matches what the text occurs in. -/
theorem accepts_glob_containing {text : String} (h : isLiteral text = true) (user value : String) :
    (glob ("*" ++ text ++ "*") user).accepts value.toList = true ↔
      text.toList <:+: value.toList := by
  obtain ⟨hstar, hplaceholder⟩ := isLiteral_iff.1 h
  have hpattern : ("*" ++ text ++ "*").toList = '*' :: (text.toList ++ ['*']) := by
    rw [String.toList_append, String.toList_append]
    rfl
  have hbehind : hasPlaceholder (text.toList ++ ['*']) = false :=
    hasPlaceholder_append_cons (by decide) hplaceholder rfl
  have htokens := tokens_literal_append hstar hbehind user.toList
  have hplain : ¬ placeholder <+: '*' :: (text.toList ++ ['*']) := fun hname =>
    absurd (List.cons_prefix_cons.1 hname).1 (by decide)
  rw [glob, hpattern, tokens_cons hplain, if_pos rfl, htokens]
  exact Glob.accepts_run_ofText_run ..

/-- A pattern without placeholders has nothing to put the name in place of. -/
theorem substitute_of_not_hasPlaceholder {s : List Char} (h : hasPlaceholder s = false)
    (user : List Char) : substitute user s = s := by
  fun_induction substitute user s with
  | case1 => rfl
  | case2 r ih => simp [hasPlaceholder, placeholder, userPlaceholder] at h
  | case3 c r hne ih =>
    rw [hasPlaceholder, Bool.or_eq_false_iff] at h
    rw [ih h.2]

/-- What a pattern accepts is what its glob accepts. -/
theorem accepts_eq_glob (pattern value user : String) :
    accepts pattern value user = (glob pattern user).accepts value.toList := by
  rw [accepts]
  split
  · next h =>
    -- The bare wildcard is a single run.
    subst h
    have hrun : Glob.Matches (glob wildcard user) value.toList :=
      Glob.matches_run_iff.2 ⟨value.toList, [], by simp, .nil⟩
    exact (Glob.accepts_iff_matches.2 hrun).symm
  · split
    · next h =>
      rw [glob_of_isLiteral h, Glob.accepts_ofText, Bool.eq_iff_iff, beq_iff_eq, beq_iff_eq,
        String.toList_inj]
    · rfl

/-- The text can be split along the pattern: a wildcard stands for any characters, a placeholder for
the name of the user and every other character for itself. A placeholder is read wherever one begins,
so that of overlapping ones the leftmost counts. -/
inductive Describes (user : List Char) : List Char → List Char → Prop
  /-- Where the pattern ends, nothing is left of the text. -/
  | nil : Describes user [] []
  /-- A wildcard takes any characters, none included. -/
  | run {pattern text : List Char} (taken : List Char) (h : Describes user pattern text) :
      Describes user ('*' :: pattern) (taken ++ text)
  /-- A placeholder takes the name of the user. -/
  | name {pattern text : List Char} (h : Describes user pattern text) :
      Describes user (placeholder ++ pattern) (user ++ text)
  /-- Any other character takes itself. -/
  | char {c : Char} {pattern text : List Char} (hrun : c ≠ '*')
      (hname : ¬ placeholder <+: c :: pattern) (h : Describes user pattern text) :
      Describes user (c :: pattern) (c :: text)

/-- A text matches the tokens of a pattern when it can be split along the pattern. -/
theorem matches_tokens_iff {user pattern text : List Char} :
    Glob.Matches (tokens user pattern) text ↔ Describes user pattern text := by
  constructor
  · intro h
    fun_induction tokens user pattern generalizing text with
    | case1 =>
      obtain rfl := Glob.matches_nil_iff.1 h
      exact .nil
    | case2 r ih =>
      obtain ⟨name, rest, rfl, hname, hrest⟩ := Glob.matches_append.1 h
      rw [Glob.matches_ofText_iff.1 hname]
      exact .name (ih hrest)
    | case3 c r hne ih =>
      split at h
      · next hrun =>
        obtain ⟨taken, rest, rfl, hrest⟩ := Glob.matches_run_iff.1 h
        exact hrun ▸ .run taken (ih hrest)
      · next hrun =>
        obtain ⟨rest, rfl, hrest⟩ := Glob.matches_lit_iff.1 h
        refine .char hrun ?_ (ih hrest)
        rintro ⟨rest, hname⟩
        obtain ⟨rfl, rfl⟩ := List.cons.inj hname
        exact hne rest rfl rfl
  · intro h
    induction h with
    | nil => exact .nil
    | run taken h ih =>
      have hplain : ∀ r, ¬ placeholder <+: '*' :: r := fun r hname =>
        absurd (List.cons_prefix_cons.1 hname).1 (by decide)
      rw [tokens_cons (hplain _), if_pos rfl]
      exact .run ih
    | name h ih => exact Glob.matches_append.2 ⟨_, _, rfl, Glob.matches_ofText_iff.2 rfl, ih⟩
    | char hrun hname h ih =>
      rw [tokens_cons hname, if_neg hrun]
      exact .lit ih

/-- A pattern accepts the values that can be split along it. -/
theorem accepts_iff_describes {pattern value user : String} :
    accepts pattern value user = true ↔ Describes user.toList pattern.toList value.toList := by
  rw [accepts_eq_glob, Glob.accepts_iff_matches, glob, matches_tokens_iff]

/-- Whether one of the values matches one of the patterns, by their globs. -/
theorem acceptsAny_iff {patterns values : List String} {user : String} :
    acceptsAny patterns values user = true ↔
      ∃ v ∈ values, ∃ p ∈ patterns, (glob p user).accepts v.toList = true := by
  simp only [acceptsAny, List.any_eq_true, accepts_eq_glob]

/-- Patterns without placeholders accept the same for every user. -/
theorem acceptsAny_of_not_hasPlaceholder {patterns : List String}
    (h : ∀ p ∈ patterns, hasPlaceholder p.toList = false) (values : List String)
    (user other : String) : acceptsAny patterns values user = acceptsAny patterns values other := by
  have hglob : ∀ p ∈ patterns, glob p user = glob p other := by
    intro p hp
    rw [glob, glob, tokens_of_not_hasPlaceholder (h p hp), tokens_of_not_hasPlaceholder (h p hp)]
  rw [Bool.eq_iff_iff, acceptsAny_iff, acceptsAny_iff]
  constructor
  · rintro ⟨v, hv, p, hp, hm⟩
    exact ⟨v, hv, p, hp, hglob p hp ▸ hm⟩
  · rintro ⟨v, hv, p, hp, hm⟩
    exact ⟨v, hv, p, hp, hglob p hp ▸ hm⟩

/-- Only which values there are counts. -/
theorem acceptsAny_congr {patterns vs ws : List String} {user : String}
    (h : ∀ v, v ∈ vs ↔ v ∈ ws) : acceptsAny patterns vs user = acceptsAny patterns ws user := by
  rw [Bool.eq_iff_iff, acceptsAny_iff, acceptsAny_iff]
  simp only [h]

end Pattern

end CatalogAccess
