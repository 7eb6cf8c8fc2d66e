import CatalogAccess.Toml.Scalar

/-!
# Lexical elements of TOML documents

`Toml.tokens?` cuts a text into its lexical elements. Words are cut out whole and told apart later,
for what is a date as a value is a name as a key. Comments and blanks are dropped, and the two ways
to end a line count as one.
-/

namespace CatalogAccess.Toml

/-- The lexical elements of a TOML text. -/
inductive Token where
  /-- A name, or a value without quotes. -/
  | word (chars : List Char)
  /-- A string on one line. -/
  | str (s : String)
  /-- A string in triple quotes. -/
  | text (s : String)
  /-- The sign between key and value. -/
  | equals
  /-- The comma between items. -/
  | comma
  /-- An opening bracket, and whether another one follows at once. -/
  | openBracket (double : Bool)
  /-- A closing bracket, and whether another one follows at once. -/
  | closeBracket (double : Bool)
  /-- An opening brace. -/
  | openBrace
  /-- A closing brace. -/
  | closeBrace
  /-- The end of a line. -/
  | newline

/-- A text whose lines all end with a line feed alone. -/
def unifyLines : List Char → List Char
  | '\r' :: '\n' :: r => '\n' :: unifyLines r
  | c :: r => c :: unifyLines r
  | [] => []

/-- Blanks within a line. -/
def isBlank (c : Char) : Bool := c == ' ' || c == '\t'

/-- Characters that comments and strings can hold: all but control characters, tabs excepted. -/
def isTextChar (c : Char) : Bool := c == '\t' || (32 ≤ c.toNat && c.toNat != 127)

/-- The characters of words. -/
def isWordChar (c : Char) : Bool := c.isAlphanum || ['_', '-', '+', '.', ':'].contains c

/-- The character of a one-letter escape. -/
def simpleEscape? (c : Char) : Option Char := if c = '/' then none else Document.simpleEscape? c

/-- The character of a hexadecimal code point; surrogates are none. -/
def codePoint? (digits : List Char) : Option Char :=
  if digits.all fun c => (Document.hexValue? c).isSome then
    let n := ofDigits 16 digits
    if h : n.isValidChar then some (Char.ofNatAux n h) else none
  else none

/-- Reads an escape from behind its backslash: the character and what follows. -/
def scanEscape? : List Char → Option (Char × List Char)
  | [] => none
  | c :: r =>
    if c = 'u' then
      if r.length < 4 then none else (codePoint? (r.take 4)).map fun c => (c, r.drop 4)
    else if c = 'U' then
      if r.length < 8 then none else (codePoint? (r.take 8)).map fun c => (c, r.drop 8)
    else (simpleEscape? c).map fun c => (c, r)

theorem length_of_scanEscape? {l r : List Char} {c : Char} (h : scanEscape? l = some (c, r)) :
    r.length < l.length := by
  unfold scanEscape? at h
  split at h
  · simp at h
  · rename_i d rest
    split at h
    · split at h
      · simp at h
      · obtain ⟨_, -, hr⟩ := Option.map_eq_some_iff.1 h
        simp only [Prod.mk.injEq] at hr
        rw [← hr.2]; simp only [List.length_drop, List.length_cons]; omega
    · split at h
      · split at h
        · simp at h
        · obtain ⟨_, -, hr⟩ := Option.map_eq_some_iff.1 h
          simp only [Prod.mk.injEq] at hr
          rw [← hr.2]; simp only [List.length_drop, List.length_cons]; omega
      · obtain ⟨_, -, hr⟩ := Option.map_eq_some_iff.1 h
        simp only [Prod.mk.injEq] at hr
        rw [← hr.2]; simp

/-- What follows a backslash that folds lines: the blanks and line ends behind it are skipped, of
which the first line end must stand on the same line. -/
def skipFold? (r : List Char) : Option (List Char) :=
  let rest := r.dropWhile isBlank
  if rest.head? = some '\n' then some (rest.dropWhile fun c => isBlank c || c == '\n') else none

theorem length_of_skipFold? {l r : List Char} (h : skipFold? l = some r) :
    r.length ≤ l.length := by
  unfold skipFold? at h
  dsimp only at h
  split at h
  · simp only [Option.some.injEq] at h
    subst h
    exact Nat.le_trans (List.dropWhile_sublist _).length_le (List.dropWhile_sublist _).length_le
  · simp at h

/-- Reads a string on one line from behind its opening quote: the string and what follows the
closing quote. The characters so far come last first. -/
def scanString (done : List Char) : List Char → Option (String × List Char)
  | [] => none
  | '"' :: r => some (String.ofList done.reverse, r)
  | '\\' :: r =>
    match _h : scanEscape? r with
    | none => none
    | some (c, rest) => scanString (c :: done) rest
  | c :: r => if isTextChar c then scanString (c :: done) r else none
termination_by l => l.length
decreasing_by
  · have := length_of_scanEscape? _h; simp only [List.length_cons]; omega
  · simp

/-- Reads a string in triple quotes from behind the opening quotes. Up to two quotes more may stand
before the closing ones. -/
def scanText (done : List Char) : List Char → Option (String × List Char)
  | [] => none
  | '"' :: '"' :: '"' :: '"' :: '"' :: r => some (String.ofList ('"' :: '"' :: done).reverse, r)
  | '"' :: '"' :: '"' :: '"' :: r => some (String.ofList ('"' :: done).reverse, r)
  | '"' :: '"' :: '"' :: r => some (String.ofList done.reverse, r)
  | '\\' :: r =>
    match _h : skipFold? r with
    | some rest => scanText done rest
    | none =>
      match _h' : scanEscape? r with
      | none => none
      | some (c, rest) => scanText (c :: done) rest
  | c :: r => if isTextChar c || c == '\n' then scanText (c :: done) r else none
termination_by l => l.length
decreasing_by
  · have := length_of_skipFold? _h; simp only [List.length_cons]; omega
  · have := length_of_scanEscape? _h'; simp only [List.length_cons]; omega
  · simp

/-- Reads a string without escapes in triple quotes from behind the opening quotes. -/
def scanLiteralText (done : List Char) : List Char → Option (String × List Char)
  | [] => none
  | '\'' :: '\'' :: '\'' :: '\'' :: '\'' :: r =>
    some (String.ofList ('\'' :: '\'' :: done).reverse, r)
  | '\'' :: '\'' :: '\'' :: '\'' :: r => some (String.ofList ('\'' :: done).reverse, r)
  | '\'' :: '\'' :: '\'' :: r => some (String.ofList done.reverse, r)
  | c :: r => if isTextChar c || c == '\n' then scanLiteralText (c :: done) r else none

/-- Reads a string without escapes on one line from behind its opening quote. -/
def scanLiteral (done : List Char) : List Char → Option (String × List Char)
  | [] => none
  | '\'' :: r => some (String.ofList done.reverse, r)
  | c :: r => if isTextChar c then scanLiteral (c :: done) r else none

/-- A text without the line end that it starts with. -/
def dropNewline : List Char → List Char
  | '\n' :: r => r
  | r => r

/-- Reads a string of any sort from its opening quote on. -/
def scanQuoted? : List Char → Option (Token × List Char)
  | '"' :: '"' :: '"' :: r => (scanText [] (dropNewline r)).map fun s => (.text s.1, s.2)
  | '\'' :: '\'' :: '\'' :: r => (scanLiteralText [] (dropNewline r)).map fun s => (.text s.1, s.2)
  | '"' :: r => (scanString [] r).map fun s => (.str s.1, s.2)
  | '\'' :: r => (scanLiteral [] r).map fun s => (.str s.1, s.2)
  | _ => none

/-- Cuts a word off a text that starts with it. A date takes the time behind one space along. -/
def scanWord (l : List Char) : List Char × List Char :=
  let word := l.takeWhile isWordChar
  let rest := l.dropWhile isWordChar
  if isDate word && rest.head? == some ' ' && (rest.drop 1).head?.any Char.isDigit then
    (word ++ ' ' :: (rest.drop 1).takeWhile isWordChar, (rest.drop 1).dropWhile isWordChar)
  else (word, rest)

/-- The lexical element that is a single character. -/
def mark? (c : Char) (next : Option Char) : Option Token :=
  match c with
  | '\n' => some .newline
  | '=' => some .equals
  | ',' => some .comma
  | '[' => some (.openBracket (next == some '['))
  | ']' => some (.closeBracket (next == some ']'))
  | '\x7b' => some .openBrace
  | '\x7d' => some .closeBrace
  | _ => none

/-- The next lexical element, if it is not blank, and what follows it. -/
def nextToken? : List Char → Option (Option Token × List Char)
  | [] => none
  | c :: r =>
    if isBlank c then some (none, r)
    else if c = '#' then
      if (r.takeWhile (· ≠ '\n')).all isTextChar then some (none, r.dropWhile (· ≠ '\n'))
      else none
    else if isWordChar c then
      let w := scanWord (c :: r)
      some (some (.word w.1), w.2)
    else if c = '"' ∨ c = '\'' then (scanQuoted? (c :: r)).map fun s => (some s.1, s.2)
    else (mark? c r.head?).map fun t => (some t, r)

/-- The lexical elements of a text. Each takes up a character at least. -/
def tokensWithin : Nat → List Char → Option (List Token)
  | _, [] => some []
  | 0, _ :: _ => none
  | fuel + 1, l =>
    (nextToken? l).bind fun (t, rest) => (tokensWithin fuel rest).map (t.toList ++ ·)

/-- The lexical elements of a text. A byte order mark may come first. -/
def tokens? (text : String) : Option (List Token) :=
  let chars := unifyLines text.toList
  let chars := if chars.head? = some (Char.ofNat 0xFEFF) then chars.drop 1 else chars
  tokensWithin chars.length chars

end CatalogAccess.Toml
