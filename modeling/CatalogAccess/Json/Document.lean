import CatalogAccess.Json

/-!
# JSON documents

A document is a JSON text as it was read, before anything is known about what it should hold: the
members of an object stand in the order of the text, repeated keys included. Where the syntax is
right but no value can be held — a string or key with a lone surrogate, a number beyond the range
of doubles, a list or object nested too deeply — the document is `unreadable` at that place. So a
reader that skips a member skips its defects too, while a reader that keeps it fails.

`Document.parse?` reads a text strictly: no comments, no trailing commas or data, no leading zeros,
no control characters in strings. `Document.value?` is the value of a document, and
`Json.document` the document of a value.
-/

namespace CatalogAccess

/-- A JSON text as it was read. -/
inductive Document where
  /-- The value `null`. -/
  | null
  /-- A truth value. -/
  | bool (b : Bool)
  /-- A number. -/
  | num (n : Json.Number)
  /-- A string. -/
  | str (s : String)
  /-- A list. -/
  | arr (items : List Document)
  /-- An object, with its members in the order of the text; a key can be unreadable. -/
  | obj (members : List (Option String × Document))
  /-- A place whose syntax is right and whose value cannot be held. -/
  | unreadable
deriving Repr, Inhabited

mutual

/-- The document that holds a value. -/
def Json.document : Json → Document
  | .null => .null
  | .bool b => .bool b
  | .num n => .num n
  | .str s => .str s
  | .arr items => .arr (Json.documents items)
  | .obj members => .obj (Json.documentMembers members)

/-- The documents of a list of values. -/
def Json.documents : List Json → List Document
  | [] => []
  | v :: vs => v.document :: Json.documents vs

/-- The members of a document that holds an object. -/
def Json.documentMembers : List (String × Json) → List (Option String × Document)
  | [] => []
  | (k, v) :: ms => (some k, v.document) :: Json.documentMembers ms

end

namespace Document

mutual

/-- The value of a document, when all of it is readable. -/
def value? : Document → Option Json
  | .null => some .null
  | .bool b => some (.bool b)
  | .num n => some (.num n)
  | .str s => some (.str s)
  | .arr items => (values? items).map .arr
  | .obj members => (memberValues? members).map Json.object
  | .unreadable => none

/-- The values of a list of documents. -/
def values? : List Document → Option (List Json)
  | [] => some []
  | d :: ds => do
    let v ← d.value?
    let vs ← values? ds
    return v :: vs

/-- The members of an object in the order of the text. -/
def memberValues? : List (Option String × Document) → Option (List (String × Json))
  | [] => some []
  | (k, d) :: ms => do
    let k ← k
    let v ← d.value?
    let vs ← memberValues? ms
    return (k, v) :: vs

end

/-- The deepest nesting of lists and objects that a value can have. -/
def maxDepth : Nat := 127

/-- The lexical elements of a JSON text. -/
inductive Token where
  /-- An opening brace. -/
  | openObject
  /-- A closing brace. -/
  | closeObject
  /-- An opening bracket. -/
  | openArray
  /-- A closing bracket. -/
  | closeArray
  /-- The colon between key and value. -/
  | colon
  /-- The comma between items. -/
  | comma
  /-- A string; nothing when it holds a lone surrogate. -/
  | str (s : Option String)
  /-- A number or a literal name. -/
  | scalar (d : Document)
deriving Inhabited

/-- The blanks between lexical elements. -/
def isBlank (c : Char) : Bool := c == ' ' || c == '\t' || c == '\n' || c == '\r'

/-- The characters that numbers are made of. -/
def isNumberChar (c : Char) : Bool :=
  c.isDigit || c == '-' || c == '+' || c == '.' || c == 'e' || c == 'E'

/-- The value of a hexadecimal digit. -/
def hexValue? (c : Char) : Option Nat :=
  if c.isDigit then some (c.toNat - 48)
  else if 'a' ≤ c ∧ c ≤ 'f' then some (c.toNat - 87)
  else if 'A' ≤ c ∧ c ≤ 'F' then some (c.toNat - 55)
  else none

/-- The UTF-16 unit of four hexadecimal digits. -/
def unit? (a b c d : Char) : Option Nat := do
  let a ← hexValue? a
  let b ← hexValue? b
  let c ← hexValue? c
  let d ← hexValue? d
  return ((a * 16 + b) * 16 + c) * 16 + d

/-- The character of a two-letter escape. -/
def simpleEscape? (c : Char) : Option Char :=
  match c with
  | '"' => some '"'
  | '\\' => some '\\'
  | '/' => some '/'
  | 'b' => some (Char.ofNat 8)
  | 'f' => some (Char.ofNat 12)
  | 'n' => some '\n'
  | 'r' => some '\r'
  | 't' => some '\t'
  | _ => none

/-- Whether the unit opens a surrogate pair. -/
def isHighSurrogate (u : Nat) : Bool := 0xD800 ≤ u && u < 0xDC00

/-- Whether the unit closes a surrogate pair. -/
def isLowSurrogate (u : Nat) : Bool := 0xDC00 ≤ u && u < 0xE000

/-- What has been read of a string: its characters so far, last first, whether a surrogate stood
alone, and a surrogate that may still be completed to a pair. -/
structure Scan where
  /-- The characters so far, last first. -/
  chars : List Char
  /-- Whether some surrogate stood alone. -/
  broken : Bool
  /-- A high surrogate that has just been read. -/
  pending : Option Nat

/-- Reads one character; a pending surrogate turns out to stand alone. -/
def Scan.push (s : Scan) (c : Char) : Scan := ⟨c :: s.chars, s.broken || s.pending.isSome, none⟩

/-- Reads one UTF-16 unit, which may complete a pair. -/
def Scan.pushUnit (s : Scan) (u : Nat) : Scan :=
  match s.pending, isHighSurrogate u, isLowSurrogate u with
  | some h, _, true =>
    ⟨Char.ofNat (0x10000 + (h - 0xD800) * 1024 + (u - 0xDC00)) :: s.chars, s.broken, none⟩
  | none, _, true => { s with broken := true }
  | p, true, false => ⟨s.chars, s.broken || p.isSome, some u⟩
  | _, false, false => s.push (Char.ofNat u)

/-- The string read, when no surrogate stood alone. -/
def Scan.finish (s : Scan) : Option String :=
  if s.broken || s.pending.isSome then none else some (String.ofList s.chars.reverse)

/-- Reads a string from behind its opening quote: the string and what follows the closing quote. -/
def scanString (s : Scan) : List Char → Option (Option String × List Char)
  | [] => none
  | '"' :: r => some (s.finish, r)
  | '\\' :: 'u' :: a :: b :: c :: d :: r =>
    (unit? a b c d).bind fun u => scanString (s.pushUnit u) r
  | '\\' :: e :: r => (simpleEscape? e).bind fun c => scanString (s.push c) r
  | c :: r => if c.toNat < 32 then none else scanString (s.push c) r

theorem length_of_scanString {s : Scan} {l r : List Char} {t : Option String}
    (h : scanString s l = some (t, r)) : r.length < l.length + 1 := by
  fun_induction scanString s l with
  | case1 => simp at h
  | case2 s r' =>
    simp only [Option.some.injEq, Prod.mk.injEq] at h
    simp only [h.2, List.length_cons]; omega
  | case3 s a b c d r' ih =>
    obtain ⟨u, -, hu⟩ := Option.bind_eq_some_iff.1 h
    have := ih u hu
    simp only [List.length_cons]; omega
  | case4 s e r' _ ih =>
    obtain ⟨u, -, hu⟩ := Option.bind_eq_some_iff.1 h
    have := ih u hu
    simp only [List.length_cons]; omega
  | case5 => simp at h
  | case6 s c r' _ _ _ _ ih =>
    have := ih h
    simp only [List.length_cons]; omega

/-- Decimal digits that are taken into a significand as long as it stays below `2 ^ 64`, and how
many of them were taken. -/
def takeDigits (significand : Nat) : List Char → Nat × Nat
  | [] => (significand, 0)
  | c :: cs =>
    let next := significand * 10 + (c.toNat - 48)
    if next < Nat.pow 2 64 then
      let r := takeDigits next cs
      (r.1, r.2 + 1)
    else (significand, 0)

/-- The sign, the digits before the point, those behind it and the exponent of a number's text;
nothing when the text is no number. -/
def splitNumber? (text : List Char) :
    Option (Bool × List Char × Option (List Char) × Option Int) :=
  let negative := text.head? == some '-'
  let unsigned := if negative then text.drop 1 else text
  let whole := unsigned.takeWhile Char.isDigit
  let rest := unsigned.dropWhile Char.isDigit
  let leadingZero := whole.head? == some '0' && 1 < whole.length
  let hasFraction := rest.head? == some '.'
  let fraction := (rest.drop 1).takeWhile Char.isDigit
  let rest := if hasFraction then (rest.drop 1).dropWhile Char.isDigit else rest
  let hasExponent := rest.head? == some 'e' || rest.head? == some 'E'
  let signed := rest.drop 1
  let exponentDigits :=
    if signed.head? == some '-' || signed.head? == some '+' then signed.drop 1 else signed
  let exponentValue := (exponentDigits.foldl (fun n c => n * 10 + (c.toNat - 48)) 0 : Nat)
  let exponent : Int := if signed.head? == some '-' then -exponentValue else exponentValue
  if whole.isEmpty || leadingZero || (hasFraction && fraction.isEmpty) then none
  else if hasExponent then
    if exponentDigits.isEmpty || !exponentDigits.all Char.isDigit then none
    else some (negative, whole, if hasFraction then some fraction else none, some exponent)
  else if rest.isEmpty then
    some (negative, whole, if hasFraction then some fraction else none, none)
  else none

/-- Reads the text of a number. An integer stays exact when it fits 64 bits, and the sign of zero
makes it a double. The digits beyond a significand of 64 bits are dropped: those before the point
count for the exponent. -/
def number? (text : List Char) : Option Document :=
  (splitNumber? text).map fun (negative, whole, fraction, exponent) =>
    let (integer, taken) := takeDigits 0 whole
    -- digits before the point that found no room in the significand
    let dropped := whole.length - taken
    let isInteger := fraction.isNone && exponent.isNone && dropped = 0
    if isInteger && !negative then .num (.int integer)
    else if isInteger && negative && 0 < integer && integer ≤ Nat.pow 2 63 then
      .num (.int (-(integer : Int)))
    else
      let (significand, fractionTaken) := takeDigits integer (fraction.getD [])
      let scale := (dropped : Int) - fractionTaken + exponent.getD 0
      match Binary64.ofDecimal? negative significand scale with
      | some x => .num (.double x)
      | none => .unreadable

/-- The literal names. -/
def literal? (text : List Char) : Option Document :=
  if text = ['n', 'u', 'l', 'l'] then some .null
  else if text = ['t', 'r', 'u', 'e'] then some (.bool true)
  else if text = ['f', 'a', 'l', 's', 'e'] then some (.bool false)
  else none

/-- The lexical elements of a text. -/
def tokens? : List Char → Option (List Token)
  | [] => some []
  | c :: r =>
    if isBlank c then tokens? r
    else if c = '\x7b' then (tokens? r).map (.openObject :: ·)
    else if c = '\x7d' then (tokens? r).map (.closeObject :: ·)
    else if c = '[' then (tokens? r).map (.openArray :: ·)
    else if c = ']' then (tokens? r).map (.closeArray :: ·)
    else if c = ':' then (tokens? r).map (.colon :: ·)
    else if c = ',' then (tokens? r).map (.comma :: ·)
    else if c = '"' then
      match _h : scanString ⟨[], false, none⟩ r with
      | none => none
      | some (s, rest) => (tokens? rest).map (.str s :: ·)
    else if c.isDigit || c == '-' then
      (number? (c :: r.takeWhile isNumberChar)).bind fun d =>
        (tokens? (r.dropWhile isNumberChar)).map (.scalar d :: ·)
    else
      (literal? (c :: r.takeWhile Char.isAlpha)).bind fun d =>
        (tokens? (r.dropWhile Char.isAlpha)).map (.scalar d :: ·)
termination_by l => l.length
decreasing_by
  all_goals first
    | exact Nat.lt_succ_self _
    | exact length_of_scanString ‹_›
    | exact Nat.lt_succ_of_le (List.dropWhile_sublist _).length_le

/-- A list or object that has been opened and not yet closed. -/
inductive Frame where
  /-- A list with its items so far, last first. -/
  | items (done : List Document)
  /-- An object with its members so far, last first, and the key of the value being read. -/
  | members (done : List (Option String × Document)) (key : Option String)

/-- What may follow at a point of a text. -/
inductive Expected where
  /-- A value. -/
  | value
  /-- A value or the end of the list. -/
  | firstItem
  /-- A key or the end of the object. -/
  | firstKey
  /-- A key. -/
  | key
  /-- A colon. -/
  | colon
  /-- A comma or the end of the innermost list or object. -/
  | separator
  /-- Nothing: the document is complete. -/
  | nothing (result : Document)

/-- A point of a text: the open lists and objects, innermost first, and what may follow. -/
structure Reading where
  /-- The open lists and objects, innermost first. -/
  frames : List Frame
  /-- How many are open. -/
  depth : Nat
  /-- What may follow. -/
  expected : Expected

namespace Reading

/-- The point before a document. -/
def start : Reading := ⟨[], 0, .value⟩

/-- The point behind a value. -/
def complete (frames : List Frame) (depth : Nat) (d : Document) : Reading :=
  match frames with
  | [] => ⟨[], 0, .nothing d⟩
  | .items done :: rest => ⟨.items (d :: done) :: rest, depth, .separator⟩
  | .members done key :: rest => ⟨.members ((key, d) :: done) none :: rest, depth, .separator⟩

/-- A list or object that is closed at a depth: unreadable when nested too deeply. -/
def held (depth : Nat) (d : Document) : Document := if maxDepth < depth then .unreadable else d

/-- The point behind a lexical element that starts a value. -/
def beginValue (r : Reading) : Token → Option Reading
  | .openObject => some ⟨.members [] none :: r.frames, r.depth + 1, .firstKey⟩
  | .openArray => some ⟨.items [] :: r.frames, r.depth + 1, .firstItem⟩
  | .str (some s) => some (complete r.frames r.depth (.str s))
  | .str none => some (complete r.frames r.depth .unreadable)
  | .scalar d => some (complete r.frames r.depth d)
  | _ => none

/-- The point behind the end of the innermost list or object. -/
def close (r : Reading) : Token → Option Reading
  | .closeArray =>
    match r.frames with
    | .items done :: rest => some (complete rest (r.depth - 1) (held r.depth (.arr done.reverse)))
    | _ => none
  | .closeObject =>
    match r.frames with
    | .members done _ :: rest =>
      some (complete rest (r.depth - 1) (held r.depth (.obj done.reverse)))
    | _ => none
  | _ => none

/-- The point behind a key. -/
def readKey (r : Reading) : Token → Option Reading
  | .str key =>
    match r.frames with
    | .members done _ :: rest => some ⟨.members done key :: rest, r.depth, .colon⟩
    | _ => none
  | _ => none

/-- The point behind a comma. -/
def next (r : Reading) : Token → Option Reading
  | .comma =>
    match r.frames with
    | .items _ :: _ => some { r with expected := .value }
    | .members _ _ :: _ => some { r with expected := .key }
    | [] => none
  | _ => none

/-- The point behind one more lexical element. -/
def step (r : Reading) (t : Token) : Option Reading :=
  match r.expected with
  | .value => r.beginValue t
  | .firstItem => (r.close t).or (r.beginValue t)
  | .firstKey => (r.close t).or (r.readKey t)
  | .key => r.readKey t
  | .colon => match t with
    | .colon => some { r with expected := .value }
    | _ => none
  | .separator => (r.close t).or (r.next t)
  | .nothing _ => none

/-- The document, when it is complete. -/
def result? (r : Reading) : Option Document :=
  match r.expected with
  | .nothing d => some d
  | _ => none

end Reading

/-- Reads a JSON text. -/
def parse? (text : String) : Option Document := do
  let ts ← tokens? text.toList
  let r ← ts.foldlM Reading.step Reading.start
  r.result?

end Document

/-- Reads a JSON text as a value, all of which is kept. -/
def Json.parse? (text : String) : Option Json := (Document.parse? text).bind Document.value?

end CatalogAccess
