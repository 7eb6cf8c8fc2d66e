import CatalogAccess.Json.Document

/-!
# Scalars of TOML documents

A value that is not quoted is written as one word: a truth value, an integer, a number with a
fraction or an exponent, or a date and time. `Toml.scalar?` reads a word.

Fractions are checked and not kept, as nothing that is read from TOML is a fraction. A date and time
stands for an object without members.
-/

namespace CatalogAccess.Toml

/-- The parts of a text between separators. -/
def split (separator : Char) : List Char → List (List Char)
  | [] => [[]]
  | c :: cs =>
    match split separator cs with
    | [] => [[c]]
    | part :: parts => if c = separator then [] :: part :: parts else (c :: part) :: parts

/-- Digits, with single underscores between them, as the digits alone. -/
def digits? (isDigit : Char → Bool) (text : List Char) : Option (List Char) :=
  let groups := split '_' text
  if groups.all fun g => !g.isEmpty && g.all isDigit then some groups.flatten else none

/-- The number that digits of a base stand for. -/
def ofDigits (base : Nat) (digits : List Char) : Nat :=
  digits.foldl (fun n c => n * base + (Document.hexValue? c).getD 0) 0

/-- Whether the text starts with a minus sign, and what follows the sign. -/
def splitSign : List Char → Bool × List Char
  | '-' :: r => (true, r)
  | '+' :: r => (false, r)
  | r => (false, r)

/-- Decimal digits without superfluous zeros in front. -/
def decimal? (text : List Char) : Option (List Char) :=
  (digits? Char.isDigit text).filter fun ds => ds.length = 1 || ds.head? != some '0'

/-- The integer, when it fits 64 bits with a sign. -/
def signed64? (n : Int) : Option Int :=
  if -9223372036854775808 ≤ n ∧ n ≤ 9223372036854775807 then some n else none

/-- Reads an integer in decimal notation, or without sign in another base. -/
def integer? : List Char → Option Int
  | '0' :: 'x' :: r =>
    (digits? (fun c => (Document.hexValue? c).isSome) r).bind fun ds => signed64? (ofDigits 16 ds)
  | '0' :: 'o' :: r =>
    (digits? (fun c => '0' ≤ c && c ≤ '7') r).bind fun ds => signed64? (ofDigits 8 ds)
  | '0' :: 'b' :: r =>
    (digits? (fun c => c == '0' || c == '1') r).bind fun ds => signed64? (ofDigits 2 ds)
  | text =>
    let (negative, unsigned) := splitSign text
    (decimal? unsigned).bind fun ds =>
      let n : Int := ofDigits 10 ds
      signed64? (if negative then -n else n)

/-- Whether `digits * 10 ^ exponent` lies in the range of doubles. Numbers far below or far above
its end are told from their length. -/
def isInRange (digits : List Char) (exponent : Int) : Bool :=
  let significant := digits.dropWhile (· == '0')
  let magnitude := exponent + significant.length
  significant.isEmpty || magnitude < 300 || (magnitude < 320 &&
    (Binary64.ofRatio? (ofDigits 10 significant * Nat.pow 10 exponent.toNat)
      (Nat.pow 10 (-exponent).toNat)).isSome)

/-- Whether the word is a number with a fraction or an exponent. One that is too great is refused,
unless it is negative. -/
def isFraction (word : List Char) : Bool :=
  let (negative, unsigned) := splitSign word
  let isMark (c : Char) : Bool := c == 'e' || c == 'E'
  let mantissa := unsigned.takeWhile (!isMark ·)
  let (negativeExponent, exponentText) := splitSign ((unsigned.dropWhile (!isMark ·)).drop 1)
  let whole := mantissa.takeWhile (· ≠ '.')
  let hasPoint := mantissa.contains '.'
  let hasExponent := unsigned.any isMark
  let fractionText := (mantissa.dropWhile (· ≠ '.')).drop 1
  let fraction := if hasPoint then digits? Char.isDigit fractionText else some []
  let exponent := if hasExponent then digits? Char.isDigit exponentText else some []
  match decimal? whole, fraction, exponent with
  | some w, some f, some e =>
    let n : Int := ofDigits 10 e
    (hasPoint || hasExponent) &&
      (negative || isInRange (w ++ f) ((if negativeExponent then -n else n) - f.length))
  | _, _, _ => false

/-- Whether the word is an infinity or not a number. -/
def isSpecialNumber (word : List Char) : Bool :=
  let (_, unsigned) := splitSign word
  unsigned == ['i', 'n', 'f'] || unsigned == ['n', 'a', 'n']

/-- Whether the text is a number of a fixed count of digits within bounds. -/
def isField (count low high : Nat) (text : List Char) : Bool :=
  text.length == count && text.all Char.isDigit &&
    low ≤ ofDigits 10 text && ofDigits 10 text ≤ high

/-- The number of days of a month. -/
def daysOfMonth (year month : Nat) : Nat :=
  if month = 2 then
    if year % 4 = 0 ∧ (year % 100 ≠ 0 ∨ year % 400 = 0) then 29 else 28
  else if [4, 6, 9, 11].contains month then 30
  else 31

/-- Whether the word is a date. -/
def isDate (word : List Char) : Bool :=
  match split '-' word with
  | [year, month, day] =>
    isField 4 0 9999 year && isField 2 1 12 month &&
      isField 2 1 (daysOfMonth (ofDigits 10 year) (ofDigits 10 month)) day
  | _ => false

/-- Whether the text is the fraction of a second, with its point, or nothing. -/
def isSecondFraction : List Char → Bool
  | [] => true
  | '.' :: r => !r.isEmpty && r.all Char.isDigit
  | _ => false

/-- Whether the word is a time of day. -/
def isTime (word : List Char) : Bool :=
  match split ':' word with
  | [hour, minute, second] =>
    isField 2 0 23 hour && isField 2 0 59 minute && isField 2 0 60 (second.take 2) &&
      isSecondFraction (second.drop 2)
  | _ => false

/-- Whether the text is the offset of a time zone. -/
def isOffset : List Char → Bool
  | ['Z'] | ['z'] => true
  | c :: r =>
    (c == '+' || c == '-') &&
      match split ':' r with
      | [hour, minute] => isField 2 0 23 hour && isField 2 0 59 minute
      | _ => false
  | [] => false

/-- Whether the character may stand between a date and a time. -/
def isDateSeparator (c : Char) : Bool := c == 'T' || c == 't' || c == ' '

/-- Whether the word is a date, a time, or both, then possibly with an offset. -/
def isDateTime (word : List Char) : Bool :=
  isDate word || isTime word ||
    (isDate (word.take 10) && (word.drop 10).head?.any isDateSeparator &&
      let clock := word.drop 11
      let isTimeChar (c : Char) : Bool := c.isDigit || c == ':' || c == '.'
      isTime (clock.takeWhile isTimeChar) &&
        (let offset := clock.dropWhile isTimeChar
         offset.isEmpty || isOffset offset))

/-- Reads a word. -/
def scalar? (word : List Char) : Option Document :=
  if word == ['t', 'r', 'u', 'e'] then some (.bool true)
  else if word == ['f', 'a', 'l', 's', 'e'] then some (.bool false)
  else if isDateTime word then some (.obj [])
  else if isSpecialNumber word || isFraction word then some .unreadable
  else (integer? word).map fun n => .num (.int n)

end CatalogAccess.Toml
