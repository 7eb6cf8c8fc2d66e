import CatalogAccess.Binary64
import CatalogAccess.NameMap

/-!
# JSON values

The value type of attributes, search queries and stored documents. A number is an integer when it
is written without fraction and exponent and fits 64 bits, and a double otherwise. The members of
an object are listed by increasing key (`Json.object` builds them so), which is also the order in
which `Json.render` prints them.
-/

namespace CatalogAccess

/-- A JSON number. -/
inductive Json.Number where
  /-- An integer from `-2 ^ 63` to `2 ^ 64 - 1`. -/
  | int (n : Int)
  /-- Any other number, in double precision. -/
  | double (x : Binary64)
deriving DecidableEq, Repr

/-- A JSON value. -/
inductive Json where
  /-- The value `null`. -/
  | null
  /-- A truth value. -/
  | bool (b : Bool)
  /-- A number. -/
  | num (n : Json.Number)
  /-- A string. -/
  | str (s : String)
  /-- A list of values. -/
  | arr (items : List Json)
  /-- An object, with its members by increasing key. -/
  | obj (members : List (String × Json))
deriving BEq, Repr, Inhabited

namespace Json

/-- The decimal text of an integer, or the shortest text of a double. -/
def Number.toText : Number → String
  | int n => toString n
  | double x => x.toText

/-- The number as a natural number, when it is a non-negative integer. -/
def Number.toNat? : Number → Option Nat
  | int n => if 0 ≤ n then some n.toNat else none
  | double _ => none

/-- A natural number as a value. -/
def nat (n : Nat) : Json := .num (.int n)

/-- The object of a list of members; of two members with one key the later counts. -/
def object (members : List (String × Json)) : Json := .obj (NameMap.ofList members).toList

/-- The object of a map. -/
def ofMap (m : NameMap Json) : Json := .obj m.toList

/-- A list of strings as a value. -/
def strings (l : List String) : Json := .arr (l.map .str)

/-- A string, or `null` for nothing. -/
def ofOption : Option String → Json
  | none => .null
  | some s => .str s

/-- The member that holds a string, when there is one. -/
def memberOf (key : String) : Option String → List (String × Json)
  | none => []
  | some s => [(key, .str s)]

/-- The text of a string, when the value is one. -/
def str? : Json → Option String
  | .str s => some s
  | _ => none

/-- The value of a member of an object. -/
def get? (key : String) : Json → Option Json
  | .obj members => (members.find? (·.1 == key)).map Prod.snd
  | _ => none

/-- The text of a scalar other than `null`: a string as it is, a number or a truth value as it is
written. -/
def scalarText? : Json → Option String
  | .str s => some s
  | .num n => some n.toText
  | .bool b => some (if b then "true" else "false")
  | _ => none

/-- The four lower-case hexadecimal digits of a control character. -/
def hexDigits (c : Char) : List Char :=
  [c.toNat / 4096 % 16, c.toNat / 256 % 16, c.toNat / 16 % 16, c.toNat % 16].map Nat.digitChar

/-- A character inside a quoted string: quotes, backslashes and control characters are escaped. -/
def escape (c : Char) : List Char :=
  match c with
  | '"' => ['\\', '"']
  | '\\' => ['\\', '\\']
  | '\n' => ['\\', 'n']
  | '\r' => ['\\', 'r']
  | '\t' => ['\\', 't']
  | c =>
    if c.toNat = 8 then ['\\', 'b']
    else if c.toNat = 12 then ['\\', 'f']
    else if c.toNat < 32 then '\\' :: 'u' :: hexDigits c
    else [c]

/-- A string in quotes. -/
def quote (s : String) : String := String.ofList ('"' :: (s.toList.flatMap escape ++ ['"']))

mutual

/-- The text of a value, without blanks. -/
def render : Json → String
  | .null => "null"
  | .bool b => if b then "true" else "false"
  | .num n => n.toText
  | .str s => quote s
  | .arr items => "[" ++ ",".intercalate (renderItems items) ++ "]"
  | .obj members => "\x7b" ++ ",".intercalate (renderMembers members) ++ "\x7d"

/-- The texts of the items of a list. -/
def renderItems : List Json → List String
  | [] => []
  | v :: vs => v.render :: renderItems vs

/-- The texts of the members of an object. -/
def renderMembers : List (String × Json) → List String
  | [] => []
  | (k, v) :: ms => (quote k ++ ":" ++ v.render) :: renderMembers ms

end

end Json

end CatalogAccess
