import CatalogAccess.Pattern

/-!
# Patterns as regular expressions

A pattern that is more than literal text is written as a regular expression for the whole of a value.
In it literal text and the name of the user are escaped, and a wildcard stands as a dot with a star.
`Expression.compile?` reads such expressions by the rules of regular expressions: a backslash takes
from the character behind it the meaning it has, a dot takes any character, line breaks included, and
with a star behind it any number of them.
-/

namespace CatalogAccess

/-- A regular expression, as its list of characters. -/
abbrev Expression := List Char

namespace Expression

/-- Whether the character has a meaning of its own in expressions. -/
def isMeta (c : Char) : Bool := "\\.+*?()|[]\x7b\x7d^$#&-~".toList.contains c

/-- The expression of a text that stands for itself. -/
def escape (text : List Char) : Expression := text.flatMap fun c => if isMeta c then ['\\', c] else [c]

/-- What an expression for whole values starts with. -/
def opening : Expression := "^(?s:".toList

/-- What an expression for whole values ends with. -/
def closing : Expression := ")$".toList

/-- Any number of any characters. -/
def anything : Expression := ".*".toList

/-- The tokens of an expression up to its closing; nothing when it has parts that patterns do not
need. -/
def tokens? : Expression → Option Glob
  | [] => none
  | [')', '$'] => some []
  | '\\' :: c :: r => if isMeta c then (tokens? r).map (.lit c :: ·) else none
  | '.' :: '*' :: r => (tokens? r).map (.run :: ·)
  | '.' :: r => (tokens? r).map (.one :: ·)
  | c :: r => if isMeta c then none else (tokens? r).map (.lit c :: ·)

/-- The glob of an expression for whole values. -/
def compile? (e : Expression) : Option Glob :=
  if opening.isPrefixOf e then tokens? (e.drop opening.length) else none

end Expression

namespace Pattern

/-- The parts of a pattern between its placeholders. Of overlapping placeholders the leftmost
counts. -/
def parts : List Char → List (List Char)
  | [] => [[]]
  | '\x7b' :: 'U' :: 'S' :: 'E' :: 'R' :: '\x7d' :: r => [] :: parts r
  | c :: r => (parts r).modifyHead (c :: ·)

/-- The pieces of a text between its wildcards. -/
def pieces : List Char → List (List Char)
  | [] => [[]]
  | c :: r => if c = '*' then [] :: pieces r else (pieces r).modifyHead (c :: ·)

/-- The expression of a text in which only the wildcard has a meaning. -/
def starExpression (text : List Char) : Expression :=
  Expression.anything.intercalate ((pieces text).map Expression.escape)

/-- The expression of a pattern for a user. -/
def expression (pattern user : String) : Expression :=
  Expression.opening ++
    (Expression.escape user.toList).intercalate ((parts pattern.toList).map starExpression) ++
    Expression.closing

end Pattern

end CatalogAccess
