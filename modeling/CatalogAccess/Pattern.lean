import CatalogAccess.Glob
import CatalogAccess.Vocabulary

/-!
# Resource patterns

A resource pattern is literal text in which `*` stands for any run of characters and the user
placeholder for the name of the requesting user, taken literally. The whole value must match.
-/

namespace CatalogAccess.Pattern

/-- The characters of the user placeholder. -/
def placeholder : List Char := userPlaceholder.toList

/-- The tokens of a pattern for a user. Of overlapping placeholders the leftmost counts. -/
def tokens (user : List Char) : List Char → Glob
  | [] => []
  | '\x7b' :: 'U' :: 'S' :: 'E' :: 'R' :: '\x7d' :: r => Glob.ofText user ++ tokens user r
  | c :: r => (if c = '*' then .run else .lit c) :: tokens user r

/-- The text of a pattern with the name of the user in place of the placeholders. -/
def substitute (user : List Char) : List Char → List Char
  | [] => []
  | '\x7b' :: 'U' :: 'S' :: 'E' :: 'R' :: '\x7d' :: r => user ++ substitute user r
  | c :: r => c :: substitute user r

/-- Whether the user placeholder occurs in a pattern. -/
def hasPlaceholder : List Char → Bool
  | [] => false
  | c :: r => placeholder.isPrefixOf (c :: r) || hasPlaceholder r

/-- Whether the pattern is nothing but literal text. -/
def isLiteral (pattern : String) : Bool :=
  !pattern.toList.contains '*' && !hasPlaceholder pattern.toList

/-- The glob of a pattern for a user. -/
def glob (pattern user : String) : Glob := tokens user.toList pattern.toList

/-- Whether the value matches the pattern for a user. -/
def accepts (pattern value user : String) : Bool :=
  if pattern = wildcard then true
  else if isLiteral pattern then pattern == value
  else (glob pattern user).accepts value.toList

/-- Whether one of the values matches one of the patterns. -/
def acceptsAny (patterns values : List String) (user : String) : Bool :=
  values.any fun v => patterns.any fun p => accepts p v user

end CatalogAccess.Pattern
