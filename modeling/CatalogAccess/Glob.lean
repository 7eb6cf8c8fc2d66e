/-!
# Globs

A glob is a list of tokens: a run of any characters, any one character, or a literal character.
A text matches when all of it can be split along the tokens. `Glob.accepts` decides this for all
suffixes of the text at once, from the last token to the first, and so takes time proportional to
the product of the lengths.
-/

namespace CatalogAccess

/-- One token of a glob. -/
inductive Glob.Token where
  /-- Any run of characters, the empty one included. -/
  | run
  /-- Any one character. -/
  | one
  /-- The character itself. -/
  | lit (c : Char)
deriving DecidableEq, Repr

/-- A glob, as its list of tokens. -/
abbrev Glob := List Glob.Token

namespace Glob

/-- Of each suffix of a list of flags, the longest first, whether it holds a true flag. -/
def anySuffix (flags : List Bool) : List Bool :=
  flags.foldr (fun b rest => (b || rest.headD false) :: rest) []

/-- Of each suffix of a text, the longest first, whether the glob matches it. -/
def matchSuffixes : Glob → List Char → List Bool
  | [], s => s.map (fun _ => false) ++ [true]
  | .run :: g, s => anySuffix (matchSuffixes g s)
  | .one :: g, s => (matchSuffixes g s).tail ++ [false]
  | .lit c :: g, s => List.zipWith (fun x b => x == c && b) s (matchSuffixes g s).tail ++ [false]

/-- Whether the glob matches the text. -/
def accepts (g : Glob) (s : List Char) : Bool := (matchSuffixes g s).headD false

/-- The glob that matches one text only. -/
def ofText (s : List Char) : Glob := s.map .lit

end Glob

end CatalogAccess
