import CatalogAccess.Json

/-!
# Indented JSON

The text of a value for people to read: every item and member has a line of its own, indented by two
blanks for each list or object around it.
-/

namespace CatalogAccess.Json

/-- A new line with an indentation. -/
def newLine (depth : Nat) : String := String.ofList ('\n' :: List.replicate (2 * depth) ' ')

/-- Lines between an opening and a closing sign; nothing stands between them when there are none. -/
def block (opening closing : String) (depth : Nat) (lines : List String) : String :=
  if lines.isEmpty then opening ++ closing
  else opening ++ newLine (depth + 1) ++ ("," ++ newLine (depth + 1)).intercalate lines ++
    newLine depth ++ closing

mutual

/-- The indented text of a value inside so many lists and objects. -/
def prettyAt (depth : Nat) : Json → String
  | .arr items => block "[" "]" depth (prettyItems (depth + 1) items)
  | .obj members => block "\x7b" "\x7d" depth (prettyMembers (depth + 1) members)
  | v => v.render

/-- The indented texts of the items of a list. -/
def prettyItems (depth : Nat) : List Json → List String
  | [] => []
  | v :: vs => v.prettyAt depth :: prettyItems depth vs

/-- The indented texts of the members of an object. -/
def prettyMembers (depth : Nat) : List (String × Json) → List String
  | [] => []
  | (k, v) :: ms => (quote k ++ ": " ++ v.prettyAt depth) :: prettyMembers depth ms

end

/-- The indented text of a value. -/
def pretty (v : Json) : String := v.prettyAt 0

end CatalogAccess.Json
