import CatalogAccess.NameSet

/-!
# Saturation of a set of names

A set is saturated under a rule that names what must be added to it when nothing new is named any
more. Roles held through member roles are found in this way.
-/

namespace CatalogAccess.NameSet

/-- The names that a rule adds to a set. -/
def additions (rule : NameSet → List String) (s : NameSet) : List String :=
  (rule s).filter fun x => !s.contains x

/-- Applies a rule over and over, until it adds nothing, but not more often than the given number
of rounds. Every round that adds something adds a name that was not there, so as many rounds as
there are names to add are enough. -/
def saturate (rule : NameSet → List String) : Nat → NameSet → NameSet
  | 0, s => s
  | rounds + 1, s =>
    if (additions rule s).isEmpty then s
    else saturate rule rounds ((additions rule s).foldl insert s)

end CatalogAccess.NameSet
