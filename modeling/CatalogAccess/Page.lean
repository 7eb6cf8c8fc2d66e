/-!
# Pages of a listing

Listings of the policy authority are read page by page. Reading stops with the first page that is
not full. `Page.visited` lists the pages that are read of a listing of a given length.
-/

namespace CatalogAccess

/-- A window of a listing. -/
structure Page where
  /-- How many elements come before the window. -/
  offset : Nat
  /-- How many elements the window holds. -/
  limit : Nat
deriving DecidableEq, Repr

namespace Page

/-- The first page. -/
def first (limit : Nat) : Page := ⟨0, limit⟩

/-- The page that follows. -/
def next (p : Page) : Page := { p with offset := p.offset + p.limit }

/-- The elements in the window. -/
def slice {α : Type} (p : Page) (l : List α) : List α := (l.drop p.offset).take p.limit

/-- The pages read of a listing from a page on: up to the first that is not full. -/
def visited (count : Nat) (p : Page) : List Page :=
  if p.limit = 0 ∨ count < p.offset + p.limit then [p] else p :: visited count p.next
termination_by count - p.offset
decreasing_by simp only [next]; omega

/-- The elements of a listing, read page by page. -/
def drain {α : Type} (pageSize : Nat) (l : List α) : List α :=
  (visited l.length (first (max pageSize 1))).flatMap fun p => p.slice l

/-- The first element of a listing that passes a test, looked for page by page. -/
def find? {α : Type} (pageSize : Nat) (test : α → Bool) (l : List α) : Option α :=
  (visited l.length (first (max pageSize 1))).findSome? fun p => (p.slice l).find? test

end Page

end CatalogAccess
