import CatalogAccess.Json.Document

/-!
# Tables of TOML documents

A table is filled in several ways: by the lines behind its header, by dotted keys, or because the
header of a table below it came first. What may still be added depends on the way in which it came
about, and nothing can be defined twice.
-/

namespace CatalogAccess.Toml

/-- How a table came about. -/
inductive Origin where
  /-- By a header of its own. -/
  | header
  /-- By the header of a table below it. -/
  | implied
  /-- By a dotted key. -/
  | dotted
deriving DecidableEq

/-- What a key stands for. -/
inductive Node where
  /-- A value, which is complete. -/
  | value (d : Document)
  /-- A table. -/
  | table (origin : Origin) (members : List (String × Node))
  /-- A list of tables, the last one first. -/
  | tables (items : List (List (String × Node)))

/-- The members of a table. -/
abbrev Members := List (String × Node)

/-- The members with what stands under a key changed. -/
def Members.update (ms : Members) (key : String) (f : Option Node → Option Node) :
    Option Members :=
  (f ((ms.find? (·.1 == key)).map Prod.snd)).map fun n =>
    ms.filter (·.1 != key) ++ [(key, n)]

/-- Changes the table at the end of the path of a header; in lists of tables the path goes through
the last one. -/
def Members.within (f : Members → Option Members) : List String → Members → Option Members
  | [], ms => f ms
  | k :: ks, ms => ms.update k fun
    | none => (Members.within f ks []).map (.table .implied)
    | some (.table origin inner) => (Members.within f ks inner).map (.table origin)
    | some (.tables (last :: earlier)) =>
      (Members.within f ks last).map fun inner => .tables (inner :: earlier)
    | _ => none

/-- Gives a dotted key its value. The tables on its way come about by it: of those that are there,
only such as came about by a dotted key can take the value itself. -/
def Members.assign (d : Document) : List String → Members → Option Members
  | [], _ => none
  | [k], ms => ms.update k fun
    | none => some (.value d)
    | some _ => none
  | k :: ks, ms => ms.update k fun
    | none => (Members.assign d ks []).map (.table .dotted)
    | some (.table .dotted inner) => (Members.assign d ks inner).map (.table .dotted)
    | some (.table .implied inner) =>
      if ks.length = 1 then none else (Members.assign d ks inner).map (.table .implied)
    | some (.tables (last :: earlier)) =>
      if ks.length = 1 then none
      else (Members.assign d ks last).map fun inner => .tables (inner :: earlier)
    -- values, and tables with a header of their own, take nothing more
    | _ => none

/-- Opens a table by its header. -/
def Members.openTable (key : String) (ms : Members) : Option Members :=
  ms.update key fun
    | none => some (.table .header [])
    | some (.table .implied inner) => some (.table .header inner)
    | some _ => none

/-- Opens one more table of a list by its header. -/
def Members.openItem (key : String) (ms : Members) : Option Members :=
  ms.update key fun
    | none => some (.tables [[]])
    | some (.tables items) => some (.tables ([] :: items))
    | some _ => none

mutual

/-- The document of what a key stands for. -/
def Node.document : Node → Document
  | .value d => d
  | .table _ members => .obj (memberDocuments members)
  | .tables items => .arr (tableDocuments items).reverse

/-- The members of the document of a table. -/
def memberDocuments : List (String × Node) → List (Option String × Document)
  | [] => []
  | (k, n) :: ms => (some k, n.document) :: memberDocuments ms

/-- The documents of a list of tables. -/
def tableDocuments : List (List (String × Node)) → List Document
  | [] => []
  | t :: ts => .obj (memberDocuments t) :: tableDocuments ts

end

end CatalogAccess.Toml
