import CatalogAccess.Json.Document

/-!
# Records in documents

Objects of the catalogue are read from documents by their declared fields. A record is written as
an object, whose unknown members are skipped and whose declared members may stand only once, or as
the list of its values in the order of declaration, from which values at the end may be missing.
`Document.record?` reads both forms; `Record.required`, `Record.withDefault` and `Record.optional`
then read one field each. Only an optional field takes `null`.
-/

namespace CatalogAccess

/-- The declared fields found in a document, by name. -/
structure Record where
  /-- The fields with their documents; no name stands twice. -/
  fields : List (String × Document)

namespace Record

/-- The document of a field. -/
def get? (r : Record) (name : String) : Option Document :=
  (r.fields.find? (·.1 == name)).map Prod.snd

/-- Reads a field that must be there. -/
def required {α : Type} (r : Record) (name : String) (read : Document → Option α) : Option α :=
  (r.get? name).bind read

/-- Reads a field that has a value when it is missing. -/
def withDefault {α : Type} (r : Record) (name : String) (default : α)
    (read : Document → Option α) : Option α :=
  match r.get? name with
  | none => some default
  | some d => read d

/-- Reads a field that may be missing or `null`. -/
def optional {α : Type} (r : Record) (name : String) (read : Document → Option α) :
    Option (Option α) :=
  match r.get? name with
  | none => some none
  | some .null => some none
  | some d => (read d).map some

end Record

namespace Document

/-- The declared members of an object; nothing when a key is unreadable or a declared member
stands twice. -/
def declaredMembers? (names : List String) :
    List (Option String × Document) → Option (List (String × Document))
  | [] => some []
  | (none, _) :: _ => none
  | (some k, d) :: ms => do
    let rest ← declaredMembers? names ms
    if names.contains k then
      if rest.any (·.1 == k) then none else some ((k, d) :: rest)
    else some rest

/-- Reads a record with the declared fields. Its list form has at least `least` values, and no
more than there are fields. -/
def record? (names : List String) (least : Nat) : Document → Option Record
  | .obj members => (declaredMembers? names members).map Record.mk
  | .arr items =>
    if least ≤ items.length ∧ items.length ≤ names.length then some ⟨names.zip items⟩ else none
  | _ => none

/-- Reads a string. -/
def string? : Document → Option String
  | .str s => some s
  | _ => none

/-- Reads a truth value. -/
def bool? : Document → Option Bool
  | .bool b => some b
  | _ => none

/-- Reads a non-negative integer. -/
def nat? : Document → Option Nat
  | .num n => n.toNat?
  | _ => none

/-- Reads a list. -/
def list? {α : Type} (read : Document → Option α) : Document → Option (List α)
  | .arr items => items.mapM read
  | _ => none

/-- Reads a list of strings. -/
def strings? : Document → Option (List String) := list? string?

/-- Reads a list of strings as a set. -/
def names? (d : Document) : Option NameSet := d.strings?.map NameSet.ofList

/-- Reads one member of a map. -/
def mapMember? {α : Type} (read : Document → Option α) (m : Option String × Document) :
    Option (String × α) := do
  let k ← m.1
  let v ← read m.2
  return (k, v)

/-- Reads a map, every value of which is read; of two members with one key the later counts. -/
def map? {α : Type} (read : Document → Option α) : Document → Option (NameMap α)
  | .obj members => (members.mapM (mapMember? read)).map NameMap.ofList
  | _ => none

/-- Whether all of a document can be held. -/
def isReadable (d : Document) : Bool := d.value?.isSome

/-- Reads one of several names, written as a string or as an object with the name as its only key
and `null` as its value. -/
def choice? {α : Type} (ofName? : String → Option α) : Document → Option α
  | .str s => ofName? s
  | .obj [(some k, .null)] => ofName? k
  | _ => none

end Document

end CatalogAccess
