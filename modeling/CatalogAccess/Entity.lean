import CatalogAccess.Json.Record
import CatalogAccess.Vocabulary

/-!
# Entities and relationships

An entity of the catalogue with all that decisions look at: its type and the ancestors of the
type, its attributes, its classifications and the terms linked to it. A classification is direct
when it was attached to the entity itself, and propagated when it came from another entity. A
relationship is the triple of its type and its two ends.
-/

namespace CatalogAccess

/-- A classification of an entity. -/
structure Classification where
  /-- The name of the classification. -/
  typeName : String
  /-- The entity that the classification was attached to; missing or empty for the entity
  itself. -/
  entityGuid : Option String := none
deriving DecidableEq, Repr

/-- An entity of the catalogue. -/
structure Entity where
  /-- The identifier. -/
  guid : String := ""
  /-- The name of the type. -/
  typeName : String
  /-- The ancestors of the type. -/
  superTypeNames : List String := []
  /-- The attributes by name. -/
  attributes : NameMap Json := ∅
  /-- The classifications, direct and propagated. -/
  classifications : List Classification := []
  /-- The names of the linked glossary terms. -/
  meaningNames : List String := []
deriving Repr

/-- A relationship between two entities, as the target of an operation. -/
structure Relationship where
  /-- The name of the relationship type. -/
  relationshipType : String
  /-- The first end. -/
  endOne : Entity
  /-- The second end. -/
  endTwo : Entity
deriving Repr

namespace Classification

/-- Whether the classification was attached to the entity with this identifier. -/
def isDirect (guid : String) (c : Classification) : Bool :=
  match c.entityGuid with
  | none => true
  | some g => g.isEmpty || g == guid

/-- Reads a classification. -/
def ofDocument? (d : Document) : Option Classification := do
  let r ← d.record? ["typeName", "entityGuid"] 1
  let typeName ← r.required "typeName" Document.string?
  let entityGuid ← r.optional "entityGuid" Document.string?
  return { typeName, entityGuid }

/-- The JSON form of a classification. -/
def toJson (c : Classification) : Json :=
  .obj (Json.memberOf "entityGuid" c.entityGuid ++ [("typeName", .str c.typeName)])

end Classification

namespace Entity

/-- The name of the attribute that identifies an entity to people. -/
def qualifiedNameAttribute : String := "qualifiedName"

/-- The entity with one more attribute. -/
def withAttribute (e : Entity) (name : String) (value : Json) : Entity :=
  { e with attributes := e.attributes.insert name value }

/-- The entity with a qualified name. -/
def withQualifiedName (e : Entity) (name : String) : Entity :=
  e.withAttribute qualifiedNameAttribute (.str name)

/-- The entity with one more classification. -/
def withClassification (e : Entity) (c : Classification) : Entity :=
  { e with classifications := e.classifications ++ [c] }

/-- The qualified name, when that attribute is a string. -/
def qualifiedName? (e : Entity) : Option String :=
  (e.attributes.get? qualifiedNameAttribute).bind Json.str?

/-- The type and its ancestors. -/
def typeAndAncestors (e : Entity) : NameSet := NameSet.ofList (e.typeName :: e.superTypeNames)

/-- The names of the classifications attached to the entity itself. -/
def directClassifications (e : Entity) : List String :=
  (e.classifications.filter (·.isDirect e.guid)).map Classification.typeName

/-- The names of the classifications that came from other entities. -/
def propagatedClassifications (e : Entity) : List String :=
  (e.classifications.filter (!·.isDirect e.guid)).map Classification.typeName

/-- The names of all classifications. -/
def allClassifications (e : Entity) : List String := e.classifications.map Classification.typeName

/-- How the entity appears in audit records: its type with the qualified name, or else with the
identifier. -/
def display (e : Entity) : String := e.typeName ++ ":" ++ e.qualifiedName?.getD e.guid

/-- Reads an entity. -/
def ofDocument? (d : Document) : Option Entity := do
  let r ← d.record? ["guid", "typeName", "superTypeNames", "attributes", "classifications",
    "meaningNames"] 2
  let guid ← r.withDefault "guid" "" Document.string?
  let typeName ← r.required "typeName" Document.string?
  let superTypeNames ← r.withDefault "superTypeNames" [] Document.strings?
  let attributes ← r.withDefault "attributes" ∅ (Document.map? Document.value?)
  let classifications ←
    r.withDefault "classifications" [] (Document.list? Classification.ofDocument?)
  let meaningNames ← r.withDefault "meaningNames" [] Document.strings?
  return { guid, typeName, superTypeNames, attributes, classifications, meaningNames }

/-- The JSON form of an entity. -/
def toJson (e : Entity) : Json :=
  .obj [("attributes", Json.ofMap e.attributes),
    ("classifications", .arr (e.classifications.map Classification.toJson)),
    ("guid", .str e.guid),
    ("meaningNames", Json.strings e.meaningNames),
    ("superTypeNames", Json.strings e.superTypeNames),
    ("typeName", .str e.typeName)]

end Entity

namespace Relationship

/-- How the relationship appears in audit records. -/
def display (r : Relationship) : String :=
  r.relationshipType ++ "(" ++ r.endOne.display ++ " -> " ++ r.endTwo.display ++ ")"

/-- Reads a relationship. -/
def ofDocument? (d : Document) : Option Relationship := do
  let r ← d.record? ["relationshipType", "endOne", "endTwo"] 3
  let relationshipType ← r.required "relationshipType" Document.string?
  let endOne ← r.required "endOne" Entity.ofDocument?
  let endTwo ← r.required "endTwo" Entity.ofDocument?
  return { relationshipType, endOne, endTwo }

/-- The JSON form of a relationship. -/
def toJson (r : Relationship) : Json :=
  .obj [("endOne", r.endOne.toJson), ("endTwo", r.endTwo.toJson),
    ("relationshipType", .str r.relationshipType)]

end Relationship

end CatalogAccess
