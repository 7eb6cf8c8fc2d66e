import CatalogAccess.Criteria
import CatalogAccess.Entity

/-!
# Evaluation of criteria

`Entity.attributeValues` gives the values of an attribute of an entity as texts, and
`Criteria.Tree.evaluate` whether a condition tree holds for the entity. A group without children
holds for no entity, whatever its connective.
-/

namespace CatalogAccess

/-- The suffixes that name an indexed form of an attribute. -/
def fieldSuffixes : List String := [".text", ".keyword"]

/-- The attribute that a field name stands for: one suffix is dropped. -/
def fieldAttribute (field : String) : String :=
  (fieldSuffixes.findSome? (Text.dropEnd? field)).getD field

/-- The texts of an attribute's value: those of the scalars in a list, or that of a scalar. -/
def Json.texts : Json → List String
  | .arr items => items.filterMap Json.scalarText?
  | v => v.scalarText?.toList

/-- The values of a field of an entity. Names with two leading underscores stand for what is not an
attribute: type, identifier, classifications and terms. -/
def Entity.attributeValues (e : Entity) (field : String) : List String :=
  let name := fieldAttribute field
  if name = "__typeName" then [e.typeName]
  else if name = "__superTypeNames" then e.typeAndAncestors.toList
  else if name = "__guid" then [e.guid]
  else if name = "__traitNames" then e.directClassifications
  else if name = "__propagatedTraitNames" then e.propagatedClassifications
  else if name = "__meaningNames" then e.meaningNames
  else ((e.attributes.get? name).map Json.texts).getD []

namespace Criteria

/-- Whether some actual value is among the expected ones. -/
def sharesValue (actual expected : List String) : Bool := actual.any expected.contains

/-- Whether a comparison holds for an entity. -/
def Leaf.evaluate (l : Leaf) (e : Entity) : Bool :=
  let actual := e.attributeValues l.field
  let expected := l.operand.values
  match l.operator with
  | .equals | .oneOf => sharesValue actual expected
  | .notEquals | .noneOf => !sharesValue actual expected
  | .startsWith => actual.any fun v => expected.any fun s => Text.startsWith v s
  | .endsWith => actual.any fun v => expected.any fun s => Text.endsWith v s

/-- Joins the results of the children of a group. -/
def Condition.join (c : Condition) (results : List Bool) : Bool :=
  !results.isEmpty && match c with
    | .and => results.all id
    | .or => results.any id

mutual

/-- Whether a node holds for an entity. -/
def Node.evaluate (e : Entity) : Node → Bool
  | .group c children => c.join (Node.evaluateList e children)
  | .leaf l => l.evaluate e

/-- Which of the nodes hold for an entity. -/
def Node.evaluateList (e : Entity) : List Node → List Bool
  | [] => []
  | n :: ns => Node.evaluate e n :: Node.evaluateList e ns

end

/-- Whether a condition tree holds for an entity. -/
def Tree.evaluate (t : Tree) (e : Entity) : Bool := (Node.group t.condition t.children).evaluate e

end Criteria

end CatalogAccess
