import CatalogAccess.Json.Record
import CatalogAccess.Policy
import CatalogAccess.Text

/-!
# Criteria

Condition policies carry a document with up to three condition trees: one for entities and one for
each end of a relationship. The nodes of a tree are groups, whose children are joined by "and" or
by "or", and leaves, which compare an attribute with one or several values.

A child of a group is read as a group when it can be, and as a leaf otherwise. A policy whose
document is missing, blank or malformed has no criteria and never applies.
-/

namespace CatalogAccess

namespace Criteria

/-- How the children of a group are joined. -/
inductive Condition where
  /-- All of them must hold. -/
  | and
  /-- One of them must hold. -/
  | or
deriving DecidableEq, Repr

/-- How an attribute is compared. -/
inductive Operator where
  /-- One of its values is among those given. -/
  | equals
  /-- None of its values is among those given. -/
  | notEquals
  /-- One of its values starts with one of those given. -/
  | startsWith
  /-- One of its values ends with one of those given. -/
  | endsWith
  /-- One of its values is among those given. -/
  | oneOf
  /-- None of its values is among those given. -/
  | noneOf
deriving DecidableEq, Repr

/-- What an attribute is compared with. -/
inductive Operand where
  /-- One value. -/
  | single (value : String)
  /-- A list of values. -/
  | multiple (values : List String)
deriving DecidableEq, Repr

/-- A comparison of an attribute. -/
structure Leaf where
  /-- The field: an attribute, possibly with a suffix that names an indexed form of it. -/
  field : String
  /-- The comparison. -/
  operator : Operator
  /-- What the attribute is compared with. -/
  operand : Operand
deriving DecidableEq, Repr

/-- A node below the root of a condition tree. -/
inductive Node where
  /-- A group of nodes. -/
  | group (condition : Condition) (children : List Node)
  /-- A comparison. -/
  | leaf (leaf : Leaf)
deriving Repr

/-- A condition tree: its root is a group. -/
structure Tree where
  /-- How the children of the root are joined. -/
  condition : Condition
  /-- The children of the root. -/
  children : List Node
deriving Repr

/-- The values of an operand. -/
def Operand.values : Operand → List String
  | single v => [v]
  | multiple vs => vs

namespace Condition

/-- The name of a connective. -/
def text : Condition → String
  | and => "AND"
  | or => "OR"

/-- The connective with a name. -/
def ofText? (s : String) : Option Condition :=
  if s = "AND" then some and else if s = "OR" then some or else none

end Condition

namespace Operator

/-- The name of a comparison. -/
def text : Operator → String
  | equals => "EQUALS"
  | notEquals => "NOT_EQUALS"
  | startsWith => "STARTS_WITH"
  | endsWith => "ENDS_WITH"
  | oneOf => "IN"
  | noneOf => "NOT_IN"

/-- The comparison with a name. -/
def ofText? (s : String) : Option Operator :=
  [equals, notEquals, startsWith, endsWith, oneOf, noneOf].find? (·.text == s)

end Operator

namespace Operand

/-- Reads an operand. -/
def ofDocument? : Document → Option Operand
  | .str s => some (single s)
  | d => d.strings?.map multiple

/-- The JSON form of an operand. -/
def toJson : Operand → Json
  | single v => .str v
  | multiple vs => Json.strings vs

end Operand

namespace Leaf

/-- Reads a comparison. -/
def ofDocument? (d : Document) : Option Leaf := do
  let r ← d.record? ["attributeName", "operator", "attributeValue"] 3
  let field ← r.required "attributeName" Document.string?
  let operator ← r.required "operator" (Document.choice? Operator.ofText?)
  let operand ← r.required "attributeValue" Operand.ofDocument?
  return { field, operator, operand }

/-- The JSON form of a comparison. -/
def toJson (l : Leaf) : Json :=
  .obj [("attributeName", .str l.field), ("attributeValue", l.operand.toJson),
    ("operator", .str l.operator.text)]

end Leaf

/-- The declared fields of a group. -/
def groupFields : List String := ["condition", "criterion"]

/-- Reads the connective of a group. -/
def groupCondition? (d : Document) : Option Condition := do
  let r ← d.record? groupFields 1
  r.required "condition" (Document.choice? Condition.ofText?)

mutual

/-- Reads the children of a group. -/
def groupChildren? : Document → Option (List Node)
  | .obj members => memberChildren? members
  | .arr [_] => some []
  | .arr [_, children] => listedChildren? children
  | _ => none

/-- Reads the children of a group from its members. -/
def memberChildren? : List (Option String × Document) → Option (List Node)
  | [] => some []
  | (k, d) :: ms => if k = some "criterion" then listedChildren? d else memberChildren? ms

/-- Reads a list of nodes. -/
def listedChildren? : Document → Option (List Node)
  | .arr items => nodes? items
  | _ => none

/-- Reads nodes one by one. All of a node must be readable, its unknown members included. -/
def nodes? : List Document → Option (List Node)
  | [] => some []
  | d :: ds => do
    -- groups come first: a node with the fields of both is a group
    let asGroup := (groupCondition? d).bind fun c => (groupChildren? d).map (Node.group c)
    let node ← if d.isReadable then asGroup.or ((Leaf.ofDocument? d).map Node.leaf) else none
    let rest ← nodes? ds
    return node :: rest

end

mutual

/-- The JSON form of a node. -/
def Node.toJson : Node → Json
  | .group c children =>
    .obj [("condition", .str c.text), ("criterion", .arr (Node.listToJson children))]
  | .leaf l => l.toJson

/-- The JSON forms of a list of nodes. -/
def Node.listToJson : List Node → List Json
  | [] => []
  | n :: ns => n.toJson :: Node.listToJson ns

end

namespace Tree

/-- Reads a condition tree. -/
def ofDocument? (d : Document) : Option Tree := do
  let condition ← groupCondition? d
  let children ← groupChildren? d
  return { condition, children }

/-- The JSON form of a condition tree. -/
def toJson (t : Tree) : Json := (Node.group t.condition t.children).toJson

end Tree

end Criteria

/-- The criteria of a condition policy. -/
structure Criteria where
  /-- What an entity must satisfy. -/
  entity : Option Criteria.Tree := none
  /-- What the first end of a relationship must satisfy. -/
  endOne : Option Criteria.Tree := none
  /-- What the second end of a relationship must satisfy. -/
  endTwo : Option Criteria.Tree := none
deriving Repr

namespace Criteria

/-- Reads criteria. -/
def ofDocument? (d : Document) : Option Criteria := do
  let r ← d.record? ["entity", "endOneEntity", "endTwoEntity"] 0
  let entity ← r.optional "entity" Tree.ofDocument?
  let endOne ← r.optional "endOneEntity" Tree.ofDocument?
  let endTwo ← r.optional "endTwoEntity" Tree.ofDocument?
  return { entity, endOne, endTwo }

/-- The members of the JSON form that hold one tree. -/
def treeMember (key : String) : Option Tree → List (String × Json)
  | none => []
  | some t => [(key, t.toJson)]

/-- The JSON form of criteria. -/
def toJson (c : Criteria) : Json :=
  .obj (treeMember "endOneEntity" c.endOne ++ treeMember "endTwoEntity" c.endTwo ++
    treeMember "entity" c.entity)

/-- Reads the text of criteria. -/
def parse? (text : String) : Option Criteria := (Document.parse? text).bind ofDocument?

/-- The criteria of a policy; nothing when they are missing, blank or malformed. -/
def ofPolicy? (p : Policy) : Option Criteria :=
  p.criteria.bind fun text => if Text.isBlank text then none else parse? text

end Criteria

end CatalogAccess
