import CatalogAccess.Query

/-!
# Criteria as search queries

A condition tree is compiled to a query node by node: a group that joins by "and" becomes required
clauses, one that joins by "or" a choice of clauses, and a comparison a query on its field. An
empty group becomes the query that matches nothing, as it holds for no entity.
-/

namespace CatalogAccess.Criteria

/-- The characters with a meaning in wildcard expressions. -/
def isExpressionChar (c : Char) : Bool := c == '*' || c == '?' || c == '\\'

/-- The wildcard expression of the values that start with a text. -/
def startExpression (s : String) : String := Query.escapeWhere isExpressionChar s ++ "*"

/-- The wildcard expression of the values that end with a text. -/
def endExpression (s : String) : String := "*" ++ Query.escapeWhere isExpressionChar s

/-- The query for one of the values of a field being among those given. -/
def Leaf.equalityQuery (l : Leaf) : Json :=
  match l.operand.values with
  | [v] => Query.term l.field v
  | vs => Query.terms l.field vs

/-- The query of a comparison. -/
def Leaf.toQuery (l : Leaf) : Json :=
  match l.operator with
  | .equals => l.equalityQuery
  | .notEquals => Query.not l.equalityQuery
  | .startsWith =>
    Query.anyOf (l.operand.values.map fun v => Query.wildcard l.field (startExpression v))
  | .endsWith =>
    Query.anyOf (l.operand.values.map fun v => Query.wildcard l.field (endExpression v))
  | .oneOf => Query.terms l.field l.operand.values
  | .noneOf => Query.not (Query.terms l.field l.operand.values)

/-- The query of a group whose children have the given queries. -/
def Condition.joinQueries (c : Condition) (clauses : List Json) : Json :=
  match clauses, c with
  | [], _ => Query.matchNone
  | _, .and => Query.all clauses
  | _, .or => Query.any clauses

mutual

/-- The query of a node. -/
def Node.toQuery : Node → Json
  | .group c children => c.joinQueries (Node.toQueries children)
  | .leaf l => l.toQuery

/-- The queries of a list of nodes. -/
def Node.toQueries : List Node → List Json
  | [] => []
  | n :: ns => n.toQuery :: Node.toQueries ns

end

/-- The query of a condition tree. -/
def Tree.toQuery (t : Tree) : Json := (Node.group t.condition t.children).toQuery

end CatalogAccess.Criteria
