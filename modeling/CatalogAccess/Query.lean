import CatalogAccess.Criteria.Evaluation
import CatalogAccess.Error
import CatalogAccess.Glob

/-!
# Search queries

Queries are JSON objects of the search engine's language, of which this module covers `match_all`,
`bool`, `term`, `terms` and `wildcard`. `Query.run` tells whether a query matches an entity, and
the names of the clauses that matched on the way. A query of any other shape is refused, also when
it stands in a clause that could not change the outcome.

The clauses of a `bool` query are run in the order of its keys: `filter`, `must`, `must_not`,
`should`. Names inside `must_not` do not count.
-/

namespace CatalogAccess.Query

/-- The key that names a clause. -/
def nameKey : String := "_name"

/-- The query that every entity matches. -/
def matchAll : Json := .obj [("match_all", .obj [])]

/-- The query that no entity matches. -/
def matchNone : Json := .obj [("bool", .obj [("must_not", matchAll)])]

/-- Some attribute value is the one given. -/
def term (field value : String) : Json := .obj [("term", .obj [(field, .str value)])]

/-- Some attribute value is among those given. -/
def terms (field : String) (values : List String) : Json :=
  .obj [("terms", .obj [(field, Json.strings values)])]

/-- Some attribute value matches a wildcard expression. -/
def wildcard (field expression : String) : Json :=
  .obj [("wildcard", .obj [(field, .str expression)])]

/-- All clauses match. -/
def all (clauses : List Json) : Json := .obj [("bool", .obj [("filter", .arr clauses)])]

/-- The members of a `bool` query that asks for one of its clauses. -/
def anyMembers (clauses : List Json) : List (String × Json) :=
  [("minimum_should_match", Json.nat 1), ("should", .arr clauses)]

/-- Some clause matches. -/
def any (clauses : List Json) : Json := .obj [("bool", .obj (anyMembers clauses))]

/-- The clause does not match. -/
def not (clause : Json) : Json := .obj [("bool", .obj [("must_not", .arr [clause])])]

/-- Some clause matches, written as briefly as the number of clauses allows. -/
def anyOf : List Json → Json
  | [] => matchNone
  | [c] => c
  | cs => any cs

/-- The clause under a name. -/
def named (name : String) (clause : Json) : Json :=
  .obj [("bool", .obj [(nameKey, .str name), ("filter", .arr [clause])])]

/-- The tokens of a wildcard expression: `*` is any run, `?` any one character, and a backslash
takes the next character literally. -/
def expressionTokens : List Char → Glob
  | [] => []
  | ['\\'] => []
  | '\\' :: c :: r => .lit c :: expressionTokens r
  | c :: r => (if c = '*' then .run else if c = '?' then .one else .lit c) :: expressionTokens r

/-- Whether a value matches a wildcard expression. -/
def expressionMatches (expression value : String) : Bool :=
  Glob.accepts (expressionTokens expression.toList) value.toList

/-- The characters of a text with a backslash before those that pass the test. -/
def escapeWhere (special : Char → Bool) (s : String) : String :=
  String.ofList (s.toList.flatMap fun c => if special c then ['\\', c] else [c])

/-- What a query says of an entity. -/
structure Outcome where
  /-- Whether the query matches. -/
  matched : Bool
  /-- The names of the clauses that matched, inner clauses first. -/
  names : List String
deriving DecidableEq, Repr

/-- The result of a run: an outcome, or the refusal of a malformed query. -/
abbrev Result := Except AccessError Outcome

/-- The part that a clause plays in a `bool` query. -/
inductive ClauseRole where
  /-- It must match. -/
  | required
  /-- It must not match. -/
  | prohibited
  /-- It counts towards the least number of matches. -/
  | optional
deriving DecidableEq, Repr

/-- The part of the clauses under a key. -/
def ClauseRole.ofKey? (key : String) : Option ClauseRole :=
  if key = "filter" ∨ key = "must" then some .required
  else if key = "must_not" then some .prohibited
  else if key = "should" then some .optional
  else none

/-- What the clauses run so far say. -/
structure Tally where
  /-- Whether the required clauses matched and the prohibited ones did not. -/
  ok : Bool := true
  /-- How many of the optional clauses matched. -/
  satisfied : Nat := 0
  /-- The names collected. -/
  names : List String := []

/-- The tally with one more outcome. -/
def Tally.add (t : Tally) (role : ClauseRole) (o : Outcome) : Tally :=
  match role with
  | .required => { t with ok := t.ok && o.matched, names := t.names ++ o.names }
  | .prohibited => { t with ok := t.ok && !o.matched }
  | .optional =>
    { t with satisfied := t.satisfied + (if o.matched then 1 else 0), names := t.names ++ o.names }

/-- The number of clauses under a key. -/
def clauseCount (body : Json) (key : String) : Nat :=
  match body.get? key with
  | none => 0
  | some (.arr items) => items.length
  | some _ => 1

/-- How many optional clauses must match: as many as the query says; otherwise one, unless there
are none or some clause is required. -/
def minimumShouldMatch (body : Json) : Nat :=
  match body.get? "minimum_should_match" with
  | some (.num (.int n)) => if 0 ≤ n then n.toNat else defaultMinimum
  | _ => defaultMinimum
where
  /-- The least number when the query says nothing. -/
  defaultMinimum : Nat :=
    if clauseCount body "should" = 0 ∨ (body.get? "filter").isSome ∨ (body.get? "must").isSome
    then 0 else 1

/-- The error of a search with a malformed query. -/
def refuse {α : Type} (text : String) : Except AccessError α := .error (.search text)

mutual

/-- The text of a scalar, which may be wrapped in an object under the key `value`. -/
def scalar : Json → Except AccessError String
  | .str s => .ok s
  | .num n => .ok n.toText
  | .bool b => .ok (if b then "true" else "false")
  | .obj members => scalarMember (.obj members) members
  | v => refuse ("not a scalar: " ++ v.render)

/-- The text of the scalar under the key `value`. -/
def scalarMember (whole : Json) : List (String × Json) → Except AccessError String
  | [] => refuse ("no value in " ++ whole.render)
  | (k, v) :: ms => if k = "value" then scalar v else scalarMember whole ms

end

/-- The field of a `term`, `terms` or `wildcard` query with what it is compared with. -/
def singleField (body : Json) : Except AccessError (String × Json) :=
  match body with
  | .obj members =>
    match members.find? (·.1 != nameKey) with
    | some m => .ok m
    | none => refuse ("expected one field in " ++ body.render)
  | _ => refuse ("expected one field in " ++ body.render)

/-- Whether a `term`, `terms` or `wildcard` query matches. -/
def runField (e : Entity) (kind : String) (body : Json) : Except AccessError Bool :=
  if kind = "term" then do
    let (field, value) ← singleField body
    let expected ← scalar value
    return (e.attributeValues field).contains expected
  else if kind = "terms" then do
    let (field, values) ← singleField body
    match values with
    | .arr items =>
      let expected ← items.mapM scalar
      return (e.attributeValues field).any expected.contains
    | _ => refuse "terms expects an array"
  else if kind = "wildcard" then do
    let (field, value) ← singleField body
    let expression ← scalar value
    return (e.attributeValues field).any (expressionMatches expression)
  else refuse ("unsupported query kind " ++ kind)

/-- The outcome with the name of the clause, when the clause matched and has one. -/
def Outcome.withName (o : Outcome) (body : Json) : Outcome :=
  match o.matched, body.get? nameKey with
  | true, some (.str name) => { o with names := o.names ++ [name] }
  | _, _ => o

mutual

/-- Runs a query on an entity. The first key of the object is the kind of the query. -/
def run (e : Entity) : Json → Result
  | .obj ((kind, body) :: _) => do
    let o ←
      if kind = "match_all" then pure ⟨true, []⟩
      else if kind = "bool" then runBool e body
      else do
        let matched ← runField e kind body
        pure ⟨matched, []⟩
    return o.withName body
  | .obj [] => refuse "empty query"
  | q => refuse ("query is not an object: " ++ q.render)

/-- Runs the body of a `bool` query. -/
def runBool (e : Entity) : Json → Result
  | .obj members => do
    let t ← runMembers e members {}
    return ⟨t.ok && minimumShouldMatch (.obj members) ≤ t.satisfied, t.names⟩
  | _ => .ok ⟨true, []⟩

/-- Runs the clauses under the keys of a `bool` query: under each key a list of them, or a single
one. -/
def runMembers (e : Entity) : List (String × Json) → Tally → Except AccessError Tally
  | [], t => .ok t
  | (key, .arr items) :: ms, t => do
    let t ← match ClauseRole.ofKey? key with
      | none => pure t
      | some role => runItems e role items t
    runMembers e ms t
  | (key, clause) :: ms, t => do
    let t ← match ClauseRole.ofKey? key with
      | none => pure t
      | some role => do
        let o ← run e clause
        pure (t.add role o)
    runMembers e ms t

/-- Runs the clauses of a list. -/
def runItems (e : Entity) (role : ClauseRole) : List Json → Tally → Except AccessError Tally
  | [], t => .ok t
  | q :: qs, t => do
    let o ← run e q
    runItems e role qs (t.add role o)

end

end CatalogAccess.Query
