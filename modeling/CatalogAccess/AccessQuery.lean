import CatalogAccess.Criteria.Compilation
import CatalogAccess.Decision

/-!
# Access as search queries

The policies relevant to a user become clauses of a search query, one for each policy, under the
name of the policy; the names of denying policies carry a suffix. A bulk query (`prefilter`)
restricts a search to what the user may see. A check query asks for single entities and lists
granting and denying clauses side by side, so that the names of the clauses that matched tell the
decision.
-/

namespace CatalogAccess

namespace ClauseName

/-- What the names of denying clauses end with. -/
def denySuffix : String := "_deny"

/-- The name of a policy's clause for an effect. -/
def ofPolicy (policyId : String) : Effect → String
  | .allow => policyId
  | .deny => policyId ++ denySuffix

/-- Whether the name is that of a denying clause. -/
def isDenial (name : String) : Bool := Text.endsWith name denySuffix

/-- The reversed name without the reversed suffix, taken away as often as it stands there. -/
def dropSuffixes : List Char → List Char
  | 'y' :: 'n' :: 'e' :: 'd' :: '_' :: r => dropSuffixes r
  | r => r

/-- The policy of a clause. -/
def policyId (name : String) : String := String.ofList (dropSuffixes name.toList.reverse).reverse

end ClauseName

/-- The decision told by the names of the clauses that matched an entity. -/
def Decision.ofNames (names : List String) : Decision :=
  match names.find? ClauseName.isDenial with
  | some name => denial (some (ClauseName.policyId name))
  | none =>
    match names.head? with
    | some name => grant name
    | none => denial none

namespace Query

/-- The index field of the identifier. -/
def guidField : String := "__guid"
/-- The index field of the qualified name. -/
def qualifiedNameField : String := "qualifiedName"
/-- The index field of the type. -/
def typeField : String := "__typeName.keyword"
/-- The index field of the type and its ancestors. -/
def superTypesField : String := "__superTypeNames.keyword"
/-- The index field of the direct classifications. -/
def traitsField : String := "__traitNames"
/-- The index field of the propagated classifications. -/
def propagatedTraitsField : String := "__propagatedTraitNames"

/-- The characters that mean something in a wildcard expression and nothing in a pattern. -/
def isLiteralInPatterns (c : Char) : Bool := c == '?' || c == '\\'

/-- Some value of a field matches one of the patterns: those without a wildcard are listed in one
clause, and the others have a clause each. -/
def fieldPatterns (field : String) (patterns : List String) : Json :=
  let exact := patterns.filter fun p => !p.toList.contains '*'
  let wild := patterns.filter fun p => p.toList.contains '*'
  anyOf ((if exact.isEmpty then [] else [terms field exact]) ++
    wild.map fun p => wildcard field (escapeWhere isLiteralInPatterns p))

/-- The qualified name matches one of the patterns for a user. -/
def qualifiedNameClause (patterns : List String) (user : String) : Json :=
  fieldPatterns qualifiedNameField
    (patterns.map fun p => String.ofList (Pattern.substitute user.toList p.toList))

/-- The type or one of its ancestors matches one of the patterns. -/
def typeClause (patterns : List String) : Json :=
  anyOf [fieldPatterns typeField patterns, fieldPatterns superTypesField patterns]

/-- A classification matches one of the patterns. -/
def tagClause (patterns : List String) : Json :=
  if hasWildcard patterns then matchAll
  else anyOf [fieldPatterns traitsField patterns, fieldPatterns propagatedTraitsField patterns]

/-- The clause of a dimension that the index can express. -/
def dimensionClause (resources : ResourceMap) (dimension : String) (clause : List String → Json) :
    List Json :=
  match resources.get? dimension with
  | some values => if hasWildcard values then [] else [clause values]
  | none => []

/-- The query of a resource map for a user. Dimensions that the index cannot express are left
open. -/
def resourceClause (resources : ResourceMap) (user : String) : Json :=
  let clauses :=
    dimensionClause resources Dimension.entity (fun ps => qualifiedNameClause ps user) ++
    dimensionClause resources Dimension.entityType typeClause ++
    dimensionClause resources Dimension.entityClassification tagClause ++
    dimensionClause resources Dimension.tag tagClause
  if clauses.isEmpty then matchAll else all clauses

/-- A list cut into pieces of the given length, of which the last one may be shorter. -/
def pieces {α : Type} (length : Nat) : List α → List (List α)
  | [] => []
  | x :: xs => (x :: xs.take (length - 1)) :: pieces length (xs.drop (length - 1))
termination_by l => l.length
decreasing_by simp only [List.length_drop, List.length_cons]; omega

/-- Clauses to choose from, grouped when there are more than may be listed side by side. -/
def chunked (limit : Nat) (clauses : List Json) : List Json :=
  if clauses.length ≤ limit then clauses else (pieces limit clauses).map any

end Query

namespace AccessView

/-- How many clauses a query lists side by side; fewer than two would never come to an end of
grouping. -/
def effectiveLimit (v : AccessView) : Nat := max v.clauseLimit 2

/-- A choice of clauses within the limit. -/
def choice (v : AccessView) (clauses : List Json) : Json :=
  Query.any (Query.chunked v.effectiveLimit clauses)

/-- The clause of a policy for entities; none for a condition policy without criteria. -/
def entityClause? (p : Policy) (user : String) : Option Json :=
  match p.service with
  | .condition => ((Criteria.ofPolicy? p).bind Criteria.entity).map Criteria.Tree.toQuery
  | .tag => some (Query.tagClause ((p.resource? Dimension.tag).getD []))
  | .resource => some (Query.resourceClause p.resources user)
  | .data => none

/-- The policies of a service that are relevant to one of the actions on entities, by display
identifier. Of several policies with one identifier the first counts, in the order of actions. -/
def entityPolicies (v : AccessView) (user : String) (actions : List String) (effect : Effect)
    (service : Policy.Service) : List Policy :=
  let subject := v.subjects.resolve user
  let found := actions.flatMap fun action =>
    v.relevant (some subject) action effect .entity service
  -- later entries count in a map, so the list is turned round for the first to count
  (NameMap.ofList (found.reverse.map fun p => (p.displayId, p))).values

/-- The clauses of an effect for entities. -/
def entityClauses (v : AccessView) (user : String) (actions : List String) (effect : Effect) :
    List Json :=
  serviceOrder.flatMap fun service =>
    (v.entityPolicies user actions effect service).filterMap fun p =>
      (entityClause? p user).map (Query.named (ClauseName.ofPolicy p.displayId effect))

/-- The query that restricts a search to the entities on which a user may take one of the
actions. -/
def prefilter (v : AccessView) (user : String) (actions : List String) : Json :=
  let granting := v.entityClauses user actions .allow
  if granting.isEmpty then Query.matchNone
  else
    .obj [("bool", .obj [("filter", v.choice granting),
      ("must_not", .arr (Query.chunked v.effectiveLimit (v.entityClauses user actions .deny)))])]

/-- The query whose hit names the policies that grant or deny a user an action on an entity. -/
def entityCheckQuery (v : AccessView) (user guid action : String) : Json :=
  let clauses := v.entityClauses user [action] .allow ++ v.entityClauses user [action] .deny
  if clauses.isEmpty then Query.matchNone
  else Query.all [v.choice clauses, Query.term Query.guidField guid]

/-- The two ends of a relationship. -/
inductive End where
  /-- The first end. -/
  | one
  /-- The second end. -/
  | two
deriving DecidableEq, Repr

/-- What the dimensions and clause names of an end start with. -/
def End.stem : End → String
  | one => Dimension.endOne
  | two => Dimension.endTwo

/-- The dimensions of one end, as those of an entity. -/
def endResources (resources : ResourceMap) (e : End) : ResourceMap :=
  NameMap.ofList (resources.toList.filterMap fun d =>
    (Text.dropStart? d.1 e.stem).map fun rest => (rest, d.2))

/-- The clause of a policy for one end of a relationship. -/
def endClause? (p : Policy) (user : String) (e : End) : Option Json :=
  match p.service with
  | .condition =>
    (Criteria.ofPolicy? p).bind fun c =>
      (match e with
        | .one => c.endOne
        | .two => c.endTwo).map Criteria.Tree.toQuery
  | .resource | .tag => some (Query.resourceClause (endResources p.resources e) user)
  | .data => none

/-- The policies relevant to an action on relationships of a type. -/
def relationshipPolicies (v : AccessView) (user action relationshipType : String)
    (effect : Effect) : List Policy :=
  let subject := v.subjects.resolve user
  (serviceOrder.flatMap fun service =>
    v.relevant (some subject) action effect .relationship service).filter fun p =>
      (p.resource? Dimension.relationshipType).all fun patterns =>
        Pattern.acceptsAny patterns [relationshipType] user

/-- The clauses of a policy for the ends of a relationship. -/
def endClauses (p : Policy) (user : String) (effect : Effect) : List Json :=
  [End.one, End.two].filterMap fun e =>
    (endClause? p user e).map (Query.named (ClauseName.ofPolicy (e.stem ++ p.displayId) effect))

/-- The query whose hits name, for each end of a relationship, the policies that grant or deny a
user an action. -/
def relationshipCheckQuery (v : AccessView)
    (user action relationshipType guidOne guidTwo : String) : Json :=
  let clauses := [Effect.allow, Effect.deny].flatMap fun effect =>
    (v.relationshipPolicies user action relationshipType effect).flatMap fun p =>
      endClauses p user effect
  if clauses.isEmpty then Query.matchNone
  else Query.all [v.choice clauses, Query.terms Query.guidField [guidOne, guidTwo]]

end AccessView

end CatalogAccess
