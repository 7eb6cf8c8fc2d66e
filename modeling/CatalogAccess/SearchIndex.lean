import CatalogAccess.AccessQuery

/-!
# The search index

Entities are indexed in the order in which they arrive. A search returns the entities that match a
query, each with the names of the clauses it matched. Checks by search turn the hits of a check
query into a decision.
-/

namespace CatalogAccess

/-- An entity found by a search. -/
structure SearchHit where
  /-- The identifier of the entity. -/
  guid : String
  /-- The names of the clauses that matched. -/
  matchedQueries : List String := []
deriving DecidableEq, Repr

namespace SearchHit

/-- Reads a hit. -/
def ofDocument? (d : Document) : Option SearchHit := do
  let r ← d.record? ["guid", "matchedQueries"] 1
  let guid ← r.required "guid" Document.string?
  let matchedQueries ← r.withDefault "matchedQueries" [] Document.strings?
  return { guid, matchedQueries }

/-- The JSON form of a hit. -/
def toJson (h : SearchHit) : Json :=
  .obj [("guid", .str h.guid), ("matchedQueries", Json.strings h.matchedQueries)]

end SearchHit

/-- Searches documents one by one. A search ends when it has as many hits as asked for, but not
before the first. -/
def searchDocuments (query : Json) : Nat → List Entity → Except AccessError (List SearchHit)
  | _, [] => .ok []
  | size, d :: ds => do
    let o ← Query.run d query
    if o.matched then
      let hit : SearchHit := ⟨d.guid, (NameSet.ofList o.names).toList⟩
      if size ≤ 1 then return [hit]
      let rest ← searchDocuments query (size - 1) ds
      return hit :: rest
    else searchDocuments query size ds

/-- The decision told by the hits of a check query for an entity. -/
def Decision.ofEntityHits (guid : String) (hits : List SearchHit) : Decision :=
  Decision.ofNames (((hits.find? (·.guid == guid)).map SearchHit.matchedQueries).getD [])

/-- The names of the clauses that an entity matched, of all its hits. -/
def namesOfHits (guid : String) (hits : List SearchHit) : NameSet :=
  NameSet.ofList ((hits.filter (·.guid == guid)).flatMap SearchHit.matchedQueries)

/-- The first policy of an effect whose clauses matched both ends: the name of a clause for the
first end has its counterpart among the names of the second. -/
def policyOfBothEnds (one two : NameSet) (denies : Bool) : Option String :=
  let ids := one.toList.filterMap fun name => Text.dropStart? name Dimension.endOne
  ((ids.filter fun id => ClauseName.isDenial id == denies).find? fun id =>
    two.contains (Dimension.endTwo ++ id)).map ClauseName.policyId

/-- The decision told by the hits of a check query for a relationship. -/
def Decision.ofRelationshipHits (guidOne guidTwo : String) (hits : List SearchHit) : Decision :=
  let one := namesOfHits guidOne hits
  let two := namesOfHits guidTwo hits
  Decision.ofMatches (policyOfBothEnds one two true) (policyOfBothEnds one two false)

end CatalogAccess
