import CatalogAccess.Entity
import CatalogAccess.Pattern
import CatalogAccess.Policy
import CatalogAccess.Text

/-!
# Coverage of targets by resource maps

A resource map covers an entity for a user when each of its dimensions admits the entity. A
dimension with the bare wildcard among its values admits everything, and so does a dimension that
is not about entities. A relationship is covered when its type is admitted and the dimensions of
each end admit that end.
-/

namespace CatalogAccess

/-- Whether the bare wildcard is among the values. -/
def hasWildcard (values : List String) : Bool := values.contains wildcard

namespace Entity

/-- Whether the values of a dimension without the bare wildcard admit the entity. -/
def matchesDimension (e : Entity) (user dimension : String) (values : List String) : Bool :=
  if dimension = Dimension.entity ∨ dimension = Dimension.entityBusinessMetadata then
    e.qualifiedName?.any fun name => Pattern.acceptsAny values [name] user
  else if dimension = Dimension.entityType then
    Pattern.acceptsAny values e.typeAndAncestors.toList user
  else if dimension = Dimension.tag ∨ dimension = Dimension.entityClassification then
    Pattern.acceptsAny values e.allClassifications user
  else true

/-- Whether a dimension admits the entity. -/
def isAdmitted (e : Entity) (user dimension : String) (values : List String) : Bool :=
  hasWildcard values || e.matchesDimension user dimension values

end Entity

namespace Relationship

/-- Whether a dimension admits the relationship. -/
def isAdmitted (r : Relationship) (user dimension : String) (values : List String) : Bool :=
  hasWildcard values ||
    if dimension = Dimension.relationshipType then
      Pattern.acceptsAny values [r.relationshipType] user
    else
      match Text.dropStart? dimension Dimension.endOne with
      | some rest => r.endOne.isAdmitted user rest values
      | none =>
        match Text.dropStart? dimension Dimension.endTwo with
        | some rest => r.endTwo.isAdmitted user rest values
        | none => true

end Relationship

namespace Policy

/-- Whether the resource map covers the entity for a user. -/
def coversEntity (p : Policy) (user : String) (e : Entity) : Bool :=
  p.isAllWildcard || p.resources.toList.all fun d => e.isAdmitted user d.1 d.2

/-- Whether the resource map covers the relationship for a user. -/
def coversRelationship (p : Policy) (user : String) (r : Relationship) : Bool :=
  p.isAllWildcard || p.resources.toList.all fun d => r.isAdmitted user d.1 d.2

end Policy

end CatalogAccess
