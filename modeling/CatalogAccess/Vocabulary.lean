/-!
# Names shared with the policy authority

Actions, resource dimensions and policy labels are plain strings on the wire. This module fixes
their spelling, once for the whole library, and the groups in which policies use them.
-/

namespace CatalogAccess

namespace Action

/-- Reading an entity. -/
def entityRead : String := "entity-read"
/-- Creating an entity. -/
def entityCreate : String := "entity-create"
/-- Changing an entity. -/
def entityUpdate : String := "entity-update"
/-- Deleting an entity. -/
def entityDelete : String := "entity-delete"
/-- Reading the classifications of an entity. -/
def entityReadClassification : String := "entity-read-classification"
/-- Attaching a classification. -/
def entityAddClassification : String := "entity-add-classification"
/-- Changing a classification. -/
def entityUpdateClassification : String := "entity-update-classification"
/-- Detaching a classification. -/
def entityRemoveClassification : String := "entity-remove-classification"
/-- Adding a label. -/
def entityAddLabel : String := "entity-add-label"
/-- Changing a label. -/
def entityUpdateLabel : String := "entity-update-label"
/-- Removing a label. -/
def entityRemoveLabel : String := "entity-remove-label"
/-- Changing business metadata. -/
def entityUpdateBusinessMetadata : String := "entity-update-business-metadata"
/-- Linking terms to an asset. -/
def addTerms : String := "add-terms"
/-- Unlinking terms from an asset. -/
def removeTerms : String := "remove-terms"
/-- Linking assets to a term. -/
def linkAssets : String := "link-assets"
/-- Relating terms to one another. -/
def relatedTerms : String := "related-terms"
/-- Placing terms in a glossary. -/
def glossaryTermRelationship : String := "glossary-term-relationship"
/-- Querying the data itself. -/
def select : String := "select"
/-- Creating a relationship. -/
def addRelationship : String := "add-relationship"
/-- Changing a relationship. -/
def updateRelationship : String := "update-relationship"
/-- Removing a relationship. -/
def removeRelationship : String := "remove-relationship"

/-- The basic operations on an entity. -/
def entityActions : List String := [entityRead, entityCreate, entityUpdate, entityDelete]

/-- The operations on the classifications of an entity. -/
def classificationActions : List String :=
  [entityAddClassification, entityUpdateClassification, entityRemoveClassification]

/-- The operations on the labels of an entity. -/
def labelActions : List String := [entityAddLabel, entityUpdateLabel, entityRemoveLabel]

/-- The operations on the terms of an asset. -/
def termActions : List String := [addTerms, removeTerms]

/-- The operations on a relationship. -/
def relationshipActions : List String := [addRelationship, updateRelationship, removeRelationship]

/-- The actions that are decided for a single entity. -/
def entityTargetActions : List String :=
  [entityRead, entityCreate, entityUpdate, entityDelete, entityReadClassification,
    entityAddClassification, entityUpdateClassification, entityRemoveClassification,
    entityUpdateBusinessMetadata, entityAddLabel, entityRemoveLabel]

/-- Whether the action is decided for a single entity. -/
def isEntityAction (action : String) : Bool := entityTargetActions.contains action

/-- Whether the action is decided for a relationship. -/
def isRelationshipAction (action : String) : Bool := relationshipActions.contains action

end Action

namespace Dimension

/-- The qualified name of an entity. -/
def entity : String := "entity"
/-- The type of an entity, or one of its ancestors. -/
def entityType : String := "entity-type"
/-- A classification of an entity. -/
def entityClassification : String := "entity-classification"
/-- A label of an entity. -/
def entityLabel : String := "entity-label"
/-- The business metadata of an entity. -/
def entityBusinessMetadata : String := "entity-business-metadata"
/-- A classification as such. -/
def classification : String := "classification"
/-- A classification, in tag policies. -/
def tag : String := "tag"
/-- The type of a relationship. -/
def relationshipType : String := "relationship-type"
/-- What the dimensions of the first end of a relationship start with. -/
def endOne : String := "end-one-"
/-- What the dimensions of the second end of a relationship start with. -/
def endTwo : String := "end-two-"
/-- The qualified name of the first end. -/
def endOneEntity : String := "end-one-entity"
/-- The type of the first end. -/
def endOneEntityType : String := "end-one-entity-type"
/-- A classification of the first end. -/
def endOneEntityClassification : String := "end-one-entity-classification"
/-- The qualified name of the second end. -/
def endTwoEntity : String := "end-two-entity"
/-- The type of the second end. -/
def endTwoEntityType : String := "end-two-entity-type"
/-- A classification of the second end. -/
def endTwoEntityClassification : String := "end-two-entity-classification"

end Dimension

/-- The pattern that every value matches. -/
def wildcard : String := "*"

/-- What stands for the name of the requesting user in a pattern. -/
def userPlaceholder : String := "\x7bUSER\x7d"

namespace Label

/-- What the labels of personas and of their policies start with. -/
def personaStem : String := "persona:"

/-- What the labels of persona policies start with. -/
def personaPolicyStem : String := "persona:policy:"

/-- The label of every policy that belongs to some persona. -/
def personaType : String := "type:persona"

/-- The label of the policies of a persona. -/
def persona (guid : String) : String := personaStem ++ guid

/-- The label of the policies of a persona policy. -/
def personaPolicy (guid : String) : String := personaPolicyStem ++ guid

/-- The labels of a policy synthesized for a persona policy. -/
def ofPersonaPolicy (personaGuid policyGuid : String) : List String :=
  [persona personaGuid, personaPolicy policyGuid, personaType]

end Label

/-- The role whose members administer a connection. -/
def connectionAdminRole (connectionGuid : String) : String := "connection_admins_" ++ connectionGuid

end CatalogAccess
