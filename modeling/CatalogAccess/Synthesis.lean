import CatalogAccess.Persona
import CatalogAccess.Uuid
import CatalogAccess.Vocabulary

/-!
# Synthesis of policies

A persona policy is enforced by provisional policies, which are merged into the policies of the
authority. Actions are grouped into families, and each family with an action among those requested
yields one provisional policy: over the resources that the family prescribes for the assets, and
with one item that names the role of the persona. Data policies form a family of their own, which
grants the same whatever actions are requested.
-/

namespace CatalogAccess

namespace Synthesis

/-- What the resources of a family depend on. -/
structure Scope where
  /-- The patterns of the assets. -/
  assets : List String
  /-- The types of entities that metadata policies apply to. -/
  types : List String

/-- A group of actions that one provisional policy enforces. -/
structure Family where
  /-- What the names of its policies start with. -/
  stem : String
  /-- The actions that ask for the family. -/
  triggers : List String
  /-- The accesses granted for those of its actions that are requested. -/
  accesses : List String → List String
  /-- What its policies target. -/
  category : Policy.Category
  /-- The resources of its policies. -/
  resources : Scope → List (String × List String)

/-- The types of metadata entities. -/
def metadataTypes : List String := ["Process", "Catalog"]

/-- The type of glossary terms. -/
def glossaryTermType : String := "AtlasGlossaryTerm"

/-- The types of glossary entities. -/
def glossaryTypes : List String := ["AtlasGlossary", glossaryTermType, "AtlasGlossaryCategory"]

/-- The types of entities that may be linked to assets. -/
def linkableTypes : List String :=
  ["Catalog", "Connection", "Dataset", "Infrastructure", "Process", "ProcessExecution", "Namespace"]

/-- The resources of a relationship between entities of the given names and types. -/
def relationshipResources (one oneTypes two twoTypes : List String) :
    List (String × List String) :=
  [(Dimension.relationshipType, [wildcard]),
    (Dimension.endOneEntity, one), (Dimension.endOneEntityType, oneTypes),
    (Dimension.endOneEntityClassification, [wildcard]),
    (Dimension.endTwoEntity, two), (Dimension.endTwoEntityType, twoTypes),
    (Dimension.endTwoEntityClassification, [wildcard])]

/-- The resources of entities of the given types among the assets. -/
def entityResources (types : List String) (s : Scope) : List (String × List String) :=
  [(Dimension.entityType, types), (Dimension.entityClassification, [wildcard]),
    (Dimension.entity, s.assets)]

/-- The relationship action that stands for a change of the terms of an asset. -/
def termAccess (action : String) : String :=
  if action = Action.addTerms then Action.addRelationship else Action.removeRelationship

/-- The families of metadata policies. -/
def metadataFamilies : List Family :=
  [{ stem := "CRUD-", triggers := Action.entityActions, accesses := id, category := .entity
     resources := fun s => entityResources s.types s },
   { stem := "classification-", triggers := Action.classificationActions, accesses := id
     category := .entity
     resources := fun s => entityResources s.types s ++ [(Dimension.classification, [wildcard])] },
   { stem := "entity-business-metadata-", triggers := [Action.entityUpdateBusinessMetadata]
     accesses := id, category := .entity
     resources := fun s =>
       entityResources s.types s ++ [(Dimension.entityBusinessMetadata, [wildcard])] },
   { stem := "terms-", triggers := Action.termActions, accesses := fun asked => asked.map termAccess
     category := .relationship
     resources := fun s =>
       relationshipResources [wildcard] [glossaryTermType] s.assets [wildcard] },
   { stem := "link-assets-", triggers := [Action.linkAssets]
     accesses := fun _ => [Action.addRelationship, Action.removeRelationship]
     category := .relationship
     resources := fun s => relationshipResources s.assets [wildcard] [wildcard] linkableTypes }]

/-- The families of glossary policies. Linking assets to a term brings the relations between terms
along. -/
def glossaryFamilies : List Family :=
  [{ stem := "Glossary-term-relationship-"
     triggers := [Action.entityCreate, Action.glossaryTermRelationship]
     accesses := fun _ => Action.relationshipActions, category := .relationship
     resources := fun s => relationshipResources s.assets [wildcard] s.assets [wildcard] },
   { stem := "Glossary-", triggers := Action.entityActions, accesses := id, category := .entity
     resources := entityResources glossaryTypes },
   { stem := "Glossary-labels-", triggers := Action.labelActions, accesses := id
     category := .entity
     resources := fun s =>
       entityResources glossaryTypes s ++ [(Dimension.entityLabel, [wildcard])] },
   { stem := "Glossary-classification-", triggers := Action.classificationActions
     accesses := id, category := .entity
     resources := fun s =>
       entityResources glossaryTypes s ++ [(Dimension.classification, [wildcard])] },
   { stem := "Glossary-entity-business-metadata-"
     triggers := [Action.entityUpdateBusinessMetadata], accesses := id, category := .entity
     resources := fun s =>
       entityResources glossaryTypes s ++ [(Dimension.entityBusinessMetadata, [wildcard])] },
   { stem := "Glossary-relationship-", triggers := [Action.linkAssets]
     accesses := fun _ => Action.relationshipActions, category := .relationship
     resources := fun s => relationshipResources s.assets [wildcard] [wildcard] [wildcard] },
   { stem := "Glossary-related-terms-", triggers := [Action.linkAssets, Action.relatedTerms]
     accesses := fun _ => Action.relationshipActions, category := .relationship
     resources := fun s => relationshipResources [wildcard] [wildcard] s.assets [wildcard] }]

/-- The patterns of assets with everything below them. -/
def hierarchicalAssets (assets : List String) : List String :=
  assets ++ assets.map fun a => a ++ "/*"

/-- The patterns of names in which an asset occurs. -/
def containingAssets (assets : List String) : List String := assets.map fun a => "*" ++ a ++ "*"

/-- The labels of the policies that enforce a persona policy. -/
def labels (persona : Persona) (policy : PersonaPolicy) : NameSet :=
  NameSet.ofList (Label.ofPersonaPolicy persona.guid policy.guid)

/-- The item that grants accesses to the role of a persona. -/
def roleItem (persona : Persona) (accesses : List String) : Policy.Item :=
  .forRole (NameSet.ofList accesses) persona.roleName

/-- The provisional policy of a family for the actions requested, named by its stem; nothing when
none of its actions is among them. -/
def Family.provisional? (f : Family) (persona : Persona) (policy : PersonaPolicy)
    (actions : NameSet) (scope : Scope) : Option Policy :=
  let asked := f.triggers.filter actions.contains
  if asked.isEmpty then none
  else
    let p : Policy :=
      { name := f.stem, service := policy.service, category := f.category
        resources := NameMap.ofList (f.resources scope), labels := labels persona policy }
    some (p.withItem policy.effect (roleItem persona (f.accesses asked)))

/-- The provisional policy of a data policy, named by its stem. -/
def dataProvisional (persona : Persona) (policy : PersonaPolicy) : Policy :=
  let p : Policy :=
    { name := "dataPolicy-", service := policy.service, labels := labels persona policy
      resources := NameMap.ofList
        [(Dimension.entityType, [wildcard]), (Dimension.entity, policy.assets)] }
  match policy.maskType.filter fun m => !m.isEmpty with
  | none => p.withItem policy.effect (roleItem persona [Action.select])
  | some maskType =>
    { p with name := "dataPolicy-mask", kind := .dataMask
             maskItems := [⟨roleItem persona [Action.select], maskType⟩] }

/-- The provisional policies for some actions, named by their stems. -/
def provisionals (persona : Persona) (policy : PersonaPolicy) (actions : NameSet) : List Policy :=
  match policy.category with
  | .metadata =>
    let types := if persona.isTypeUnrestricted then [wildcard] else metadataTypes
    let scope : Scope := ⟨hierarchicalAssets policy.assets, types⟩
    metadataFamilies.filterMap fun f => f.provisional? persona policy actions scope
  | .glossary =>
    let scope : Scope := ⟨containingAssets policy.assets, glossaryTypes⟩
    glossaryFamilies.filterMap fun f => f.provisional? persona policy actions scope
  | .data => [dataProvisional persona policy]

/-- Completes the names of policies with fresh identifiers, the first of which is that of the given
draw. -/
def complete (draw : Nat) : List Policy → List Policy
  | [] => []
  | p :: ps => { p with name := p.name ++ Uuid.ofDraw draw } :: complete (draw + 1) ps

end Synthesis

/-- The provisional policies for some actions of a persona policy. -/
def synthesizeActions (draw : Nat) (persona : Persona) (policy : PersonaPolicy)
    (actions : NameSet) : List Policy :=
  Synthesis.complete draw (Synthesis.provisionals persona policy actions)

/-- The provisional policies of a persona policy. -/
def synthesize (draw : Nat) (persona : Persona) (policy : PersonaPolicy) : List Policy :=
  synthesizeActions draw persona policy policy.actions

end CatalogAccess
