import CatalogAccess.Json.Record
import CatalogAccess.Policy

/-!
# Policies in documents

Reading policies from documents and writing them as JSON. The accesses and labels of a policy are
sets and are written in increasing order. The fields of a mask item stand beside its mask, so all
that is not in the mask must be readable, and a mask item has no list form.
-/

namespace CatalogAccess

/-- The name of an effect. -/
def Effect.text : Effect → String
  | allow => "allow"
  | deny => "deny"

/-- Reads an effect. -/
def Effect.ofDocument? : Document → Option Effect :=
  Document.choice? fun s => [allow, deny].find? (·.text == s)

namespace Policy

/-- Reads a service. -/
def Service.ofDocument? : Document → Option Service :=
  Document.choice? fun s => [resource, tag, condition, data].find? (·.text == s)

/-- The name of a kind of policy. -/
def Kind.text : Kind → String
  | access => "access"
  | dataMask => "datamask"

/-- Reads a kind of policy. -/
def Kind.ofDocument? : Document → Option Kind :=
  Document.choice? fun s => [access, dataMask].find? (·.text == s)

/-- The name of a category. -/
def Category.text : Category → String
  | entity => "ENTITY"
  | relationship => "RELATIONSHIP"

/-- Reads a category. -/
def Category.ofDocument? : Document → Option Category :=
  Document.choice? fun s => [entity, relationship].find? (·.text == s)

/-- Reads a resource map. -/
def resourcesOfDocument? : Document → Option ResourceMap := Document.map? Document.strings?

/-- The JSON form of a resource map. -/
def resourcesToJson (m : ResourceMap) : Json := Json.ofMap (m.mapValues fun _ vs => Json.strings vs)

namespace Item

/-- The declared fields of an item. -/
def fieldNames : List String := ["accesses", "users", "groups", "roles", "delegateAdmin"]

/-- Reads an item from its fields. -/
def ofRecord? (r : Record) : Option Item := do
  let accesses ← r.withDefault "accesses" ∅ Document.names?
  let users ← r.withDefault "users" [] Document.strings?
  let groups ← r.withDefault "groups" [] Document.strings?
  let roles ← r.withDefault "roles" [] Document.strings?
  let delegateAdmin ← r.withDefault "delegateAdmin" false Document.bool?
  return { accesses, users, groups, roles, delegateAdmin }

/-- Reads an item. -/
def ofDocument? (d : Document) : Option Item := (d.record? fieldNames 0).bind ofRecord?

/-- The JSON form of an item. -/
def toJson (i : Item) : Json :=
  .obj [("accesses", Json.strings i.accesses.toList), ("delegateAdmin", .bool i.delegateAdmin),
    ("groups", Json.strings i.groups), ("roles", Json.strings i.roles),
    ("users", Json.strings i.users)]

end Item

namespace MaskItem

/-- Reads the mask of a mask item. -/
def maskTypeOfDocument? (d : Document) : Option String := do
  let r ← d.record? ["dataMaskType"] 1
  r.required "dataMaskType" Document.string?

/-- Reads a mask item. -/
def ofDocument? : Document → Option MaskItem
  | .obj members =>
    if (Document.obj (members.filter (·.1 != some "dataMaskInfo"))).isReadable then do
      let r ← (Document.obj members).record? (Item.fieldNames ++ ["dataMaskInfo"]) 0
      let item ← Item.ofRecord? r
      let maskType ← r.required "dataMaskInfo" maskTypeOfDocument?
      return { item, maskType }
    else none
  | _ => none

/-- The JSON form of a mask item. -/
def toJson (m : MaskItem) : Json :=
  .obj [("accesses", Json.strings m.item.accesses.toList),
    ("dataMaskInfo", .obj [("dataMaskType", .str m.maskType)]),
    ("delegateAdmin", .bool m.item.delegateAdmin), ("groups", Json.strings m.item.groups),
    ("roles", Json.strings m.item.roles), ("users", Json.strings m.item.users)]

end MaskItem

/-- Reads a policy. -/
def ofDocument? (d : Document) : Option Policy := do
  let r ← d.record? ["id", "name", "service", "policyType", "policyResourceCategory", "resources",
    "policyItems", "denyPolicyItems", "dataMaskPolicyItems", "filterCriteria", "policyLabels",
    "isEnabled"] 3
  let id ← r.optional "id" Document.string?
  let name ← r.required "name" Document.string?
  let service ← r.required "service" Service.ofDocument?
  let kind ← r.withDefault "policyType" .access Kind.ofDocument?
  let category ← r.withDefault "policyResourceCategory" .entity Category.ofDocument?
  let resources ← r.withDefault "resources" ∅ resourcesOfDocument?
  let allowItems ← r.withDefault "policyItems" [] (Document.list? Item.ofDocument?)
  let denyItems ← r.withDefault "denyPolicyItems" [] (Document.list? Item.ofDocument?)
  let maskItems ← r.withDefault "dataMaskPolicyItems" [] (Document.list? MaskItem.ofDocument?)
  let criteria ← r.optional "filterCriteria" Document.string?
  let labels ← r.withDefault "policyLabels" ∅ Document.names?
  let enabled ← r.withDefault "isEnabled" true Document.bool?
  return { id, name, service, kind, category, resources, allowItems, denyItems, maskItems,
           criteria, labels, enabled }

/-- The JSON form of a policy. -/
def toJson (p : Policy) : Json :=
  .obj ([("dataMaskPolicyItems", .arr (p.maskItems.map MaskItem.toJson)),
      ("denyPolicyItems", .arr (p.denyItems.map Item.toJson))] ++
    Json.memberOf "filterCriteria" p.criteria ++ Json.memberOf "id" p.id ++
    [("isEnabled", .bool p.enabled), ("name", .str p.name),
      ("policyItems", .arr (p.allowItems.map Item.toJson)),
      ("policyLabels", Json.strings p.labels.toList),
      ("policyResourceCategory", .str p.category.text), ("policyType", .str p.kind.text),
      ("resources", resourcesToJson p.resources), ("service", .str p.service.text)])

end Policy

end CatalogAccess
