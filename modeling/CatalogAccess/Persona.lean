import CatalogAccess.Error
import CatalogAccess.Json.Record
import CatalogAccess.Policy
import CatalogAccess.Text

/-!
# Personas and persona policies

A persona is a named group of subjects that is backed by one role of the policy authority. A
persona policy states, for a persona, which actions its members may take on which assets, or may
not take; the policies that enforce it are synthesized from it.
-/

namespace CatalogAccess

/-- Whether an object of the catalog is in use. -/
inductive Status where
  /-- It is in use. -/
  | active
  /-- It has been deleted. -/
  | deleted
deriving DecidableEq, Repr

/-- A persona. -/
structure Persona where
  /-- The identifier, assigned by the catalog when it is empty. -/
  guid : String := ""
  /-- The name shown to people. -/
  name : String
  /-- The tenant and a unique part; it is also the name of the role. -/
  qualifiedName : String := ""
  /-- The tenant. -/
  tenantId : Option String := none
  /-- Whether the persona's grants are in force. -/
  enabled : Bool := true
  /-- The identifier of the role, once it exists. -/
  roleId : Option String := none
  /-- The users of the persona. -/
  users : List String := []
  /-- The user groups of the persona. -/
  groups : List String := []
  /-- Whether the persona is in use. -/
  status : Status := .active
deriving DecidableEq, Repr

/-- What a persona policy is about. -/
inductive PersonaPolicy.Category where
  /-- The assets of a connection. -/
  | metadata
  /-- Glossaries and their terms. -/
  | glossary
  /-- The data of a connection. -/
  | data
deriving DecidableEq, Repr

/-- A persona policy. -/
structure PersonaPolicy where
  /-- The identifier, assigned by the catalog when it is empty. -/
  guid : String := ""
  /-- The persona that the policy belongs to. -/
  personaGuid : String
  /-- The name shown to people. -/
  name : String
  /-- The qualified name. -/
  qualifiedName : String := ""
  /-- What the policy is about. -/
  category : PersonaPolicy.Category
  /-- The actions concerned. -/
  actions : NameSet
  /-- The assets concerned. -/
  assets : List String
  /-- The connection of the assets. -/
  connectionId : Option String := none
  /-- Whether the actions are granted; they are denied otherwise. -/
  allow : Bool := true
  /-- The way in which data is masked. -/
  maskType : Option String := none
  /-- Whether the policy is in use. -/
  status : Status := .active
deriving DecidableEq, Repr

namespace Status

/-- The name of a status. -/
def text : Status → String
  | active => "ACTIVE"
  | deleted => "DELETED"

/-- Reads a status. -/
def ofDocument? : Document → Option Status :=
  Document.choice? fun s => [active, deleted].find? (·.text == s)

end Status

namespace Persona

/-- The name of the role that carries the grants of the persona. -/
def roleName (p : Persona) : String := p.qualifiedName

/-- Whether the persona is in use. -/
def isActive (p : Persona) : Bool := p.status == .active

/-- Whether the grants of the persona apply to entities of every type: so it is for the personas of
collections and connections. -/
def isTypeUnrestricted (p : Persona) : Bool :=
  Text.startsWith p.name "collection" || Text.startsWith p.name "connection"

/-- What is wrong with the fields of a persona. -/
def check (p : Persona) : Except AccessError Unit :=
  if p.name.isEmpty then .error (.validation "name: Please provide a name for the persona")
  else .ok ()

/-- Reads a persona. -/
def ofDocument? (d : Document) : Option Persona := do
  let r ← d.record? ["guid", "name", "qualifiedName", "tenantId", "enabled", "roleId", "users",
    "groups", "status"] 2
  let guid ← r.withDefault "guid" "" Document.string?
  let name ← r.required "name" Document.string?
  let qualifiedName ← r.withDefault "qualifiedName" "" Document.string?
  let tenantId ← r.optional "tenantId" Document.string?
  let enabled ← r.withDefault "enabled" true Document.bool?
  let roleId ← r.optional "roleId" Document.string?
  let users ← r.withDefault "users" [] Document.strings?
  let groups ← r.withDefault "groups" [] Document.strings?
  let status ← r.withDefault "status" .active Status.ofDocument?
  return { guid, name, qualifiedName, tenantId, enabled, roleId, users, groups, status }

/-- The JSON form of a persona. -/
def toJson (p : Persona) : Json :=
  .obj ([("enabled", .bool p.enabled), ("groups", Json.strings p.groups), ("guid", .str p.guid),
      ("name", .str p.name), ("qualifiedName", .str p.qualifiedName)] ++
    Json.memberOf "roleId" p.roleId ++ [("status", .str p.status.text)] ++
    Json.memberOf "tenantId" p.tenantId ++ [("users", Json.strings p.users)])

end Persona

namespace PersonaPolicy

namespace Category

/-- The name of a category. -/
def text : Category → String
  | metadata => "metadata"
  | glossary => "glossary"
  | data => "data"

/-- Reads a category. -/
def ofDocument? : Document → Option Category :=
  Document.choice? fun s => [metadata, glossary, data].find? (·.text == s)

/-- Whether policies of the category name a connection. -/
def requiresConnection : Category → Bool
  | metadata => true
  | glossary => false
  | data => true

end Category

/-- Whether the policy is in use. -/
def isActive (p : PersonaPolicy) : Bool := p.status == .active

/-- Whether the policy masks data. -/
def isDataMask (p : PersonaPolicy) : Bool :=
  p.category == .data && p.maskType.any fun m => !m.isEmpty

/-- The effect of the policy. -/
def effect (p : PersonaPolicy) : Effect := if p.allow then .allow else .deny

/-- The kind of the policies that enforce it. -/
def kind (p : PersonaPolicy) : Policy.Kind := if p.isDataMask then .dataMask else .access

/-- The service of the policies that enforce it. -/
def service (p : PersonaPolicy) : Policy.Service :=
  if p.category = .data then .data else .resource

/-- Whether the policy names no connection. -/
def lacksConnection (p : PersonaPolicy) : Bool := p.connectionId.all Text.isBlank

/-- What is wrong with the fields of a persona policy, in the order in which it is reported. -/
def problems (p : PersonaPolicy) : List String :=
  (if p.name.isEmpty then ["Please provide a name for persona policy"] else []) ++
  (if p.actions.isEmpty then ["Please provide actions for persona policy"] else []) ++
  (if p.assets.isEmpty then ["Please provide assets for persona policy"] else []) ++
  (if p.category.requiresConnection && p.lacksConnection then
    ["Please provide connectionGuid for persona policy"] else [])

/-- Refuses a persona policy with something wrong in its fields. -/
def check (p : PersonaPolicy) : Except AccessError Unit :=
  if p.problems.isEmpty then .ok () else .error (.validation ("; ".intercalate p.problems))

/-- Whether two persona policies are about the same set of assets. -/
def sameAssets (p q : PersonaPolicy) : Bool := NameSet.ofList p.assets == NameSet.ofList q.assets

/-- Whether a data policy has begun or ceased to mask since an earlier version. -/
def maskKindChanged (p prior : PersonaPolicy) : Bool :=
  p.category == .data && p.isDataMask != prior.isDataMask

/-- Reads a persona policy. -/
def ofDocument? (d : Document) : Option PersonaPolicy := do
  let r ← d.record? ["guid", "personaGuid", "name", "qualifiedName", "category", "actions",
    "assets", "connectionId", "allow", "maskType", "status"] 7
  let guid ← r.withDefault "guid" "" Document.string?
  let personaGuid ← r.required "personaGuid" Document.string?
  let name ← r.required "name" Document.string?
  let qualifiedName ← r.withDefault "qualifiedName" "" Document.string?
  let category ← r.required "category" Category.ofDocument?
  let actions ← r.required "actions" Document.names?
  let assets ← r.required "assets" Document.strings?
  let connectionId ← r.optional "connectionId" Document.string?
  let allow ← r.withDefault "allow" true Document.bool?
  let maskType ← r.optional "maskType" Document.string?
  let status ← r.withDefault "status" .active Status.ofDocument?
  return { guid, personaGuid, name, qualifiedName, category, actions, assets, connectionId, allow,
           maskType, status }

/-- The JSON form of a persona policy. -/
def toJson (p : PersonaPolicy) : Json :=
  .obj ([("actions", Json.strings p.actions.toList), ("allow", .bool p.allow),
      ("assets", Json.strings p.assets), ("category", .str p.category.text)] ++
    Json.memberOf "connectionId" p.connectionId ++ [("guid", .str p.guid)] ++
    Json.memberOf "maskType" p.maskType ++
    [("name", .str p.name), ("personaGuid", .str p.personaGuid),
      ("qualifiedName", .str p.qualifiedName), ("status", .str p.status.text)])

end PersonaPolicy

end CatalogAccess
