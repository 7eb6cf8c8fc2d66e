import CatalogAccess.NameMap
import CatalogAccess.Vocabulary

/-!
# Policies

A policy targets a set of objects through its resource map, which lists patterns for each of its
dimensions, and grants or denies accesses to subjects through its items. Policies belong to one of
four services: resource, tag and condition policies decide access to the catalogue, and data
policies are kept for the query engines.
-/

namespace CatalogAccess

/-- The patterns of each resource dimension, in the order given. -/
abbrev ResourceMap := NameMap (List String)

/-- Whether a policy grants or denies; a denial takes precedence. -/
inductive Effect where
  /-- The request is granted. -/
  | allow
  /-- The request is refused. -/
  | deny
deriving DecidableEq, Repr

/-- The collection that a policy belongs to. -/
inductive Policy.Service where
  /-- Policies over resource patterns. -/
  | resource
  /-- Policies over classifications. -/
  | tag
  /-- Policies over conditions on attributes. -/
  | condition
  /-- Policies on the data itself. -/
  | data
deriving DecidableEq, Repr

/-- What a policy does to what it targets. -/
inductive Policy.Kind where
  /-- It grants or denies access. -/
  | access
  /-- It masks data. -/
  | dataMask
deriving DecidableEq, Repr

/-- What a policy targets. -/
inductive Policy.Category where
  /-- Entities. -/
  | entity
  /-- Relationships between entities. -/
  | relationship
deriving DecidableEq, Repr

/-- A grant, or a denial, of accesses to subjects. -/
structure Policy.Item where
  /-- The actions concerned. -/
  accesses : NameSet := ∅
  /-- The users named. -/
  users : List String := []
  /-- The user groups named. -/
  groups : List String := []
  /-- The roles named. -/
  roles : List String := []
  /-- Whether the subjects may pass the grant on. -/
  delegateAdmin : Bool := false
deriving DecidableEq, Repr

/-- An item of a masking policy. -/
structure Policy.MaskItem where
  /-- The subjects and accesses. -/
  item : Policy.Item
  /-- The way in which data is masked. -/
  maskType : String
deriving DecidableEq, Repr

/-- A policy as the policy authority holds it. -/
structure Policy where
  /-- The identifier, once the authority has assigned one. -/
  id : Option String := none
  /-- The name. -/
  name : String
  /-- The collection that the policy belongs to. -/
  service : Policy.Service
  /-- What the policy does. -/
  kind : Policy.Kind := .access
  /-- What the policy targets. -/
  category : Policy.Category := .entity
  /-- The patterns of the target. -/
  resources : ResourceMap := ∅
  /-- The grants. -/
  allowItems : List Policy.Item := []
  /-- The denials. -/
  denyItems : List Policy.Item := []
  /-- The masked grants. -/
  maskItems : List Policy.MaskItem := []
  /-- The text of the conditions of a condition policy. -/
  criteria : Option String := none
  /-- The labels, which tie the policy to personas. -/
  labels : NameSet := ∅
  /-- Whether decisions consider the policy. -/
  enabled : Bool := true
deriving DecidableEq

namespace Policy

/-- The name of a service on the wire. -/
def Service.text : Service → String
  | resource => "atlas"
  | tag => "atlas_tag"
  | condition => "atlas_abac"
  | data => "heka"

namespace Item

/-- An item that grants accesses to one role. -/
def forRole (accesses : NameSet) (role : String) : Item := { accesses, roles := [role] }

/-- Whether the item names anybody. -/
def hasSubjects (i : Item) : Bool := !(i.users.isEmpty && i.groups.isEmpty && i.roles.isEmpty)

/-- Whether the item names users or groups beside its roles. -/
def isShared (i : Item) : Bool := !i.users.isEmpty || !i.groups.isEmpty

/-- Whether the item names the role. -/
def hasRole (i : Item) (role : String) : Bool := i.roles.contains role

/-- The item without a role. -/
def withoutRole (i : Item) (role : String) : Item :=
  { i with roles := i.roles.filter (· ≠ role) }

/-- Whether the item grants one of the actions. -/
def grantsAny (i : Item) (actions : List String) : Bool := actions.any i.accesses.contains

/-- Whether the item names the user, one of the groups or one of the roles. -/
def includesSubject (i : Item) (user : String) (groups roles : NameSet) : Bool :=
  i.users.contains user || i.groups.any groups.contains || i.roles.any roles.contains

end Item

/-- The policy with the values of one dimension replaced. -/
def withResource (p : Policy) (dimension : String) (values : List String) : Policy :=
  { p with resources := p.resources.insert dimension values }

/-- The items of an effect. -/
def items (p : Policy) : Effect → List Item
  | .allow => p.allowItems
  | .deny => p.denyItems

/-- The policy with the items of an effect replaced. -/
def withItems (p : Policy) (effect : Effect) (items : List Item) : Policy :=
  match effect with
  | .allow => { p with allowItems := items }
  | .deny => { p with denyItems := items }

/-- The policy with one more item of an effect. -/
def withItem (p : Policy) (effect : Effect) (item : Item) : Policy :=
  p.withItems effect (p.items effect ++ [item])

/-- How the policy appears in decisions and audit records: by its identifier, or else by its
name. -/
def displayId (p : Policy) : String := p.id.getD p.name

/-- The first item of an effect, the only one that decisions consult. -/
def firstItem? (p : Policy) (effect : Effect) : Option Item := (p.items effect).head?

/-- Whether the policy has no items of any sort. -/
def hasNoItems (p : Policy) : Bool :=
  p.allowItems.isEmpty && p.denyItems.isEmpty && p.maskItems.isEmpty

/-- Whether the bare wildcard is among the values of every dimension. -/
def isAllWildcard (p : Policy) : Bool := p.resources.values.all (·.contains wildcard)

/-- The values of a dimension, when the policy declares it. -/
def resource? (p : Policy) (dimension : String) : Option (List String) :=
  p.resources.get? dimension

end Policy

end CatalogAccess
