import CatalogAccess.Decision

/-!
# Accessors

Who may take an action on a target, and who may not: the subjects named by the items of all
policies that apply to the target. There is no requesting user here, so the user placeholder stands
for the empty name.
-/

namespace CatalogAccess

/-- The subjects that are granted and denied an action. -/
structure Accessors where
  /-- The users granted. -/
  users : NameSet := ∅
  /-- The groups granted. -/
  groups : NameSet := ∅
  /-- The roles granted. -/
  roles : NameSet := ∅
  /-- The users denied. -/
  deniedUsers : NameSet := ∅
  /-- The groups denied. -/
  deniedGroups : NameSet := ∅
  /-- The roles denied. -/
  deniedRoles : NameSet := ∅
deriving DecidableEq, Repr

namespace Accessors

/-- The JSON form of accessors. -/
def toJson (a : Accessors) : Json :=
  .obj [("deniedGroups", Json.strings a.deniedGroups.toList),
    ("deniedRoles", Json.strings a.deniedRoles.toList),
    ("deniedUsers", Json.strings a.deniedUsers.toList),
    ("groups", Json.strings a.groups.toList), ("roles", Json.strings a.roles.toList),
    ("users", Json.strings a.users.toList)]

end Accessors

namespace AccessView

/-- The items of an effect that concern an action, of all policies that apply to a target. -/
def accessItems (v : AccessView) (action : String) (t : Target) (effect : Effect) :
    List Policy.Item :=
  let policies := serviceOrder.flatMap fun service =>
    (v.relevant none action effect t.category service).filter (·.appliesTo service "" t)
  policies.flatMap fun p => (p.items effect).filter (·.accesses.contains action)

/-- Who may take an action on a target, and who may not. -/
def accessors (v : AccessView) (action : String) (t : Target) : Accessors :=
  let granted := v.accessItems action t .allow
  let denied := v.accessItems action t .deny
  { users := NameSet.ofList (granted.flatMap Policy.Item.users)
    groups := NameSet.ofList (granted.flatMap Policy.Item.groups)
    roles := NameSet.ofList (granted.flatMap Policy.Item.roles)
    deniedUsers := NameSet.ofList (denied.flatMap Policy.Item.users)
    deniedGroups := NameSet.ofList (denied.flatMap Policy.Item.groups)
    deniedRoles := NameSet.ofList (denied.flatMap Policy.Item.roles) }

end AccessView

end CatalogAccess
