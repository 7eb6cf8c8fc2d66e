import CatalogAccess.NameMap
import CatalogAccess.NameSet.Saturation
import CatalogAccess.Role

/-!
# Subjects

A request comes from a user, who belongs to user groups and holds roles. A role is held directly
when it names the user or one of the user's groups, and indirectly when one of its member roles is
held. `Subjects.rolesFor` closes the direct roles under membership; membership may run in circles.
-/

namespace CatalogAccess

/-- The roles of the authority and the groups of each user, at one point in time. -/
structure Subjects where
  /-- The roles. -/
  roles : List Role := []
  /-- The groups of each user. -/
  userGroups : NameMap NameSet := ∅

/-- The subject of a request. -/
structure Subject where
  /-- The user. -/
  user : String
  /-- The groups of the user. -/
  groups : NameSet
  /-- The names of the roles that the user holds. -/
  roles : NameSet
deriving DecidableEq, Repr

namespace Subjects

/-- The first role of a name. -/
def role? (s : Subjects) (name : String) : Option Role := s.roles.find? (·.name == name)

/-- The groups of a user. -/
def groupsFor (s : Subjects) (user : String) : NameSet := (s.userGroups.get? user).getD ∅

/-- The roles that name the user or one of the user's groups. -/
def directRoles (s : Subjects) (user : String) : NameSet :=
  let groups := s.groupsFor user
  let direct := s.roles.filter fun r => r.hasUser user || r.groups.any groups.contains
  NameSet.ofList (direct.map Role.name)

/-- The roles with a member role in a set. -/
def rolesOver (s : Subjects) (held : NameSet) : List String :=
  (s.roles.filter fun r => r.roles.any held.contains).map Role.name

/-- The names of the roles that a user holds, directly or through member roles. Roles are all that
can be added, so there are never more rounds than roles. -/
def rolesFor (s : Subjects) (user : String) : NameSet :=
  NameSet.saturate s.rolesOver s.roles.length (s.directRoles user)

/-- The subject of a user's requests. -/
def resolve (s : Subjects) (user : String) : Subject := ⟨user, s.groupsFor user, s.rolesFor user⟩

end Subjects

end CatalogAccess
