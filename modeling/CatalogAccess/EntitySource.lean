import CatalogAccess.Entity

/-!
# The source of entities and types

Entities are looked up by identifier or by type and qualified name. The types form a hierarchy by
their parents, which may run in circles; the ancestors of a type are what its parents lead to, the
type itself left out. A type is put on a stack when it is found for the first time, and its own parents
are looked up when it is taken off again. So the search ends: `EntitySource.toFollow` falls with every
type that is taken off.
-/

namespace CatalogAccess

/-- The entities of the catalogue and the parents of its types. -/
structure EntitySource where
  /-- The entities by identifier. -/
  entities : NameMap Entity := ∅
  /-- The parents of each type. -/
  parents : NameMap (List String) := ∅

/-- A search through the types on its way. -/
structure Ascent where
  /-- The types found so far. -/
  found : NameSet := ∅
  /-- The types whose parents are still to be looked up, the latest first. -/
  pending : List String := []

/-- Notes a parent. One that has not been found before is found, and is to be followed. -/
def Ascent.note (w : Ascent) (parent : String) : Ascent :=
  if w.found.contains parent then w else ⟨w.found.insert parent, parent :: w.pending⟩

namespace EntitySource

/-- Stores an entity. -/
def insert (s : EntitySource) (e : Entity) : EntitySource :=
  { s with entities := s.entities.insert e.guid e }

/-- Gives a type its parents. -/
def defineType (s : EntitySource) (typeName : String) (parents : List String) : EntitySource :=
  { s with parents := s.parents.insert typeName parents }

/-- The first entity, by identifier, of a type with a qualified name. -/
def named? (s : EntitySource) (typeName qualifiedName : String) : Option Entity :=
  s.entities.values.find? fun e =>
    e.typeName == typeName && e.qualifiedName? == some qualifiedName

/-- The parents of a type. -/
def parentsOf (s : EntitySource) (typeName : String) : List String :=
  (s.parents.get? typeName).getD []

/-- Looks up the parents of a type. -/
def follow (s : EntitySource) (w : Ascent) (typeName : String) : Ascent :=
  (s.parentsOf typeName).foldl Ascent.note w

/-- The parents of all types. -/
def allParents (s : EntitySource) : List String := s.parents.values.flatten

/-- How many types a search can follow at most: those that are pending, and the parents that have not
been found. -/
def toFollow (s : EntitySource) (w : Ascent) : Nat :=
  (NameSet.missing s.allParents w.found).length + w.pending.length

theorem parentsOf_subset (s : EntitySource) (typeName : String) :
    ∀ parent ∈ s.parentsOf typeName, parent ∈ s.allParents := by
  intro parent hparent
  unfold parentsOf at hparent
  cases hget : s.parents.get? typeName with
  | none => simp [hget] at hparent
  | some parents =>
    rw [hget] at hparent
    have hvalues : parents ∈ s.parents.values := List.mem_map.2 ⟨_, NameMap.mem_of_get? hget, rfl⟩
    exact List.mem_flatten.2 ⟨parents, hvalues, hparent⟩

/-- A parent that becomes pending is one that had not been found. -/
theorem toFollow_note_le (s : EntitySource) (w : Ascent) {parent : String}
    (h : parent ∈ s.allParents) : s.toFollow (w.note parent) ≤ s.toFollow w := by
  unfold Ascent.note
  split
  · exact Nat.le_refl _
  · next hnew =>
    have hfewer : (NameSet.missing s.allParents (w.found.insert parent)).length <
        (NameSet.missing s.allParents w.found).length :=
      NameSet.length_missing_lt (fun x hx => NameSet.mem_insert.2 (.inr hx)) h
        (mt NameSet.contains_iff.2 hnew) (NameSet.mem_insert.2 (.inl rfl))
    simp only [toFollow, List.length_cons]
    omega

/-- With a type that is followed there is one less to follow. -/
theorem toFollow_follow_lt (s : EntitySource) (found : NameSet) (current : String)
    (rest : List String) :
    s.toFollow (s.follow ⟨found, rest⟩ current) < s.toFollow ⟨found, current :: rest⟩ := by
  have hfold : ∀ (ps : List String) (w : Ascent), (∀ p ∈ ps, p ∈ s.allParents) →
      s.toFollow (ps.foldl Ascent.note w) ≤ s.toFollow w := by
    intro ps
    induction ps with
    | nil => exact fun w _ => Nat.le_refl _
    | cons p ps ih =>
      intro w hps
      have hrest := ih (w.note p) fun q hq => hps q (List.mem_cons_of_mem p hq)
      exact Nat.le_trans hrest (s.toFollow_note_le w (hps p List.mem_cons_self))
  calc s.toFollow (s.follow ⟨found, rest⟩ current)
      ≤ s.toFollow ⟨found, rest⟩ := hfold _ _ (s.parentsOf_subset current)
    _ < s.toFollow ⟨found, current :: rest⟩ := Nat.lt_succ_self _

/-- Everything that a search finds until there is nothing to follow any more. -/
def climb (s : EntitySource) : Ascent → NameSet
  | ⟨found, []⟩ => found
  | ⟨found, current :: rest⟩ => s.climb (s.follow ⟨found, rest⟩ current)
termination_by w => s.toFollow w
decreasing_by exact s.toFollow_follow_lt found current rest

/-- The ancestors of a type. A type that is its own ancestor is left out in the end only, since its
other ancestors may be found through it. -/
def ancestors (s : EntitySource) (typeName : String) : NameSet :=
  (s.climb { pending := [typeName] }).erase typeName

end EntitySource

end CatalogAccess
