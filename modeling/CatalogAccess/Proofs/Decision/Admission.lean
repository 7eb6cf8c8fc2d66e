import CatalogAccess.Decision
import CatalogAccess.Proofs.Pattern

/-!
# What a resource map admits

A dimension of a resource map looks at some values of a target, such as the qualified name or the
classifications (`Target.seen?`), and admits the target when the bare wildcard is among its own
values or when one of them matches something it sees (`Target.Admits`). A dimension that does not
concern the target sees nothing and admits everything. `Policy.covers_iff` shows that a policy covers
a target exactly when each dimension that it declares admits the target.
-/

namespace CatalogAccess

/-- Something seen matches one of the patterns for the user. -/
def Pattern.MatchesSome (patterns : List String) (user : String) (seen : List String) : Prop :=
  ∃ v ∈ seen, ∃ p ∈ patterns, Glob.Matches (glob p user) v.toList

theorem Pattern.acceptsAny_iff_matchesSome {patterns seen : List String} {user : String} :
    acceptsAny patterns seen user = true ↔ MatchesSome patterns user seen := by
  rw [acceptsAny_iff]
  simp only [Glob.accepts_iff_matches, MatchesSome]

/-- What a dimension looks at in an entity; nothing when it is not about entities. -/
def Entity.seen? (e : Entity) (dimension : String) : Option (List String) :=
  if dimension = Dimension.entity ∨ dimension = Dimension.entityBusinessMetadata then
    some e.qualifiedName?.toList
  else if dimension = Dimension.entityType then some (e.typeName :: e.superTypeNames)
  else if dimension = Dimension.tag ∨ dimension = Dimension.entityClassification then
    some (e.classifications.map Classification.typeName)
  else none

/-- What a dimension looks at in a relationship: the type, or what the rest of its name looks at in
one of the ends. -/
def Relationship.seen? (r : Relationship) (dimension : String) : Option (List String) :=
  if dimension = Dimension.relationshipType then some [r.relationshipType]
  else
    match Text.dropStart? dimension Dimension.endOne, Text.dropStart? dimension Dimension.endTwo with
    | some rest, _ => r.endOne.seen? rest
    | none, some rest => r.endTwo.seen? rest
    | none, none => none

/-- What a dimension looks at in a target. -/
def Target.seen? : Target → String → Option (List String)
  | entity e => e.seen?
  | relationship r => r.seen?

/-- A dimension admits the target for the user. -/
def Target.Admits (t : Target) (user dimension : String) (values : List String) : Prop :=
  wildcard ∈ values ∨ ∀ seen, t.seen? dimension = some seen → Pattern.MatchesSome values user seen

/-- A dimension with more values admits no less. -/
theorem Target.Admits.of_subset {t : Target} {user d : String} {vs ws : List String}
    (h : t.Admits user d vs) (hsubset : vs ⊆ ws) : t.Admits user d ws := by
  rcases h with hwildcard | hmatch
  · exact .inl (hsubset hwildcard)
  · refine .inr fun seen hseen => ?_
    obtain ⟨v, hv, p, hp, hmatches⟩ := hmatch seen hseen
    exact ⟨v, hv, p, hsubset hp, hmatches⟩

theorem hasWildcard_iff {values : List String} : hasWildcard values = true ↔ wildcard ∈ values :=
  List.contains_iff_mem

/-- The test of a dimension without the bare wildcard looks at what the dimension sees. -/
theorem Entity.matchesDimension_iff {e : Entity} {user d : String} {values : List String} :
    e.matchesDimension user d values = true ↔
      ∀ seen, e.seen? d = some seen → Pattern.MatchesSome values user seen := by
  unfold matchesDimension seen?
  split
  · -- The qualified name.
    simp only [Option.some.injEq, forall_eq', ← Pattern.acceptsAny_iff_matchesSome]
    cases e.qualifiedName? with
    | none => exact Iff.rfl
    | some name => exact Iff.rfl
  · split
    · -- The type and its ancestors.
      have hsame : ∀ v, v ∈ e.typeAndAncestors.toList ↔ v ∈ e.typeName :: e.superTypeNames := by
        intro v
        rw [typeAndAncestors, NameSet.mem_toList, NameSet.mem_ofList]
      simp only [Option.some.injEq, forall_eq', ← Pattern.acceptsAny_iff_matchesSome,
        Pattern.acceptsAny_congr hsame]
    · split
      · -- The classifications.
        simp only [Option.some.injEq, forall_eq', ← Pattern.acceptsAny_iff_matchesSome,
          allClassifications]
      · simp

theorem Entity.isAdmitted_iff {e : Entity} {user d : String} {values : List String} :
    e.isAdmitted user d values = true ↔ (Target.entity e).Admits user d values := by
  rw [isAdmitted, Bool.or_eq_true, hasWildcard_iff, matchesDimension_iff]
  rfl

/-- An end of a relationship is tested as an entity by the rest of the dimension's name. -/
theorem Relationship.isAdmitted_iff {r : Relationship} {user d : String} {values : List String} :
    r.isAdmitted user d values = true ↔ (Target.relationship r).Admits user d values := by
  by_cases hw : hasWildcard values = true
  · rw [isAdmitted, hw, Bool.true_or, Target.Admits]
    exact iff_of_true rfl (.inl (hasWildcard_iff.1 hw))
  · -- Without the bare wildcard an end is admitted for what it shows.
    have hend : ∀ (e : Entity) (rest : String), e.isAdmitted user rest values = true ↔
        ∀ seen, e.seen? rest = some seen → Pattern.MatchesSome values user seen := by
      intro e rest
      rw [Entity.isAdmitted_iff, Target.Admits, ← hasWildcard_iff, or_iff_right hw]
      rfl
    rw [Target.Admits, ← hasWildcard_iff, or_iff_right hw]
    show _ ↔ ∀ seen, r.seen? d = some seen → _
    rw [isAdmitted, Bool.or_eq_true, or_iff_right hw, seen?]
    split
    · simp only [Option.some.injEq, forall_eq', Pattern.acceptsAny_iff_matchesSome]
    · cases Text.dropStart? d Dimension.endOne with
      | some rest => exact hend r.endOne rest
      | none =>
        cases Text.dropStart? d Dimension.endTwo with
        | some rest => exact hend r.endTwo rest
        | none => simp

namespace Policy

/-- The shortcut for bare wildcards changes nothing, as long as each dimension with a bare wildcard
passes. -/
theorem allWildcard_or_all_iff {p : Policy} {test : String → List String → Bool}
    (h : ∀ d values, hasWildcard values = true → test d values = true) :
    (p.isAllWildcard || p.resources.toList.all fun d => test d.1 d.2) = true ↔
      ∀ d values, p.resource? d = some values → test d values = true := by
  have hall : (p.resources.toList.all fun d => test d.1 d.2) = true ↔
      ∀ d values, p.resource? d = some values → test d values = true := by
    simp only [List.all_eq_true, resource?, NameMap.get?_eq_some_iff, Prod.forall]
  rw [Bool.or_eq_true, hall, or_iff_right_iff_imp]
  -- Where every dimension has the bare wildcard, each of them passes.
  intro hw d values hv
  have hmem : values ∈ p.resources.values :=
    List.mem_map_of_mem (NameMap.get?_eq_some_iff.1 hv)
  exact h d values (List.all_eq_true.1 hw values hmem)

/-- An entity is covered when every dimension admits it. -/
theorem coversEntity_iff {p : Policy} {user : String} {e : Entity} :
    p.coversEntity user e = true ↔
      ∀ d values, p.resource? d = some values → e.isAdmitted user d values = true :=
  allWildcard_or_all_iff fun d values hw => by rw [Entity.isAdmitted, hw, Bool.true_or]

/-- A relationship is covered when every dimension admits it. -/
theorem coversRelationship_iff {p : Policy} {user : String} {r : Relationship} :
    p.coversRelationship user r = true ↔
      ∀ d values, p.resource? d = some values → r.isAdmitted user d values = true :=
  allWildcard_or_all_iff fun d values hw => by rw [Relationship.isAdmitted, hw, Bool.true_or]

/-- A target is covered when every dimension that the policy declares admits it. -/
theorem covers_iff {p : Policy} {user : String} {t : Target} :
    p.covers user t = true ↔
      ∀ d values, p.resource? d = some values → t.Admits user d values := by
  cases t with
  | entity e =>
    rw [covers, coversEntity_iff]
    simp only [Entity.isAdmitted_iff]
  | relationship r =>
    rw [covers, coversRelationship_iff]
    simp only [Relationship.isAdmitted_iff]

end Policy

end CatalogAccess
