import CatalogAccess.Proofs.Query.Prefilter

/-!
# The ends of a relationship

The dimensions of a policy on relationships are about the type or about one of the ends, and those of
an end are read as the dimensions of an entity once the stem of the end is taken away
(`get?_endResources`). `coversRelationship_eq` shows that a relationship is covered exactly when its
type is admitted and each end is covered by its own dimensions, so that the clauses of the two ends
together say whether a policy applies (`appliesTo_eq_endClauses`).
-/

namespace CatalogAccess

variable {e : Entity}

/-! ### Texts -/

/-- What follows a start is the rest of the text. -/
theorem Text.dropStart?_eq_some_iff {s start rest : String} :
    dropStart? s start = some rest ↔ s = start ++ rest := by
  have hstarts : startsWith s start = true ↔ ∃ r, s = start ++ r := by
    unfold startsWith
    rw [List.isPrefixOf_iff_prefix]
    constructor
    · rintro ⟨r, hr⟩
      exact ⟨String.ofList r, String.toList_inj.1 (by simp [← hr])⟩
    · rintro ⟨r, rfl⟩
      exact ⟨r.toList, String.toList_append.symm⟩
  have hdrop : ∀ r, String.ofList ((start ++ r).toList.drop start.length) = r := by
    intro r
    rw [String.toList_append, ← String.length_toList, List.drop_left, String.ofList_toList]
  unfold dropStart?
  constructor
  · intro h
    split at h
    · next hs =>
      obtain ⟨r, rfl⟩ := hstarts.1 hs
      rw [hdrop, Option.some.injEq] at h
      rw [h]
    · exact absurd h (Option.some_ne_none rest).symm
  · rintro rfl
    rw [if_pos (hstarts.2 ⟨rest, rfl⟩), hdrop]

namespace AccessView

/-- What starts like one end does not start like the other. -/
theorem End.stem_append_inj {a b : End} {s t : String} (h : a.stem ++ s = b.stem ++ t) :
    a = b ∧ s = t := by
  have hlist := congrArg String.toList h
  rw [String.toList_append, String.toList_append] at hlist
  cases a <;> cases b <;>
    simp [End.stem, Dimension.endOne, Dimension.endTwo] at hlist ⊢ <;>
    exact String.toList_inj.1 hlist

/-- The dimension of types is not about an end. -/
theorem End.stem_append_ne_type (x : End) (d : String) :
    x.stem ++ d ≠ Dimension.relationshipType := by
  intro h
  have hlist := congrArg String.toList h
  rw [String.toList_append] at hlist
  cases x <;> simp [End.stem, Dimension.endOne, Dimension.endTwo, Dimension.relationshipType] at hlist

end AccessView

open AccessView (End endResources endClause?)

/-- The stem of an end stands before the name of a policy, whatever the effect. -/
theorem ClauseName.ofPolicy_stem (x : End) (id : String) (effect : Effect) :
    ofPolicy (x.stem ++ id) effect = x.stem ++ ofPolicy id effect := by
  cases effect with
  | allow => rfl
  | deny => exact String.append_assoc

/-- The entity at an end of a relationship. -/
def Relationship.atEnd (r : Relationship) : End → Entity
  | .one => r.endOne
  | .two => r.endTwo

/-- The criteria for an end of a relationship. -/
def Criteria.atEnd (c : Criteria) : End → Option Criteria.Tree
  | .one => c.endOne
  | .two => c.endTwo

/-! ### Dimensions -/

/-- The dimensions of an end are those that start with its stem. -/
theorem AccessView.get?_endResources (resources : ResourceMap) (x : End) (d : String) :
    (endResources resources x).get? d = resources.get? (x.stem ++ d) := by
  have hentry : ∀ a : String × List String,
      (a ∈ resources.toList.filterMap fun d =>
        (Text.dropStart? d.1 x.stem).map fun rest => (rest, d.2)) ↔
        resources.get? (x.stem ++ a.1) = some a.2 := by
    intro a
    simp only [List.mem_filterMap, Option.map_eq_some_iff, Text.dropStart?_eq_some_iff,
      NameMap.get?_eq_some_iff]
    constructor
    · rintro ⟨⟨k, v⟩, hmem, rest, rfl, rfl⟩
      exact hmem
    · intro hmem
      exact ⟨_, hmem, a.1, rfl, rfl⟩
  have hkeys : ∀ a ∈ resources.toList.filterMap fun d =>
        (Text.dropStart? d.1 x.stem).map fun rest => (rest, d.2),
      ∀ b ∈ resources.toList.filterMap fun d =>
        (Text.dropStart? d.1 x.stem).map fun rest => (rest, d.2), a.1 = b.1 → a = b := by
    rintro ⟨k, v⟩ ha ⟨k', v'⟩ hb hab
    obtain rfl : k = k' := hab
    have hv : resources.get? (x.stem ++ k) = some v := (hentry (k, v)).1 ha
    have hv' : resources.get? (x.stem ++ k) = some v' := (hentry (k, v')).1 hb
    rw [hv, Option.some.injEq] at hv'
    rw [hv']
  apply Option.ext
  intro v
  rw [endResources, NameMap.get?_ofList_eq_some hkeys]
  exact hentry (d, v)

/-- The type is admitted the same whether or not the bare wildcard is looked for first. -/
theorem Pattern.hasWildcard_or_acceptsAny {values : List String} {v user : String} :
    (hasWildcard values || acceptsAny values [v] user) = acceptsAny values [v] user := by
  rw [Bool.or_eq_right_iff_imp]
  intro hw
  have hmem : wildcard ∈ values := hasWildcard_iff.1 hw
  have hbare : accepts wildcard v user = true := if_pos rfl
  exact List.any_eq_true.2 ⟨v, List.mem_singleton_self v, List.any_eq_true.2 ⟨_, hmem, hbare⟩⟩

/-- A dimension of an end admits what the rest of its name admits in the entity at that end. -/
theorem Relationship.isAdmitted_end (r : Relationship) (x : End) (user d : String)
    (values : List String) :
    r.isAdmitted user (x.stem ++ d) values = (r.atEnd x).isAdmitted user d values := by
  unfold Relationship.isAdmitted
  rw [if_neg (x.stem_append_ne_type d)]
  -- The bare wildcard is looked for once more in the entity.
  have hagain : ∀ e : Entity, (hasWildcard values || e.isAdmitted user d values) =
      e.isAdmitted user d values := by
    intro e
    rw [Entity.isAdmitted, ← Bool.or_assoc, Bool.or_self]
  cases x with
  | one =>
    have hone : Text.dropStart? (End.one.stem ++ d) Dimension.endOne = some d :=
      Text.dropStart?_eq_some_iff.2 rfl
    rw [hone]
    exact hagain r.endOne
  | two =>
    have hone : Text.dropStart? (End.two.stem ++ d) Dimension.endOne = none := by
      rw [Option.eq_none_iff_forall_ne_some]
      intro rest hrest
      have hstem : End.two.stem ++ d = End.one.stem ++ rest := Text.dropStart?_eq_some_iff.1 hrest
      exact End.noConfusion (End.stem_append_inj hstem).1
    have htwo : Text.dropStart? (End.two.stem ++ d) Dimension.endTwo = some d :=
      Text.dropStart?_eq_some_iff.2 rfl
    rw [hone, htwo]
    exact hagain r.endTwo

/-- The policy with the dimensions of an end in place of its own. -/
def Policy.atEnd (p : Policy) (x : End) : Policy := { p with resources := endResources p.resources x }

/-- The type of a relationship is admitted. -/
def Policy.admitsType (p : Policy) (user relationshipType : String) : Bool :=
  (p.resource? Dimension.relationshipType).all fun patterns =>
    Pattern.acceptsAny patterns [relationshipType] user

/-- A relationship is covered when its type is admitted and each end is covered by the dimensions of
that end. -/
theorem Policy.coversRelationship_eq (p : Policy) (user : String) (r : Relationship) :
    p.coversRelationship user r =
      (p.admitsType user r.relationshipType && (p.atEnd .one).coversEntity user r.endOne &&
        (p.atEnd .two).coversEntity user r.endTwo) := by
  have hend : ∀ x, (p.atEnd x).coversEntity user (r.atEnd x) = true ↔
      ∀ d values, p.resource? (x.stem ++ d) = some values →
        r.isAdmitted user (x.stem ++ d) values = true := by
    intro x
    simp only [coversEntity_iff, resource?, atEnd, AccessView.get?_endResources, r.isAdmitted_end]
  have htype : p.admitsType user r.relationshipType = true ↔
      ∀ values, p.resource? Dimension.relationshipType = some values →
        r.isAdmitted user Dimension.relationshipType values = true := by
    have hadmit : ∀ values, r.isAdmitted user Dimension.relationshipType values =
        Pattern.acceptsAny values [r.relationshipType] user := by
      intro values
      rw [Relationship.isAdmitted, if_pos rfl, Pattern.hasWildcard_or_acceptsAny]
    simp only [admitsType, Option.all_eq_true, hadmit]
  have hone := hend .one
  have htwo := hend .two
  simp only [Relationship.atEnd] at hone htwo
  rw [Bool.eq_iff_iff, Bool.and_eq_true, Bool.and_eq_true, htype, hone, htwo, coversRelationship_iff]
  constructor
  · intro h
    exact ⟨⟨h _, fun d => h _⟩, fun d => h _⟩
  · rintro ⟨⟨ht, h1⟩, h2⟩ d values hv
    by_cases hd : d = Dimension.relationshipType
    · exact hd ▸ ht values (hd ▸ hv)
    -- Any other dimension is about one of the ends, or not about relationships at all.
    cases hdrop : Text.dropStart? d Dimension.endOne with
    | some rest =>
      obtain rfl := Text.dropStart?_eq_some_iff.1 hdrop
      exact h1 rest values hv
    | none =>
      cases hdrop' : Text.dropStart? d Dimension.endTwo with
      | some rest =>
        obtain rfl := Text.dropStart?_eq_some_iff.1 hdrop'
        exact h2 rest values hv
      | none => simp [Relationship.isAdmitted, hd, hdrop, hdrop']

/-! ### Clauses -/

/-- No comparison on the ends is on the field that names clauses. -/
def Policy.HasSearchableEnds (p : Policy) : Prop :=
  ∀ c (x : End) t, Criteria.ofPolicy? p = some c → c.atEnd x = some t →
    ∀ l ∈ t.leaves, l.IsSearchable

theorem Policy.hasSearchableEnds_iff {p : Policy} :
    p.HasSearchableEnds ↔ ∀ c ∈ Criteria.ofPolicy? p, ∀ x ∈ [End.one, End.two],
      ∀ t ∈ c.atEnd x, ∀ l ∈ t.leaves, l.field ≠ Query.nameKey := by
  constructor
  · intro h c hc x _ t ht
    exact h c x t hc ht
  · intro h c x t hc ht
    exact h c hc x (by cases x <;> decide) t ht

instance (p : Policy) : Decidable p.HasSearchableEnds :=
  decidable_of_iff' _ Policy.hasSearchableEnds_iff

/-- What the index needs of a policy on relationships. -/
structure Policy.HasIndexableEnds (p : Policy) : Prop where
  /-- Placeholders stand for the user nowhere but in qualified names and in types. -/
  placeholders : ∀ d ∈ p.resources.toList, d.1 ≠ Dimension.endOneEntity →
    d.1 ≠ Dimension.endTwoEntity → d.1 ≠ Dimension.relationshipType →
    ∀ pattern ∈ d.2, Pattern.hasPlaceholder pattern.toList = false
  /-- A condition policy says nothing about the type. -/
  untyped_condition : p.service = .condition → p.resource? Dimension.relationshipType = none
  /-- The business metadata of the ends are left open. -/
  open_metadata : ∀ (x : End) values,
    p.resource? (x.stem ++ Dimension.entityBusinessMetadata) = some values → wildcard ∈ values
  /-- No comparison on the ends is on the field that names clauses. -/
  searchable : ∀ c (x : End) t, Criteria.ofPolicy? p = some c → c.atEnd x = some t →
    ∀ l ∈ t.leaves, l.IsSearchable

/-- Among the dimensions of an end, placeholders stand for the user in qualified names only. -/
theorem Policy.HasIndexableEnds.placeholdersInNames {p : Policy} (h : p.HasIndexableEnds) (x : End) :
    Query.PlaceholdersInNames (p.atEnd x).resources := by
  rintro ⟨d, values⟩ hmem hd pattern hp
  have hv : p.resources.get? (x.stem ++ d) = some values := by
    rw [← AccessView.get?_endResources]
    exact NameMap.get?_eq_some_iff.2 hmem
  -- The dimension is not one of the three that may hold placeholders.
  have hne : ∀ y : End, x.stem ++ d ≠ y.stem ++ Dimension.entity := fun y heq =>
    hd (End.stem_append_inj heq).2
  exact h.placeholders (x.stem ++ d, values) (NameMap.get?_eq_some_iff.1 hv) (hne .one) (hne .two)
    (x.stem_append_ne_type d) pattern hp

namespace AccessView

/-- The criteria of a condition policy for an end are its clause. -/
theorem endClause?_condition {p : Policy} (h : p.service = .condition) (user : String) (x : End) :
    endClause? p user x =
      (Criteria.ofPolicy? p).bind fun c => (c.atEnd x).map Criteria.Tree.toQuery := by
  unfold endClause?
  rw [h]
  cases x <;> rfl

/-- The clause of an end is accepted on every entity and names nothing, whatever patterns the policy
holds, when the policy is not read for its criteria. -/
theorem endClause_silent_of_ne_condition {p : Policy} (hs : p.service ≠ .condition) (user : String)
    (x : End) : ∀ c ∈ endClause? p user x, Query.Silent e c := by
  intro c hc
  rw [Option.mem_def] at hc
  cases hservice : p.service with
  | data => simp [endClause?, hservice] at hc
  | condition => exact absurd hservice hs
  | resource | tag =>
    obtain rfl : Query.resourceClause (endResources p.resources x) user = c := by
      simpa [endClause?, hservice] using hc
    exact Query.resourceClause_silent _ user

/-- The clause of an end is accepted on every entity and names nothing. -/
theorem endClause_silent {p : Policy} (hp : p.HasSearchableEnds) (user : String) (x : End) :
    ∀ c ∈ endClause? p user x, Query.Silent e c := by
  by_cases hservice : p.service = .condition
  · intro c hc
    rw [Option.mem_def, endClause?_condition hservice] at hc
    obtain ⟨criteria, hcriteria, hc⟩ := Option.bind_eq_some_iff.1 hc
    obtain ⟨t, ht, rfl⟩ := Option.map_eq_some_iff.1 hc
    have hrun := Criteria.Node.run_toQuery (e := e) (.group t.condition t.children)
      (hp criteria x t hcriteria ht)
    exact Query.silent_of_run hrun
  · exact endClause_silent_of_ne_condition hservice user x

/-- The clause of a resource map for an end matches what the dimensions of that end cover. -/
theorem endClause_selects_covers {p : Policy} (hp : p.HasIndexableEnds)
    (hs : p.service = .resource ∨ p.service = .tag) (he : e.HasTextName) {user : String}
    (hu : '*' ∉ user.toList) (x : End) :
    (endClause? p user x).any (Query.selects e) = (p.atEnd x).coversEntity user e := by
  have hclause : endClause? p user x = some (Query.resourceClause (p.atEnd x).resources user) := by
    unfold endClause?
    rcases hs with hs | hs <;> rw [hs] <;> rfl
  have hopen : ∀ values, (p.atEnd x).resource? Dimension.entityBusinessMetadata = some values →
      wildcard ∈ values := by
    intro values hv
    refine hp.open_metadata x values ?_
    rw [Policy.resource?, ← get?_endResources]
    exact hv
  rw [hclause, Option.any_some, Policy.coversEntity_eq_indexed user hopen,
    Query.selects_of_run
      (Query.run_resourceClause_of_placeholders (hp.placeholdersInNames x) he hu)]

/-- The clause of a condition policy for an end matches where its criteria hold. -/
theorem endClause_selects_condition {p : Policy} (hp : p.HasSearchableEnds)
    (hs : p.service = .condition) (user : String) (x : End) :
    (endClause? p user x).any (Query.selects e) =
      (Criteria.ofPolicy? p).any fun c => (c.atEnd x).any fun t => t.evaluate e := by
  rw [endClause?_condition hs]
  cases hc : Criteria.ofPolicy? p with
  | none => rfl
  | some c =>
    cases ht : c.atEnd x with
    | none => simp [ht]
    | some t =>
      have hrun := Criteria.Node.run_toQuery (e := e) (.group t.condition t.children)
        (hp c x t hc ht)
      have hquery : Query.run e t.toQuery = .ok ⟨t.evaluate e, []⟩ := hrun
      simp [ht, Query.selects_of_run hquery]

/-- A policy applies to a relationship when it admits the type and its clause for each end matches
the entity at that end. -/
theorem appliesTo_eq_endClauses {p : Policy} (hp : p.HasIndexableEnds) (hs : p.service ≠ .data)
    {r : Relationship} (hone : r.endOne.HasTextName) (htwo : r.endTwo.HasTextName) {user : String}
    (hu : '*' ∉ user.toList) :
    p.appliesTo p.service user (.relationship r) =
      (p.admitsType user r.relationshipType &&
        (endClause? p user .one).any (Query.selects r.endOne) &&
        (endClause? p user .two).any (Query.selects r.endTwo)) := by
  unfold Policy.appliesTo
  cases hservice : p.service with
  | data => exact absurd hservice hs
  | condition =>
    have htype : p.admitsType user r.relationshipType = true := by
      rw [Policy.admitsType, hp.untyped_condition hservice, Option.all_none]
    rw [htype, Bool.true_and, endClause_selects_condition hp.searchable hservice,
      endClause_selects_condition hp.searchable hservice]
    cases Criteria.ofPolicy? p with
    | none => rfl
    | some c =>
      show c.holdFor (.relationship r) = _
      cases h1 : c.endOne <;> cases h2 : c.endTwo <;> simp [Criteria.holdFor, Criteria.atEnd, h1, h2]
  | resource =>
    rw [endClause_selects_covers hp (.inl hservice) hone hu,
      endClause_selects_covers hp (.inl hservice) htwo hu]
    exact p.coversRelationship_eq user r
  | tag =>
    rw [endClause_selects_covers hp (.inr hservice) hone hu,
      endClause_selects_covers hp (.inr hservice) htwo hu]
    exact p.coversRelationship_eq user r

end AccessView

end CatalogAccess
