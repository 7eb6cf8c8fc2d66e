import CatalogAccess.AccessQuery
import CatalogAccess.Proofs.Decision.Admission
import CatalogAccess.Proofs.Query.Outcome

/-!
# Resource maps and their queries agree

`Policy.coversEntity` looks at the dimensions of a resource map in memory, and
`Query.resourceClause` makes a search query of those that the index can express.
`run_resourceClause` shows that the query matches exactly the entities that the expressible
dimensions admit, and `Policy.coversEntity_eq_indexed` that these are the entities covered, as long
as the business metadata are left open.

The patterns of a dimension become exact values and wildcard expressions of a field
(`run_fieldPatterns`). Both readings of a pattern meet in the glob of its text once the name of the
user stands in place of the placeholders, which a name with a wildcard does not do. Outside the
qualified name the index takes placeholders as they stand, as if the user were called so.
-/

namespace CatalogAccess

variable {e : Entity}

/-! ### Fields -/

namespace Query

/-- A pattern made into an expression matches what the pattern matches. -/
theorem patternExpression_matches (p v : String) :
    expressionMatches (escapeWhere isLiteralInPatterns p) v =
      (Pattern.starTokens p.toList).accepts v.toList := by
  have ht : expressionTokens (escapeWhere isLiteralInPatterns p).toList =
      p.toList.map (escapedToken isLiteralInPatterns) := by
    have h := expressionTokens_escapeWhere isLiteralInPatterns rfl p ""
    rw [String.append_empty] at h
    exact h.trans (List.append_nil _)
  -- The star is the only character that keeps a meaning, in expressions as in patterns.
  have hmap : p.toList.map (escapedToken isLiteralInPatterns) = Pattern.starTokens p.toList := by
    refine List.map_congr_left fun c _ => ?_
    unfold escapedToken
    by_cases hc : isLiteralInPatterns c = true
    · have hstar : c ≠ '*' := fun heq => by rw [heq] at hc; exact absurd hc (by decide)
      rw [if_pos hc, if_neg hstar]
    · have hone : c ≠ '?' := fun heq => by rw [heq] at hc; exact hc rfl
      rw [if_neg hc, if_neg hone]
  rw [expressionMatches, ht, hmap]

/-- Among texts without a wildcard a value is found as by matching. -/
theorem contains_eq_any_starTokens {exact : List String} (h : ∀ p ∈ exact, '*' ∉ p.toList)
    (v : String) :
    exact.contains v = exact.any fun p => (Pattern.starTokens p.toList).accepts v.toList := by
  rw [Bool.eq_iff_iff, List.contains_iff_mem, List.any_eq_true]
  constructor
  · intro hv
    refine ⟨v, hv, ?_⟩
    rw [Pattern.starTokens_of_not_mem (h v hv), Glob.accepts_ofText, beq_self_eq_true]
  · rintro ⟨p, hp, hm⟩
    rw [Pattern.starTokens_of_not_mem (h p hp), Glob.accepts_ofText, beq_iff_eq,
      String.toList_inj] at hm
    exact hm ▸ hp

/-- Texts without a wildcard and texts with one together ask for a value that one of them
matches. -/
theorem run_exactOrWild {field : String} (h : field ≠ nameKey) {exact : List String}
    (hexact : ∀ p ∈ exact, '*' ∉ p.toList) (wild : List String) :
    run e (anyOf ((if exact.isEmpty then [] else [terms field exact]) ++
        wild.map fun p => wildcard field (escapeWhere isLiteralInPatterns p))) =
      .ok ⟨(e.attributeValues field).any fun v =>
        (exact ++ wild).any fun p => (Pattern.starTokens p.toList).accepts v.toList, []⟩ := by
  have hterms := run_terms (e := e) h exact
  have hwild : ∀ p, run e (wildcard field (escapeWhere isLiteralInPatterns p)) =
      .ok ⟨(e.attributeValues field).any fun v =>
        (Pattern.starTokens p.toList).accepts v.toList, []⟩ := by
    intro p
    have hmatches : expressionMatches (escapeWhere isLiteralInPatterns p) =
        fun v => (Pattern.starTokens p.toList).accepts v.toList :=
      funext (patternExpression_matches p)
    rw [run_wildcard h, hmatches]
  -- There is at most one clause for the exact texts, and one for each of the others.
  have hsilent : ∀ c ∈ (if exact.isEmpty then [] else [terms field exact]) ++
      wild.map fun p => wildcard field (escapeWhere isLiteralInPatterns p), Silent e c := by
    intro c hc
    rcases List.mem_append.1 hc with hc | hc
    · split at hc
      · exact absurd hc List.not_mem_nil
      · obtain rfl := List.mem_singleton.1 hc
        exact silent_of_run hterms
    · obtain ⟨p, -, rfl⟩ := List.mem_map.1 hc
      exact silent_of_run (hwild p)
  have hany : (if exact.isEmpty then [] else [terms field exact]).any (selects e) =
      (e.attributeValues field).any exact.contains := by
    split
    · next hnil =>
      rw [List.isEmpty_iff.1 hnil]
      simp
    · rw [List.any_cons, List.any_nil, Bool.or_false, selects_of_run hterms]
  -- The clauses ask for a text and a value in either order.
  rw [run_anyOf_silent hsilent, List.any_append, hany]
  congr 2
  rw [Bool.eq_iff_iff]
  simp only [Bool.or_eq_true, List.any_map, List.any_append, List.any_eq_true,
    Function.comp_def, selects_of_run (hwild _), contains_eq_any_starTokens hexact]
  constructor
  · rintro (⟨v, hv, hm⟩ | ⟨p, hp, v, hv, hm⟩)
    · exact ⟨v, hv, .inl hm⟩
    · exact ⟨v, hv, .inr ⟨p, hp, hm⟩⟩
  · rintro ⟨v, hv, hm | ⟨p, hp, hm⟩⟩
    · exact .inl ⟨v, hv, hm⟩
    · exact .inr ⟨p, hp, v, hv, hm⟩

/-- The clause of a field asks for a value that one of the patterns matches. -/
theorem run_fieldPatterns {field : String} (h : field ≠ nameKey) (patterns : List String) :
    run e (fieldPatterns field patterns) =
      .ok ⟨(e.attributeValues field).any fun v =>
        patterns.any fun p => (Pattern.starTokens p.toList).accepts v.toList, []⟩ := by
  have hexact : ∀ p ∈ patterns.filter fun p => !p.toList.contains '*', '*' ∉ p.toList := by
    intro p hp
    simpa using (List.mem_filter.1 hp).2
  -- The exact texts and the others are all texts again.
  have hsplit : ∀ test : String → Bool,
      ((patterns.filter fun p => !p.toList.contains '*') ++
        patterns.filter fun p => p.toList.contains '*').any test = patterns.any test := by
    intro test
    rw [Bool.eq_iff_iff]
    simp only [List.any_eq_true, List.mem_append, List.mem_filter]
    constructor
    · rintro ⟨p, ⟨hp, -⟩ | ⟨hp, -⟩, ht⟩ <;> exact ⟨p, hp, ht⟩
    · rintro ⟨p, hp, ht⟩
      cases hc : p.toList.contains '*'
      · exact ⟨p, .inl ⟨hp, by rw [hc]; rfl⟩, ht⟩
      · exact ⟨p, .inr ⟨hp, hc⟩, ht⟩
  have hrun := run_exactOrWild (e := e) h hexact (patterns.filter fun p => p.toList.contains '*')
  simp only [hsplit] at hrun
  exact hrun

/-! ### Dimensions -/

/-- The clause of qualified names reads each pattern with the name of the user put into it. -/
theorem run_qualifiedNameClause_substitute (patterns : List String) (user : String) :
    run e (qualifiedNameClause patterns user) =
      .ok ⟨(e.attributeValues qualifiedNameField).any fun v => patterns.any fun p =>
        (Pattern.starTokens (Pattern.substitute user.toList p.toList)).accepts v.toList, []⟩ := by
  rw [qualifiedNameClause, run_fieldPatterns (by decide)]
  simp only [List.any_map, Function.comp_def, String.toList_ofList]

/-- The name of a user stands for itself in patterns: it has no wildcard, or none of them asks for
it. -/
def NameIsPlain (user : String) (patterns : List String) : Prop :=
  '*' ∉ user.toList ∨ ∀ p ∈ patterns, Pattern.hasPlaceholder p.toList = false

/-- A plain name is read in the same way by the index and by decisions. -/
theorem NameIsPlain.tokens_eq {user : String} {patterns : List String}
    (h : NameIsPlain user patterns) {p : String} (hp : p ∈ patterns) :
    Pattern.starTokens (Pattern.substitute user.toList p.toList) = Pattern.glob p user := by
  rcases h with h | h
  · exact (Pattern.tokens_eq_starTokens h p.toList).symm
  · rw [Pattern.substitute_of_not_hasPlaceholder (h p hp), Pattern.glob,
      Pattern.tokens_of_not_hasPlaceholder (h p hp)]

/-- With a plain name the clause of qualified names asks for a pattern that accepts one of them for
the user. -/
theorem run_qualifiedNameClause {user : String} {patterns : List String}
    (h : NameIsPlain user patterns) :
    run e (qualifiedNameClause patterns user) =
      .ok ⟨Pattern.acceptsAny patterns (e.attributeValues qualifiedNameField) user, []⟩ := by
  rw [run_qualifiedNameClause_substitute]
  congr 2
  rw [Bool.eq_iff_iff, Pattern.acceptsAny_iff]
  simp only [List.any_eq_true]
  constructor
  · rintro ⟨v, hv, p, hp, hm⟩
    exact ⟨v, hv, p, hp, h.tokens_eq hp ▸ hm⟩
  · rintro ⟨v, hv, p, hp, hm⟩
    exact ⟨v, hv, p, hp, h.tokens_eq hp ▸ hm⟩

/-- The clause of a field takes placeholders as they stand. -/
theorem run_fieldPatterns_acceptsAny {field : String} (h : field ≠ nameKey)
    (patterns : List String) :
    run e (fieldPatterns field patterns) =
      .ok ⟨Pattern.acceptsAny patterns (e.attributeValues field) userPlaceholder, []⟩ := by
  have hglob : ∀ p, Pattern.glob p userPlaceholder = Pattern.starTokens p.toList :=
    fun p => Pattern.tokens_placeholder p.toList
  rw [run_fieldPatterns h]
  congr 2
  rw [Bool.eq_iff_iff, Pattern.acceptsAny_iff]
  simp only [List.any_eq_true, hglob]

/-- A choice between two fields asks for a value of either. -/
theorem run_anyOf_fields {f g : String} (hf : f ≠ nameKey) (hg : g ≠ nameKey)
    (patterns : List String) :
    run e (anyOf [fieldPatterns f patterns, fieldPatterns g patterns]) =
      .ok ⟨Pattern.acceptsAny patterns (e.attributeValues f ++ e.attributeValues g)
        userPlaceholder, []⟩ := by
  have hrunF := run_fieldPatterns_acceptsAny (e := e) hf patterns
  have hrunG := run_fieldPatterns_acceptsAny (e := e) hg patterns
  have hsilent : ∀ c ∈ [fieldPatterns f patterns, fieldPatterns g patterns], Silent e c := by
    simpa using ⟨silent_of_run hrunF, silent_of_run hrunG⟩
  rw [run_anyOf_silent hsilent]
  simp only [List.any_cons, List.any_nil, Bool.or_false, selects_of_run hrunF,
    selects_of_run hrunG, Pattern.acceptsAny, List.any_append]

end Query

/-! ### Values of an entity -/

namespace Entity

/-- The qualified name is a text wherever it is given. -/
def HasTextName (e : Entity) : Prop :=
  ∀ v, e.attributes.get? qualifiedNameAttribute = some v → ∃ s, v = .str s

/-- The index holds the qualified name that decisions look at. -/
theorem attributeValues_qualifiedName (h : e.HasTextName) :
    e.attributeValues Query.qualifiedNameField = e.qualifiedName?.toList := by
  show ((e.attributes.get? qualifiedNameAttribute).map Json.texts).getD [] =
    ((e.attributes.get? qualifiedNameAttribute).bind Json.str?).toList
  cases hv : e.attributes.get? qualifiedNameAttribute with
  | none => rfl
  | some v =>
    obtain ⟨s, rfl⟩ := h v hv
    rfl

/-- A dimension of qualified names accepts the qualified name, if there is one. -/
theorem matchesDimension_entity (user : String) (values : List String) :
    e.matchesDimension user Dimension.entity values =
      Pattern.acceptsAny values e.qualifiedName?.toList user := by
  unfold matchesDimension
  rw [if_pos (.inl rfl)]
  cases e.qualifiedName? with
  | none => rfl
  | some name => rfl

/-- Patterns without placeholders admit an entity for every user or for none. -/
theorem isAdmitted_of_not_hasPlaceholder {values : List String}
    (h : ∀ p ∈ values, Pattern.hasPlaceholder p.toList = false) (user other dimension : String) :
    e.isAdmitted user dimension values = e.isAdmitted other dimension values := by
  simp only [isAdmitted, matchesDimension,
    Pattern.acceptsAny_of_not_hasPlaceholder h _ user other]

/-- The two type fields hold the type and its ancestors. -/
theorem mem_attributeValues_types {v : String} :
    v ∈ e.attributeValues Query.typeField ++ e.attributeValues Query.superTypesField ↔
      v ∈ e.typeAndAncestors.toList := by
  show v ∈ [e.typeName] ++ e.typeAndAncestors.toList ↔ _
  rw [List.mem_append, List.mem_singleton]
  constructor
  · rintro (rfl | h)
    · simp [typeAndAncestors]
    · exact h
  · exact .inr

/-- The two classification fields hold the direct and the propagated classifications. -/
theorem mem_attributeValues_traits {v : String} :
    v ∈ e.attributeValues Query.traitsField ++ e.attributeValues Query.propagatedTraitsField ↔
      v ∈ e.allClassifications := by
  show v ∈ e.directClassifications ++ e.propagatedClassifications ↔ _
  unfold directClassifications propagatedClassifications allClassifications
  simp only [List.mem_append, List.mem_map, List.mem_filter]
  constructor
  · rintro (⟨c, ⟨hc, -⟩, rfl⟩ | ⟨c, ⟨hc, -⟩, rfl⟩) <;> exact ⟨c, hc, rfl⟩
  · rintro ⟨c, hc, rfl⟩
    cases hd : c.isDirect e.guid
    · exact .inr ⟨c, ⟨hc, by rw [hd]; rfl⟩, rfl⟩
    · exact .inl ⟨c, ⟨hc, hd⟩, rfl⟩

end Entity

/-! ### Resource maps -/

namespace Query

/-- Placeholders stand for the user nowhere but in qualified names. -/
def PlaceholdersInNames (resources : ResourceMap) : Prop :=
  ∀ d ∈ resources.toList, d.1 ≠ Dimension.entity →
    ∀ p ∈ d.2, Pattern.hasPlaceholder p.toList = false

/-- The values of a dimension other than qualified names hold no placeholder. -/
theorem PlaceholdersInNames.of_get? {resources : ResourceMap} (h : PlaceholdersInNames resources)
    {d : String} {values : List String} (hv : resources.get? d = some values)
    (hd : d ≠ Dimension.entity) : ∀ p ∈ values, Pattern.hasPlaceholder p.toList = false :=
  h (d, values) (NameMap.get?_eq_some_iff.1 hv) hd

/-- The clause of types asks for a type that is admitted, placeholders as they stand. -/
theorem run_typeClause (patterns : List String) :
    run e (typeClause patterns) =
      .ok ⟨e.matchesDimension userPlaceholder Dimension.entityType patterns, []⟩ := by
  rw [typeClause, run_anyOf_fields (by decide) (by decide),
    Pattern.acceptsAny_congr fun v => Entity.mem_attributeValues_types]
  rfl

/-- The clause of classifications asks for a classification that is admitted, placeholders as they
stand. -/
theorem run_tagClause (patterns : List String) :
    run e (tagClause patterns) =
      .ok ⟨e.isAdmitted userPlaceholder Dimension.tag patterns, []⟩ := by
  rw [tagClause, Entity.isAdmitted]
  split
  · next hw => rw [hw, Bool.true_or, run_matchAll]
  · next hw =>
    rw [Bool.not_eq_true] at hw
    rw [hw, Bool.false_or, run_anyOf_fields (by decide) (by decide),
      Pattern.acceptsAny_congr fun v => Entity.mem_attributeValues_traits]
    rfl

/-- The clauses of a dimension admit what the dimension admits, when its clause does for values
without the bare wildcard. -/
theorem dimensionClause_selects (resources : ResourceMap) (user d : String)
    (clause : List String → Json)
    (h : ∀ values, hasWildcard values = false →
      run e (clause values) = .ok ⟨e.isAdmitted user d values, []⟩) :
    (dimensionClause resources d clause).all (selects e) =
      (resources.get? d).all (e.isAdmitted user d) := by
  unfold dimensionClause
  cases hv : resources.get? d with
  | none => simp
  | some values =>
    cases hw : hasWildcard values with
    | true =>
      have hadmit : e.isAdmitted user d values = true := by rw [Entity.isAdmitted, hw, Bool.true_or]
      simp [hw, hadmit]
    | false =>
      have hrun := h values hw
      simp [hw, selects_of_run hrun]

/-- Without clauses there is no restriction. -/
theorem run_restriction {cs : List Json} (h : ∀ c ∈ cs, Silent e c) :
    run e (if cs.isEmpty then matchAll else all cs) = .ok ⟨cs.all (selects e), []⟩ := by
  split
  · next hnil =>
    rw [List.isEmpty_iff.1 hnil, run_matchAll]
    rfl
  · exact run_all_silent h

/-! ### Acceptance

The clauses of a resource map are accepted on every entity, whatever its qualified name and wherever
the placeholders stand. -/

theorem tagClause_silent (patterns : List String) : Silent e (tagClause patterns) :=
  silent_of_run (run_tagClause patterns)

/-- The clauses of a dimension are accepted when its clause is. -/
theorem dimensionClause_silent {clause : List String → Json}
    (h : ∀ values, Silent e (clause values)) (resources : ResourceMap) (d : String) :
    ∀ c ∈ dimensionClause resources d clause, Silent e c := by
  intro c hc
  unfold dimensionClause at hc
  cases hv : resources.get? d with
  | none => simp [hv] at hc
  | some values =>
    cases hw : hasWildcard values with
    | true => simp [hv, hw] at hc
    | false =>
      obtain rfl : c = clause values := by simpa [hv, hw] using hc
      exact h values

/-- The query of a resource map asks for all clauses of the dimensions that the index can
express. -/
theorem run_resourceClause_clauses (resources : ResourceMap) (user : String) :
    run e (resourceClause resources user) =
      .ok ⟨(dimensionClause resources Dimension.entity (fun ps => qualifiedNameClause ps user) ++
        dimensionClause resources Dimension.entityType typeClause ++
        dimensionClause resources Dimension.entityClassification tagClause ++
        dimensionClause resources Dimension.tag tagClause).all (selects e), []⟩ := by
  have hname : ∀ values, Silent e (qualifiedNameClause values user) := fun values =>
    silent_of_run (run_fieldPatterns (by decide) _)
  have htype : ∀ values, Silent e (typeClause values) := fun values =>
    silent_of_run (run_typeClause values)
  simp only [resourceClause]
  refine run_restriction fun c hc => ?_
  simp only [List.mem_append] at hc
  rcases hc with ((hc | hc) | hc) | hc
  · exact dimensionClause_silent hname resources _ c hc
  · exact dimensionClause_silent htype resources _ c hc
  · exact dimensionClause_silent tagClause_silent resources _ c hc
  · exact dimensionClause_silent tagClause_silent resources _ c hc

theorem resourceClause_silent (resources : ResourceMap) (user : String) :
    Silent e (resourceClause resources user) :=
  silent_of_run (run_resourceClause_clauses resources user)

/-- The dimensions that the index can express. -/
def indexedDimensions : List String :=
  [Dimension.entity, Dimension.entityType, Dimension.entityClassification, Dimension.tag]

/-- The user whose name stands for the placeholders of a dimension in the index: the one who asks,
in qualified names, and one with the name of the placeholder elsewhere. -/
def reader (user dimension : String) : String :=
  if dimension = Dimension.entity then user else userPlaceholder

@[simp] theorem reader_entity (user : String) : reader user Dimension.entity = user := if_pos rfl

theorem reader_of_ne {d : String} (h : d ≠ Dimension.entity) (user : String) :
    reader user d = userPlaceholder :=
  if_neg h

/-- The query of a resource map asks that every dimension that the index can express admits the
entity, as the index reads its placeholders. -/
theorem run_resourceClause (resources : ResourceMap) (he : e.HasTextName) {user : String}
    (hu : '*' ∉ user.toList) :
    run e (resourceClause resources user) =
      .ok ⟨indexedDimensions.all fun d => (resources.get? d).all (e.isAdmitted (reader user d) d),
        []⟩ := by
  -- The clauses of the four dimensions.
  have hname := dimensionClause_selects (e := e) resources user Dimension.entity
    (fun ps => qualifiedNameClause ps user) fun values hw => by
    rw [run_qualifiedNameClause (.inl hu), Entity.attributeValues_qualifiedName he, Entity.isAdmitted, hw,
      Bool.false_or, Entity.matchesDimension_entity]
  have htype := dimensionClause_selects (e := e) resources userPlaceholder Dimension.entityType
    typeClause fun values hw => by
    rw [run_typeClause, Entity.isAdmitted, hw, Bool.false_or]
  have hclassification := dimensionClause_selects (e := e) resources userPlaceholder
    Dimension.entityClassification tagClause fun values _ => run_tagClause values
  have htag := dimensionClause_selects (e := e) resources userPlaceholder Dimension.tag tagClause
    fun values _ => run_tagClause values
  -- The query asks for all of them.
  have hreadType : reader user Dimension.entityType = userPlaceholder := reader_of_ne (by decide) _
  have hreadClassification : reader user Dimension.entityClassification = userPlaceholder :=
    reader_of_ne (by decide) _
  have hreadTag : reader user Dimension.tag = userPlaceholder := reader_of_ne (by decide) _
  rw [run_resourceClause_clauses]
  simp only [List.all_append, hname, htype, hclassification, htag, indexedDimensions, reader_entity,
    hreadType, hreadClassification, hreadTag, List.all_cons, List.all_nil, Bool.and_true,
    Bool.and_assoc]

/-- A dimension is read for the user who asks when its values admit for the user what they admit
with placeholders as they stand, or when it is that of qualified names. -/
theorem all_reader_eq {resources : ResourceMap} {user d : String}
    (h : d ≠ Dimension.entity → ∀ values, resources.get? d = some values →
      e.isAdmitted userPlaceholder d values = e.isAdmitted user d values) :
    (resources.get? d).all (e.isAdmitted (reader user d) d) =
      (resources.get? d).all (e.isAdmitted user d) := by
  by_cases hd : d = Dimension.entity
  · rw [hd, reader_entity]
  · cases hv : resources.get? d with
    | none => rw [Option.all_none, Option.all_none]
    | some values => rw [Option.all_some, Option.all_some, reader_of_ne hd, h hd values hv]

/-- With placeholders in qualified names only, the dimensions are read for the user who asks. -/
theorem run_resourceClause_of_placeholders {resources : ResourceMap}
    (hp : PlaceholdersInNames resources) (he : e.HasTextName) {user : String}
    (hu : '*' ∉ user.toList) :
    run e (resourceClause resources user) =
      .ok ⟨indexedDimensions.all fun d => (resources.get? d).all (e.isAdmitted user d), []⟩ := by
  have hread : ∀ d, (resources.get? d).all (e.isAdmitted (reader user d) d) =
      (resources.get? d).all (e.isAdmitted user d) := fun d => all_reader_eq fun hd _ hv =>
    Entity.isAdmitted_of_not_hasPlaceholder (hp.of_get? hv hd) _ _ d
  rw [run_resourceClause resources he hu]
  simp only [hread]

end Query

/-! ### Policies -/

/-- Decisions look at the dimensions that the index can express and at the business metadata. -/
theorem Policy.coversEntity_iff_dimensions {p : Policy} {user : String} :
    p.coversEntity user e = true ↔
      ∀ d ∈ Dimension.entityBusinessMetadata :: Query.indexedDimensions,
        (p.resource? d).all (e.isAdmitted user d) = true := by
  rw [coversEntity_iff]
  constructor
  · intro hc d _
    cases hv : p.resource? d with
    | none => rfl
    | some values => exact hc d values hv
  · intro hc d values hv
    by_cases hd : d ∈ Dimension.entityBusinessMetadata :: Query.indexedDimensions
    · have hadmit := hc d hd
      rwa [hv] at hadmit
    · -- Any other dimension is not about entities.
      simp only [Query.indexedDimensions, List.mem_cons, List.not_mem_nil, or_false, not_or] at hd
      obtain ⟨hmeta, hname, htype, hclassification, htag⟩ := hd
      simp [Entity.isAdmitted, Entity.matchesDimension, hname, htype, hclassification, htag, hmeta]

/-- A dimension that is left open admits every entity. -/
theorem Policy.all_isAdmitted_of_open {p : Policy} {d : String}
    (h : ∀ values, p.resource? d = some values → wildcard ∈ values) (user : String) :
    (p.resource? d).all (e.isAdmitted user d) = true := by
  cases hv : p.resource? d with
  | none => rfl
  | some values =>
    have hw : hasWildcard values = true := List.contains_iff_mem.2 (h values hv)
    rw [Option.all_some, Entity.isAdmitted, hw, Bool.true_or]

/-- The dimensions that the index can express decide whether an entity is covered, when the business
metadata are left open. -/
theorem Policy.coversEntity_eq_indexed (user : String) {p : Policy}
    (h : ∀ values, p.resource? Dimension.entityBusinessMetadata = some values →
      wildcard ∈ values) :
    p.coversEntity user e =
      Query.indexedDimensions.all fun d => (p.resources.get? d).all (e.isAdmitted user d) := by
  rw [Bool.eq_iff_iff, coversEntity_iff_dimensions, List.forall_mem_cons, List.all_eq_true]
  exact and_iff_right (all_isAdmitted_of_open h user)

end CatalogAccess
