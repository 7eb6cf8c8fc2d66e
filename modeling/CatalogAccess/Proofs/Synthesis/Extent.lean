import CatalogAccess.Proofs.Decision.Admission
import CatalogAccess.Proofs.Synthesis.Union

/-!
# How far synthesized grants extend

The policies on entities that enforce a persona policy restrict two dimensions, the type of an entity
and its qualified name, and leave the others open (`Template.isAboutEntities`). When the assets are
literal text, the patterns that they are turned into match just the names that are meant: for metadata
the asset and what is below it, for glossaries the names that it occurs in
(`exists_pattern_matches_iff`). So an entity is covered exactly if its name is reached from an asset and
its type, or one of the ancestors, is one that the persona policy applies to
(`coversEntity_synthesizeActions_iff`), whoever asks.
-/

namespace CatalogAccess

/-! ### What is meant -/

/-- The qualified name is among those that the assets of the persona policy stand for. -/
def PersonaPolicy.Reaches (policy : PersonaPolicy) (name : String) : Prop :=
  ∃ a ∈ policy.assets,
    match policy.category with
    | .metadata => name = a ∨ (a ++ "/").toList <+: name.toList
    | .glossary => a.toList <:+: name.toList
    | .data => name = a

/-- The persona policy is about entities of the type. -/
def PersonaPolicy.AppliesTo (policy : PersonaPolicy) (persona : Persona) (type : String) : Prop :=
  match policy.category with
  | .metadata => "collection".toList <+: persona.name.toList ∨
      "connection".toList <+: persona.name.toList ∨ type ∈ ["Process", "Catalog"]
  | .glossary => type ∈ ["AtlasGlossary", "AtlasGlossaryTerm", "AtlasGlossaryCategory"]
  | .data => True

/-! ### Dimensions -/

section Dimensions

variable {e : Entity} {user : String}

/-- Literal patterns match the values that are among them. -/
theorem Pattern.matchesSome_iff_of_isLiteral {patterns seen : List String}
    (h : ∀ p ∈ patterns, isLiteral p = true) :
    MatchesSome patterns user seen ↔ ∃ v ∈ seen, v ∈ patterns := by
  constructor
  · rintro ⟨v, hv, p, hp, hmatch⟩
    rw [glob_of_isLiteral (h p hp), Glob.matches_ofText_iff, String.toList_inj] at hmatch
    exact ⟨v, hv, hmatch ▸ hp⟩
  · rintro ⟨v, hv, hp⟩
    refine ⟨v, hv, v, hp, ?_⟩
    rw [glob_of_isLiteral (h v hp), Glob.matches_ofText_iff]

/-- Types given as literal text admit the entities that have one of them among their type and its
ancestors. -/
theorem Entity.isAdmitted_entityType_iff {types : List String}
    (h : wildcard ∉ types → ∀ p ∈ types, Pattern.isLiteral p = true) :
    e.isAdmitted user Dimension.entityType types = true ↔
      ∃ type ∈ e.typeName :: e.superTypeNames, wildcard ∈ types ∨ type ∈ types := by
  rw [isAdmitted_iff, Target.Admits]
  have hseen : (Target.entity e).seen? Dimension.entityType = some (e.typeName :: e.superTypeNames) := by
    simp +decide [Target.seen?, Entity.seen?]
  by_cases hw : wildcard ∈ types
  · exact iff_of_true (.inl hw) ⟨_, List.mem_cons_self, .inl hw⟩
  · simp only [hseen, Option.some.injEq, forall_eq', hw, false_or,
      Pattern.matchesSome_iff_of_isLiteral (h hw)]

/-- Patterns for names, none of them the bare wildcard, admit the entities with a name that one of them
matches. -/
theorem Entity.isAdmitted_entity_iff {patterns : List String} (h : wildcard ∉ patterns) :
    e.isAdmitted user Dimension.entity patterns = true ↔
      ∃ name, e.qualifiedName? = some name ∧
        ∃ p ∈ patterns, (Pattern.glob p user).accepts name.toList = true := by
  rw [isAdmitted_iff, Target.Admits, or_iff_right h]
  have hseen : (Target.entity e).seen? Dimension.entity = some e.qualifiedName?.toList := by
    simp +decide [Target.seen?, Entity.seen?]
  simp only [hseen, Option.some.injEq, forall_eq', Pattern.MatchesSome, Option.mem_toList,
    Glob.accepts_iff_matches]

/-- The policy restricts the types and the names of entities, and no other dimension. -/
structure Policy.IsAboutEntities (p : Policy) (types names : List String) : Prop where
  /-- The types. -/
  types : p.resource? Dimension.entityType = some types
  /-- The patterns of names. -/
  names : p.resource? Dimension.entity = some names
  /-- Every other dimension is left open. -/
  others : ∀ d values, p.resource? d = some values →
    d ≠ Dimension.entityType → d ≠ Dimension.entity → wildcard ∈ values

/-- The entries of a resource map tell what the policy is about. -/
theorem Policy.IsAboutEntities.of_entries {p : Policy} {types names : List String}
    {entries : List (String × List String)} (hp : p.resources = NameMap.ofList entries)
    (hdistinct : (entries.map Prod.fst).Nodup) (htypes : (Dimension.entityType, types) ∈ entries)
    (hnames : (Dimension.entity, names) ∈ entries)
    (hothers : ∀ d ∈ entries,
      d = (Dimension.entityType, types) ∨ d = (Dimension.entity, names) ∨ wildcard ∈ d.2) :
    p.IsAboutEntities types names := by
  have hget : ∀ {d values}, p.resource? d = some values ↔ (d, values) ∈ entries := by
    intro d values
    rw [Policy.resource?, hp]
    exact NameMap.get?_ofList_eq_some fun a ha b hb h => List.inj_on_of_nodup_map hdistinct ha hb h
  refine ⟨hget.2 htypes, hget.2 hnames, fun d values hv htype hname => ?_⟩
  rcases hothers _ (hget.1 hv) with heq | heq | hopen
  · exact absurd (congrArg Prod.fst heq) htype
  · exact absurd (congrArg Prod.fst heq) hname
  · exact hopen

/-- Such a policy covers an entity when type and name are admitted. -/
theorem Policy.IsAboutEntities.coversEntity_iff {p : Policy} {types names : List String}
    (h : p.IsAboutEntities types names) :
    p.coversEntity user e = true ↔ e.isAdmitted user Dimension.entityType types = true ∧
      e.isAdmitted user Dimension.entity names = true := by
  rw [Policy.coversEntity_iff]
  constructor
  · intro hall
    exact ⟨hall _ _ h.types, hall _ _ h.names⟩
  · rintro ⟨htypes, hnames⟩ d values hv
    by_cases htype : d = Dimension.entityType
    · subst htype
      obtain rfl := Option.some.inj (h.types.symm.trans hv)
      exact htypes
    · by_cases hname : d = Dimension.entity
      · subst hname
        obtain rfl := Option.some.inj (h.names.symm.trans hv)
        exact hnames
      · exact Entity.isAdmitted_iff.2 (.inl (h.others d values hv htype hname))

end Dimensions

namespace Synthesis

/-! ### Resources -/

section Resources

variable {persona : Persona} {policy : PersonaPolicy} {actions : NameSet} {t : Template} {q : Policy}

/-- The types of the policies on entities. -/
def admittedTypes (persona : Persona) (policy : PersonaPolicy) : List String :=
  match policy.category with
  | .metadata => entityTypes persona
  | .glossary => glossaryTypes
  | .data => [wildcard]

theorem admittedTypes_mem (persona : Persona) (policy : PersonaPolicy) :
    admittedTypes persona policy ∈ [[wildcard], metadataTypes, glossaryTypes] := by
  unfold admittedTypes entityTypes
  cases policy.category with
  | metadata =>
    dsimp only
    split <;> simp
  | glossary => simp
  | data => simp

/-- No family declares a dimension twice. -/
theorem dimensions_nodup {f : Family} (hf : f ∈ metadataFamilies ++ glossaryFamilies) :
    f.dimensions.Nodup := by
  revert f
  decide +kernel

/-- Families of entities declare types, classifications and names, and some one open dimension more. -/
theorem exists_resources_of_entity {c : PersonaPolicy.Category} {f : Family} (hf : f ∈ families c)
    (hentity : f.category = .entity) {s : Scope} (hs : c = .glossary → s.types = glossaryTypes) :
    ∃ extra, f.resources s = entityResources s.types s ++ extra ∧ ∀ d ∈ extra, d.2 = [wildcard] := by
  have hopen : ∀ name : String, ∀ d ∈ [(name, [wildcard])], d.2 = [wildcard] := by
    rintro name d hd
    rw [List.mem_singleton.1 hd]
  cases c with
  | metadata =>
    simp only [families, metadataFamilies, List.mem_cons, List.not_mem_nil, or_false] at hf
    rcases hf with rfl | rfl | rfl | rfl | rfl
    case inl => exact ⟨[], (List.append_nil _).symm, fun d hd => absurd hd List.not_mem_nil⟩
    case inr.inl | inr.inr.inl => exact ⟨_, rfl, hopen _⟩
    all_goals exact absurd hentity (by decide)
  | glossary =>
    rw [hs rfl]
    simp only [families, glossaryFamilies, List.mem_cons, List.not_mem_nil, or_false] at hf
    rcases hf with rfl | rfl | rfl | rfl | rfl | rfl | rfl
    case inr.inl => exact ⟨[], (List.append_nil _).symm, fun d hd => absurd hd List.not_mem_nil⟩
    case inr.inr.inl | inr.inr.inr.inl | inr.inr.inr.inr.inl => exact ⟨_, rfl, hopen _⟩
    all_goals exact absurd hentity (by decide)
  | data => exact absurd hf List.not_mem_nil

/-- Entities of given types among the assets are what a policy is about, if all that it declares besides
is open. -/
theorem isAboutEntities_of_entityResources {types : List String} {s : Scope}
    {extra : List (String × List String)}
    (hq : q.resources = NameMap.ofList (entityResources types s ++ extra))
    (hdistinct : ((entityResources types s ++ extra).map Prod.fst).Nodup)
    (hopen : ∀ d ∈ extra, d.2 = [wildcard]) : q.IsAboutEntities types s.assets := by
  refine .of_entries hq hdistinct (by simp [entityResources]) (by simp [entityResources]) fun d hd => ?_
  rcases List.mem_append.1 hd with hd | hd
  · simp only [entityResources, List.mem_cons, List.not_mem_nil, or_false] at hd
    rcases hd with rfl | rfl | rfl
    · exact .inl rfl
    · exact .inr (.inr (List.mem_singleton_self _))
    · exact .inr (.inl rfl)
  · rw [hopen d hd]
    exact .inr (.inr (List.mem_singleton_self _))

/-- The policies on entities restrict types and names only. -/
theorem Template.isAboutEntities (ht : t ∈ templates policy)
    (h : t.provisional? persona policy actions = some q) (hentity : q.category = .entity) :
    q.IsAboutEntities (admittedTypes persona policy) (patterns policy) := by
  cases t with
  | family f =>
    have hf := family_mem_templates.1 ht
    have hcategory : f.category = .entity := by
      rw [← hentity, provisional?_eq h]
      cases policy.effect <;> rfl
    have htypes : (scope persona policy).types = admittedTypes persona policy := by
      have hdata := category_ne_data hf
      unfold scope admittedTypes
      cases hc : policy.category with
      | metadata => rfl
      | glossary => rfl
      | data => exact absurd hc hdata
    obtain ⟨extra, hresources, hopen⟩ := exists_resources_of_entity hf hcategory
      (s := scope persona policy) fun hglossary => if_pos hglossary
    have hdistinct : ((f.resources (scope persona policy)).map Prod.fst).Nodup := by
      rw [(family_dimensions (families_sub hf)).1]
      exact dimensions_nodup (families_sub hf)
    rw [htypes] at hresources
    rw [hresources] at hdistinct
    exact isAboutEntities_of_entityResources (hresources ▸ provisional?_resources h) hdistinct hopen
  | data masked =>
    obtain ⟨hdata, -⟩ := data_mem_templates.1 ht
    obtain rfl := Option.some.inj h
    have hdistinct : [Dimension.entityType, Dimension.entity].Nodup := by decide
    rw [admittedTypes, patterns, hdata]
    refine .of_entries (dataProvisional_resources persona policy) hdistinct List.mem_cons_self
      (List.mem_cons_of_mem _ List.mem_cons_self) fun d hd => ?_
    simp only [List.mem_cons, List.not_mem_nil, or_false] at hd
    exact hd.imp_right .inl

end Resources

/-! ### Literal assets -/

section Assets

variable {persona : Persona} {policy : PersonaPolicy} {user : String}

/-- Literal assets are turned into patterns that match the names reached from them. -/
theorem exists_pattern_matches_iff (h : ∀ a ∈ policy.assets, Pattern.isLiteral a = true)
    (name : String) :
    (∃ p ∈ patterns policy, (Pattern.glob p user).accepts name.toList = true) ↔
      policy.Reaches name := by
  have hself : ∀ a ∈ policy.assets,
      ((Pattern.glob a user).accepts name.toList = true ↔ name = a) := by
    intro a ha
    rw [Pattern.glob_of_isLiteral (h a ha), Glob.accepts_ofText, beq_iff_eq, String.toList_inj, eq_comm]
  unfold patterns PersonaPolicy.Reaches
  cases policy.category with
  | metadata =>
    simp only [hierarchicalAssets, List.mem_append, List.mem_map]
    constructor
    · rintro ⟨p, hp | ⟨a, ha, rfl⟩, hmatch⟩
      · exact ⟨p, hp, .inl ((hself p hp).1 hmatch)⟩
      · exact ⟨a, ha, .inr ((Pattern.accepts_glob_below (h a ha) user name).1 hmatch)⟩
    · rintro ⟨a, ha, hname | hbelow⟩
      · exact ⟨a, .inl ha, (hself a ha).2 hname⟩
      · exact ⟨_, .inr ⟨a, ha, rfl⟩, (Pattern.accepts_glob_below (h a ha) user name).2 hbelow⟩
  | glossary =>
    simp only [containingAssets, List.mem_map, exists_exists_and_eq_and]
    exact exists_congr fun a => and_congr_right fun ha =>
      Pattern.accepts_glob_containing (h a ha) user name
  | data => exact exists_congr fun a => and_congr_right fun ha => hself a ha

/-- Literal assets are not turned into the bare wildcard. -/
theorem wildcard_not_mem_patterns (h : ∀ a ∈ policy.assets, Pattern.isLiteral a = true) :
    wildcard ∉ patterns policy := by
  have hself : wildcard ∉ policy.assets := fun hmem =>
    absurd (h _ hmem) (by decide)
  have hone : wildcard.length = 1 := by decide
  unfold patterns
  cases policy.category with
  | metadata =>
    intro hmem
    rcases List.mem_append.1 hmem with hmem | hmem
    · exact hself hmem
    · obtain ⟨a, -, ha⟩ := List.mem_map.1 hmem
      have hlength := congrArg String.length ha
      have htwo : "/*".length = 2 := by decide
      rw [String.length_append] at hlength
      omega
  | glossary =>
    intro hmem
    obtain ⟨a, -, ha⟩ := List.mem_map.1 hmem
    have hlength := congrArg String.length ha
    have hstar : "*".length = 1 := by decide
    rw [String.length_append, String.length_append] at hlength
    omega
  | data => exact hself

/-- Which personas apply to all types is told by how their names start. -/
theorem isTypeUnrestricted_iff : persona.isTypeUnrestricted = true ↔
    "collection".toList <+: persona.name.toList ∨ "connection".toList <+: persona.name.toList := by
  rw [Persona.isTypeUnrestricted, Bool.or_eq_true, Text.startsWith, Text.startsWith,
    List.isPrefixOf_iff_prefix, List.isPrefixOf_iff_prefix]

/-- The persona policy applies to the types of the policies on entities. -/
theorem appliesTo_iff {type : String} : policy.AppliesTo persona type ↔
    wildcard ∈ admittedTypes persona policy ∨ type ∈ admittedTypes persona policy := by
  have hmetadata : wildcard ∉ metadataTypes := by decide
  have hglossary : wildcard ∉ glossaryTypes := by decide
  unfold admittedTypes PersonaPolicy.AppliesTo
  cases policy.category with
  | metadata =>
    dsimp only
    rw [← or_assoc, ← isTypeUnrestricted_iff, entityTypes]
    by_cases hopen : persona.isTypeUnrestricted = true
    · rw [if_pos hopen]
      exact iff_of_true (.inl hopen) (.inl (List.mem_singleton_self _))
    · rw [if_neg hopen]
      exact (or_iff_right hopen).trans (or_iff_right hmetadata).symm
  | glossary => exact (or_iff_right hglossary).symm
  | data => exact iff_of_true trivial (.inl (List.mem_singleton_self _))

/-- The types of the policies on entities admit the entities that have a type to which the persona policy
applies. -/
theorem isAdmitted_admittedTypes_iff {e : Entity} :
    e.isAdmitted user Dimension.entityType (admittedTypes persona policy) = true ↔
      ∃ type ∈ e.typeName :: e.superTypeNames, policy.AppliesTo persona type := by
  have hliteral : ∀ types ∈ [[wildcard], metadataTypes, glossaryTypes],
      wildcard ∉ types → ∀ p ∈ types, Pattern.isLiteral p = true := by decide
  rw [Entity.isAdmitted_entityType_iff (hliteral _ (admittedTypes_mem persona policy))]
  simp only [appliesTo_iff]

end Assets

/-! ### Coverage -/

/-- With assets that are literal text, the policies on entities that enforce a persona policy cover just
the entities with a name that is reached from an asset and a type, their own or an ancestor, that the
persona policy applies to, for every user. -/
theorem coversEntity_synthesizeActions_iff {draw : Nat} {persona : Persona} {policy : PersonaPolicy}
    {actions : NameSet} {q : Policy}
    (hplain : ∀ a ∈ policy.assets, '*' ∉ a.toList ∧ ¬ userPlaceholder.toList <:+: a.toList)
    (hq : q ∈ synthesizeActions draw persona policy actions) (hentity : q.category = .entity)
    (user : String) (e : Entity) :
    q.coversEntity user e = true ↔
      (∃ name, e.qualifiedName? = some name ∧ policy.Reaches name) ∧
      ∃ type ∈ e.typeName :: e.superTypeNames, policy.AppliesTo persona type := by
  have hliteral : ∀ a ∈ policy.assets, Pattern.isLiteral a = true := by
    intro a ha
    obtain ⟨hstar, hplaceholder⟩ := hplain a ha
    exact Pattern.isLiteral_iff.2
      ⟨hstar, Bool.eq_false_iff.2 fun h => hplaceholder (Pattern.hasPlaceholder_iff.1 h)⟩
  obtain ⟨t, ht, p, hp, name, rfl⟩ := exists_template hq
  have habout : p.IsAboutEntities (admittedTypes persona policy) (patterns policy) :=
    Template.isAboutEntities ht hp hentity
  have hnamed : Policy.coversEntity { p with name } user e = p.coversEntity user e := rfl
  rw [hnamed, habout.coversEntity_iff, isAdmitted_admittedTypes_iff,
    Entity.isAdmitted_entity_iff (wildcard_not_mem_patterns hliteral), and_comm]
  simp only [exists_pattern_matches_iff hliteral]

/-- A grant on `db` covers the processes below it, and none of a sibling whose name starts alike. -/
theorem coversEntity_synthesizeActions_siblings :
    let persona : Persona := { guid := "analysts", name := "analysts" }
    let policy : PersonaPolicy :=
      { guid := "reading", personaGuid := "analysts", name := "reading", category := .metadata
        actions := NameSet.ofList [Action.entityRead], assets := ["db"], connectionId := some "db" }
    let process (name : String) : Entity := Entity.withQualifiedName { typeName := "Process" } name
    (∀ a ∈ policy.assets, '*' ∉ a.toList ∧ ¬ userPlaceholder.toList <:+: a.toList) ∧
      ∃ q ∈ synthesizeActions 0 persona policy policy.actions, q.category = .entity ∧
        q.coversEntity "ann" (process "db/orders") = true ∧
        q.coversEntity "ann" (process "dbx/orders") = false := by
  intro persona policy process
  have hplain : ∀ a ∈ policy.assets, '*' ∉ a.toList ∧ ¬ userPlaceholder.toList <:+: a.toList := by
    decide
  have hsome : synthesizeActions 0 persona policy policy.actions ≠ [] := by decide +kernel
  have hall : ∀ q ∈ synthesizeActions 0 persona policy policy.actions, q.category = .entity := by
    decide +kernel
  obtain ⟨q, hq⟩ := List.exists_mem_of_ne_nil _ hsome
  have hentity := hall q hq
  have hcovers := coversEntity_synthesizeActions_iff hplain hq hentity "ann"
  have hname : ∀ name, (process name).qualifiedName? = some name := fun name => by
    simp [process, Entity.withQualifiedName, Entity.withAttribute, Entity.qualifiedName?,
      NameMap.get?_insert, Json.str?]
  refine ⟨hplain, q, hq, hentity, (hcovers _).2 ⟨⟨_, hname _, "db", by decide, .inr (by decide)⟩,
    "Process", List.mem_cons_self, .inr (.inr (by decide))⟩, ?_⟩
  rw [← Bool.not_eq_true, hcovers]
  rintro ⟨⟨name, hsome, a, ha, hreach⟩, -⟩
  obtain rfl := Option.some.inj ((hname _).symm.trans hsome)
  obtain rfl := List.mem_singleton.1 ha
  exact absurd hreach (by decide)

end Synthesis

end CatalogAccess
