import CatalogAccess.Proofs.NameMap
import CatalogAccess.Proofs.Reconcile.Policies
import CatalogAccess.Synthesis
import Mathlib.Algebra.GroupWithZero.Nat

/-!
# What synthesis yields

The provisional policies of a persona policy each have one item, for the role of the persona, and
the labels of the persona policy (`provisionals_isProvisional`). Two of them have the same target
only when they ask for the same (`provisionals_alike`), so that merging both into one policy is no
conflict: different families differ in the length or in the third of the canonical bytes, apart
from the families on relations between glossary terms, which all grant the same.
-/

namespace CatalogAccess

namespace ResourceMap

/-! ### Canonical bytes -/

/-- How many bytes the values of a dimension take. -/
def weight (values : List String) : Nat := (values.map fun v => (utf8 v).length + 8).sum

/-- The length of a dimension does not depend on the order of its values. -/
theorem length_dimensionBytes (d : String) (values : List String) :
    (dimensionBytes d values).length = (utf8 d).length + 2 + weight values := by
  have hsorted : ((values.mergeSort (· ≤ ·)).flatMap valueBytes).length = weight values := by
    have hperm := (List.mergeSort_perm values (· ≤ ·)).map fun v => (utf8 v).length + 8
    calc ((values.mergeSort (· ≤ ·)).flatMap valueBytes).length
        = ((values.mergeSort (· ≤ ·)).map fun v => (utf8 v).length + 8).sum := by
          rw [List.length_flatMap]
          simp only [length_valueBytes]
      _ = weight values := hperm.sum_nat
  rw [dimensionBytes, List.length_append, List.length_cons, List.length_append, hsorted,
    List.length_singleton]
  omega

/-- The length and the third of the canonical bytes, which tell families apart. -/
def marks (m : ResourceMap) : Nat × Option UInt8 := (m.canonicalBytes.length, m.canonicalBytes[2]?)

/-- The marks of a map whose first dimension has a name of three bytes or more. -/
theorem marks_eq {m : ResourceMap} {d : String} {values : List String}
    {rest : List (String × List String)} {length : Nat} {third : Option UInt8}
    (hm : m.toList = (d, values) :: rest) (hd : 2 < (utf8 d).length) (hthird : (utf8 d)[2]? = third)
    (hlength : (((d, values) :: rest).map fun e => (utf8 e.1).length + 2 + weight e.2).sum = length) :
    m.marks = (length, third) := by
  have hbytes : m.canonicalBytes.length = length := by
    rw [canonicalBytes, List.length_flatMap, hm, ← hlength]
    simp only [length_dimensionBytes]
  have hbyte : m.canonicalBytes[2]? = third := by
    rw [canonicalBytes, hm, List.flatMap_cons, dimensionBytes, List.append_assoc, ← hthird]
    exact List.getElem?_append_left hd
  rw [marks, hbytes, hbyte]

end ResourceMap

namespace Synthesis

open ResourceMap

theorem weight_wildcard : weight [wildcard] = 9 := by decide

/-- The marks of the resources of entities. -/
theorem marks_entity (types : List String) (s : Scope) :
    marks (NameMap.ofList (entityResources types s)) =
      (53 + weight s.assets + weight types, some 116) := by
  have hm : (NameMap.ofList (entityResources types s)).toList =
      [(Dimension.entity, s.assets), (Dimension.entityClassification, [wildcard]),
        (Dimension.entityType, types)] := by
    simp +decide only [NameMap.toList_ofList, entityResources, NameMap.insertSorted,
      List.foldl_cons, List.foldl_nil, if_true, if_false]
  have hentity : (utf8 Dimension.entity).length = 6 := by decide
  have hclassification : (utf8 Dimension.entityClassification).length = 21 := by decide
  have htype : (utf8 Dimension.entityType).length = 11 := by decide
  refine marks_eq hm (by decide) (by decide) ?_
  simp only [List.map_cons, List.map_nil, List.sum_cons, List.sum_nil, hentity, hclassification,
    htype, weight_wildcard]
  omega

/-- The marks of the resources of entities with one more dimension, left open. -/
theorem marks_entity_extra (types : List String) (s : Scope) :
    marks (NameMap.ofList
        (entityResources types s ++ [(Dimension.classification, [wildcard])])) =
      (78 + weight s.assets + weight types, some 97) ∧
    marks (NameMap.ofList
        (entityResources types s ++ [(Dimension.entityBusinessMetadata, [wildcard])])) =
      (88 + weight s.assets + weight types, some 116) ∧
    marks (NameMap.ofList
        (entityResources types s ++ [(Dimension.entityLabel, [wildcard])])) =
      (76 + weight s.assets + weight types, some 116) := by
  have hentity : (utf8 Dimension.entity).length = 6 := by decide
  have hclassification : (utf8 Dimension.entityClassification).length = 21 := by decide
  have htype : (utf8 Dimension.entityType).length = 11 := by decide
  refine ⟨?_, ?_, ?_⟩
  · have hm : (NameMap.ofList
        (entityResources types s ++ [(Dimension.classification, [wildcard])])).toList =
        [(Dimension.classification, [wildcard]), (Dimension.entity, s.assets),
          (Dimension.entityClassification, [wildcard]), (Dimension.entityType, types)] := by
      simp +decide only [NameMap.toList_ofList, entityResources, NameMap.insertSorted,
        List.foldl_cons, List.foldl_nil, List.cons_append, List.nil_append, if_true, if_false]
    have hextra : (utf8 Dimension.classification).length = 14 := by decide
    refine marks_eq hm (by decide) (by decide) ?_
    simp only [List.map_cons, List.map_nil, List.sum_cons, List.sum_nil, hentity, hclassification,
      htype, hextra, weight_wildcard]
    omega
  · have hm : (NameMap.ofList
        (entityResources types s ++ [(Dimension.entityBusinessMetadata, [wildcard])])).toList =
        [(Dimension.entity, s.assets), (Dimension.entityBusinessMetadata, [wildcard]),
          (Dimension.entityClassification, [wildcard]), (Dimension.entityType, types)] := by
      simp +decide only [NameMap.toList_ofList, entityResources, NameMap.insertSorted,
        List.foldl_cons, List.foldl_nil, List.cons_append, List.nil_append, if_true, if_false]
    have hextra : (utf8 Dimension.entityBusinessMetadata).length = 24 := by decide
    refine marks_eq hm (by decide) (by decide) ?_
    simp only [List.map_cons, List.map_nil, List.sum_cons, List.sum_nil, hentity, hclassification,
      htype, hextra, weight_wildcard]
    omega
  · have hm : (NameMap.ofList
        (entityResources types s ++ [(Dimension.entityLabel, [wildcard])])).toList =
        [(Dimension.entity, s.assets), (Dimension.entityClassification, [wildcard]),
          (Dimension.entityLabel, [wildcard]), (Dimension.entityType, types)] := by
      simp +decide only [NameMap.toList_ofList, entityResources, NameMap.insertSorted,
        List.foldl_cons, List.foldl_nil, List.cons_append, List.nil_append, if_true, if_false]
    have hextra : (utf8 Dimension.entityLabel).length = 12 := by decide
    refine marks_eq hm (by decide) (by decide) ?_
    simp only [List.map_cons, List.map_nil, List.sum_cons, List.sum_nil, hentity, hclassification,
      htype, hextra, weight_wildcard]
    omega

/-- The marks of the resources of relationships. -/
theorem marks_relationship (one oneTypes two twoTypes : List String) :
    marks (NameMap.ofList (relationshipResources one oneTypes two twoTypes)) =
      (182 + weight one + weight oneTypes + weight two + weight twoTypes, some 100) := by
  have hm : (NameMap.ofList (relationshipResources one oneTypes two twoTypes)).toList =
      [(Dimension.endOneEntity, one), (Dimension.endOneEntityClassification, [wildcard]),
        (Dimension.endOneEntityType, oneTypes), (Dimension.endTwoEntity, two),
        (Dimension.endTwoEntityClassification, [wildcard]), (Dimension.endTwoEntityType, twoTypes),
        (Dimension.relationshipType, [wildcard])] := by
    simp +decide only [NameMap.toList_ofList, relationshipResources, NameMap.insertSorted,
      List.foldl_cons, List.foldl_nil, if_true, if_false]
  have h1 : (utf8 Dimension.endOneEntity).length = 14 := by decide
  have h2 : (utf8 Dimension.endOneEntityClassification).length = 29 := by decide
  have h3 : (utf8 Dimension.endOneEntityType).length = 19 := by decide
  have h4 : (utf8 Dimension.endTwoEntity).length = 14 := by decide
  have h5 : (utf8 Dimension.endTwoEntityClassification).length = 29 := by decide
  have h6 : (utf8 Dimension.endTwoEntityType).length = 19 := by decide
  have h7 : (utf8 Dimension.relationshipType).length = 17 := by decide
  refine marks_eq hm (by decide) (by decide) ?_
  simp only [List.map_cons, List.map_nil, List.sum_cons, List.sum_nil, h1, h2, h3, h4, h5, h6, h7,
    weight_wildcard]
  omega

/-! ### Families -/

/-- The dimensions of the policies of a family. -/
def Family.dimensions (f : Family) : List String := (f.resources ⟨[], []⟩).map Prod.fst

/-- The dimensions of a family do not depend on the assets. They have plain names, and tell whether
the family is about relationships. -/
theorem family_dimensions {f : Family} (hf : f ∈ metadataFamilies ++ glossaryFamilies) :
    (∀ s, (f.resources s).map Prod.fst = f.dimensions) ∧ (∀ d ∈ f.dimensions, IsPlainName d) ∧
      f.category = if Dimension.relationshipType ∈ f.dimensions then .relationship else .entity := by
  constructor
  · simp only [metadataFamilies, glossaryFamilies, List.cons_append, List.nil_append,
      List.mem_cons, List.not_mem_nil, or_false] at hf
    intro s
    rcases hf with rfl | rfl | rfl | rfl | rfl | rfl | rfl | rfl | rfl | rfl | rfl | rfl <;> rfl
  · revert f
    decide +kernel

/-- Every dimension of a family has values, if there are assets and types. -/
theorem family_values {f : Family} (hf : f ∈ metadataFamilies ++ glossaryFamilies) {s : Scope}
    (hassets : s.assets ≠ []) (htypes : s.types ≠ []) : ∀ e ∈ f.resources s, e.2 ≠ [] := by
  have hglossary : glossaryTypes ≠ [] := by decide
  have hlinkable : linkableTypes ≠ [] := by decide
  simp only [metadataFamilies, glossaryFamilies, List.cons_append, List.nil_append,
    List.mem_cons, List.not_mem_nil, or_false] at hf
  rcases hf with rfl | rfl | rfl | rfl | rfl | rfl | rfl | rfl | rfl | rfl | rfl | rfl <;>
    simp [entityResources, relationshipResources, hassets, htypes, hglossary, hlinkable]

/-- The accesses that a family grants for the actions requested. -/
def Family.granted (f : Family) (actions : NameSet) : List String :=
  f.accesses (f.triggers.filter actions.contains)

/-- Metadata families with the same target are the same family. -/
theorem metadata_granted_eq {f g : Family} (hf : f ∈ metadataFamilies) (hg : g ∈ metadataFamilies)
    {s : Scope} (h : marks (NameMap.ofList (f.resources s)) = marks (NameMap.ofList (g.resources s)))
    (actions : NameSet) : f.granted actions = g.granted actions := by
  have hterm : weight [glossaryTermType] = 25 := by decide
  have hlink : weight linkableTypes = 126 := by decide
  simp only [metadataFamilies, List.mem_cons, List.not_mem_nil, or_false] at hf hg
  rcases hf with rfl | rfl | rfl | rfl | rfl <;> rcases hg with rfl | rfl | rfl | rfl | rfl
  -- Different families differ in the third byte, or else by a fixed number of bytes.
  all_goals
    first
    | rfl
    | simp only [marks_entity, marks_entity_extra, marks_relationship, weight_wildcard, hterm,
        hlink, Prod.mk.injEq, Option.some.injEq] at h
      obtain ⟨hlength, hthird⟩ := h
      first
      | exact absurd hthird (by decide)
      | omega

/-- Glossary families with the same target grant the same. -/
theorem glossary_granted_eq {f g : Family} (hf : f ∈ glossaryFamilies) (hg : g ∈ glossaryFamilies)
    {s : Scope} (h : marks (NameMap.ofList (f.resources s)) = marks (NameMap.ofList (g.resources s)))
    (actions : NameSet) : f.granted actions = g.granted actions := by
  simp only [glossaryFamilies, List.mem_cons, List.not_mem_nil, or_false] at hf hg
  rcases hf with rfl | rfl | rfl | rfl | rfl | rfl | rfl <;>
    rcases hg with rfl | rfl | rfl | rfl | rfl | rfl | rfl
  -- Relations between terms all grant the same, and other families differ as above.
  all_goals
    first
    | rfl
    | simp only [marks_entity, marks_entity_extra, marks_relationship, Prod.mk.injEq,
        Option.some.injEq] at h
      obtain ⟨hlength, hthird⟩ := h
      first
      | exact absurd hthird (by decide)
      | omega

/-! ### Provisional policies -/

/-- The provisional policy of a family. -/
theorem provisional?_eq {f : Family} {persona : Persona} {policy : PersonaPolicy}
    {actions : NameSet} {scope : Scope} {q : Policy}
    (h : f.provisional? persona policy actions scope = some q) :
    q = ({ name := f.stem, service := policy.service, category := f.category
           resources := NameMap.ofList (f.resources scope), labels := labels persona policy } :
        Policy).withItem policy.effect (roleItem persona (f.granted actions)) := by
  unfold Family.provisional? at h
  dsimp only at h
  split at h
  · exact absurd h.symm (Option.some_ne_none q)
  · exact (Option.some.inj h).symm

/-- A family with an action among those requested yields a policy, which grants the action if the
family grants what it is asked for. -/
theorem exists_provisional? {f : Family} {actions : NameSet} {action : String}
    (htrigger : action ∈ f.triggers) (hasked : action ∈ actions) (persona : Persona)
    (policy : PersonaPolicy) (scope : Scope) :
    (∃ q, f.provisional? persona policy actions scope = some q) ∧
      (f.accesses = id → action ∈ f.granted actions) := by
  have hmem : action ∈ f.triggers.filter actions.contains :=
    List.mem_filter.2 ⟨htrigger, NameSet.contains_iff.2 hasked⟩
  have hsome : ¬ (f.triggers.filter actions.contains).isEmpty = true :=
    fun h => List.ne_nil_of_mem hmem (List.isEmpty_iff.1 h)
  constructor
  · unfold Family.provisional?
    dsimp only
    rw [if_neg hsome]
    exact ⟨_, rfl⟩
  · intro hid
    rw [Family.granted, hid]
    exact hmem

/-- A policy of kind access with one more item than none is provisional. -/
theorem isProvisional_withItem {p : Policy} (hk : p.kind = .access) (ha : p.allowItems = [])
    (hd : p.denyItems = []) (hm : p.maskItems = []) (effect : Effect) (persona : Persona)
    (accesses : List String) :
    (p.withItem effect (roleItem persona accesses)).IsProvisional persona.roleName := by
  cases effect with
  | allow =>
    refine .allow (NameSet.ofList accesses) hk ?_ hd hm
    show p.allowItems ++ [roleItem persona accesses] = _
    rw [ha]
    rfl
  | deny =>
    refine .deny (NameSet.ofList accesses) hk ha ?_ hm
    show p.denyItems ++ [roleItem persona accesses] = _
    rw [hd]
    rfl

/-- A data policy yields one provisional policy, with one item. -/
theorem dataProvisional_isProvisional (persona : Persona) (policy : PersonaPolicy) :
    (dataProvisional persona policy).IsProvisional persona.roleName ∧
      (dataProvisional persona policy).id = none ∧
      (dataProvisional persona policy).labels = labels persona policy := by
  unfold dataProvisional
  dsimp only
  cases policy.maskType.filter fun m => !m.isEmpty with
  | none =>
    refine ⟨isProvisional_withItem rfl rfl rfl rfl _ persona _, ?_⟩
    cases policy.effect <;> exact ⟨rfl, rfl⟩
  | some maskType =>
    exact ⟨.mask (NameSet.ofList [Action.select]) maskType rfl rfl rfl rfl, rfl, rfl⟩

/-- The resources of the policies of a family. -/
theorem provisional?_resources {f : Family} {persona : Persona} {policy : PersonaPolicy}
    {actions : NameSet} {scope : Scope} {q : Policy}
    (h : f.provisional? persona policy actions scope = some q) :
    q.resources = NameMap.ofList (f.resources scope) := by
  rw [provisional?_eq h]
  cases policy.effect <;> rfl

/-- The resources of the policy of a data policy. -/
theorem dataProvisional_resources (persona : Persona) (policy : PersonaPolicy) :
    (dataProvisional persona policy).resources = NameMap.ofList
      [(Dimension.entityType, [wildcard]), (Dimension.entity, policy.assets)] := by
  unfold dataProvisional
  dsimp only
  split
  · cases policy.effect <;> rfl
  · rfl

/-- The policies of a family are synthetic. -/
theorem family_isSynthetic {f : Family} (hf : f ∈ metadataFamilies ++ glossaryFamilies)
    {persona : Persona} {policy : PersonaPolicy} {actions : NameSet} {scope : Scope} {q : Policy}
    (h : f.provisional? persona policy actions scope = some q) : q.IsSynthetic := by
  obtain ⟨hkeys, hplain, hcategory⟩ := family_dimensions hf
  have hresources := provisional?_resources h
  have hframe : q.enabled = true ∧ q.category = f.category := by
    rw [provisional?_eq h]
    cases policy.effect <;> exact ⟨rfl, rfl⟩
  obtain ⟨henabled, hcat⟩ := hframe
  refine ⟨henabled, fun e he => ?_, ?_⟩
  · rw [hresources] at he
    refine hplain e.1 ?_
    rw [← hkeys scope]
    exact List.mem_map_of_mem (NameMap.mem_of_mem_ofList he)
  · rw [hcat, hcategory, hresources]
    simp only [NameMap.contains_ofList, hkeys]

/-- The policy of a data policy is synthetic. -/
theorem dataProvisional_isSynthetic (persona : Persona) (policy : PersonaPolicy) :
    (dataProvisional persona policy).IsSynthetic := by
  have hresources := dataProvisional_resources persona policy
  have hframe : (dataProvisional persona policy).enabled = true ∧
      (dataProvisional persona policy).category = .entity := by
    unfold dataProvisional
    dsimp only
    split
    · cases policy.effect <;> exact ⟨rfl, rfl⟩
    · exact ⟨rfl, rfl⟩
  obtain ⟨henabled, hcategory⟩ := hframe
  have hplain : ∀ d ∈ [Dimension.entityType, Dimension.entity], IsPlainName d := by decide +kernel
  refine ⟨henabled, fun e he => ?_, ?_⟩
  · rw [hresources] at he
    exact hplain e.1 (List.mem_map_of_mem (f := Prod.fst) (NameMap.mem_of_mem_ofList he))
  · rw [hcategory, hresources, if_neg]
    rw [NameMap.contains_ofList]
    show Dimension.relationshipType ∉ [Dimension.entityType, Dimension.entity]
    decide

/-- All provisional policies are synthetic. -/
theorem provisionals_isSynthetic {persona : Persona} {policy : PersonaPolicy} {actions : NameSet}
    {q : Policy} (h : q ∈ provisionals persona policy actions) : q.IsSynthetic := by
  unfold provisionals at h
  cases hc : policy.category with
  | metadata =>
    rw [hc] at h
    obtain ⟨f, hf, hq⟩ := List.mem_filterMap.1 h
    exact family_isSynthetic (List.mem_append_left _ hf) hq
  | glossary =>
    rw [hc] at h
    obtain ⟨f, hf, hq⟩ := List.mem_filterMap.1 h
    exact family_isSynthetic (List.mem_append_right _ hf) hq
  | data =>
    rw [hc] at h
    obtain rfl := List.mem_singleton.1 h
    exact dataProvisional_isSynthetic persona policy

/-- Each provisional policy has one item, for the role of the persona, no identifier yet, and the
labels of the persona policy. -/
theorem provisionals_isProvisional {persona : Persona} {policy : PersonaPolicy} {actions : NameSet}
    {q : Policy} (h : q ∈ provisionals persona policy actions) :
    q.IsProvisional persona.roleName ∧ q.id = none ∧ q.labels = labels persona policy := by
  have hfamily : ∀ {f : Family} {scope : Scope},
      f.provisional? persona policy actions scope = some q →
      q.IsProvisional persona.roleName ∧ q.id = none ∧ q.labels = labels persona policy := by
    intro f scope hq
    rw [provisional?_eq hq]
    refine ⟨isProvisional_withItem rfl rfl rfl rfl _ persona _, ?_⟩
    cases policy.effect <;> exact ⟨rfl, rfl⟩
  unfold provisionals at h
  cases hc : policy.category with
  | metadata =>
    rw [hc] at h
    obtain ⟨f, -, hq⟩ := List.mem_filterMap.1 h
    exact hfamily hq
  | glossary =>
    rw [hc] at h
    obtain ⟨f, -, hq⟩ := List.mem_filterMap.1 h
    exact hfamily hq
  | data =>
    rw [hc] at h
    obtain rfl := List.mem_singleton.1 h
    exact dataProvisional_isProvisional persona policy

/-- Every dimension of a provisional policy has values, if there are assets. -/
theorem provisionals_values {persona : Persona} {policy : PersonaPolicy} {actions : NameSet}
    {q : Policy} (h : q ∈ provisionals persona policy actions) (hassets : policy.assets ≠ []) :
    ∀ e ∈ q.resources.toList, e.2 ≠ [] := by
  have hfamily : ∀ {f : Family} {scope : Scope}, f ∈ metadataFamilies ++ glossaryFamilies →
      f.provisional? persona policy actions scope = some q → scope.assets ≠ [] →
      scope.types ≠ [] → ∀ e ∈ q.resources.toList, e.2 ≠ [] := by
    intro f scope hf hq hscope htypes e he
    rw [provisional?_resources hq] at he
    exact family_values hf hscope htypes e (NameMap.mem_of_mem_ofList he)
  have hglossary : glossaryTypes ≠ [] := by decide
  unfold provisionals at h
  cases hc : policy.category with
  | metadata =>
    rw [hc] at h
    obtain ⟨f, hf, hq⟩ := List.mem_filterMap.1 h
    refine hfamily (List.mem_append_left _ hf) hq (by simpa [hierarchicalAssets] using hassets) ?_
    show (if persona.isTypeUnrestricted then [wildcard] else metadataTypes) ≠ []
    split <;> decide
  | glossary =>
    rw [hc] at h
    obtain ⟨f, hf, hq⟩ := List.mem_filterMap.1 h
    exact hfamily (List.mem_append_right _ hf) hq (by simpa [containingAssets] using hassets)
      hglossary
  | data =>
    rw [hc] at h
    obtain rfl := List.mem_singleton.1 h
    intro e he
    rw [dataProvisional_resources] at he
    have hmem := NameMap.mem_of_mem_ofList he
    simp only [List.mem_cons, List.not_mem_nil, or_false] at hmem
    rcases hmem with rfl | rfl
    · exact List.cons_ne_nil _ _
    · exact hassets

/-- Provisional policies of families that grant the same are alike when their targets are. -/
theorem alike_of_granted_eq {f g : Family} {persona : Persona} {policy : PersonaPolicy}
    {actions : NameSet} {scope : Scope} {q q' : Policy}
    (hq : f.provisional? persona policy actions scope = some q)
    (hq' : g.provisional? persona policy actions scope = some q') (h : q.target = q'.target)
    (hgranted : marks (NameMap.ofList (f.resources scope)) =
        marks (NameMap.ofList (g.resources scope)) → f.granted actions = g.granted actions) :
    Policy.Alike q q' := by
  obtain rfl := provisional?_eq hq
  obtain rfl := provisional?_eq hq'
  -- The target holds the bytes of the resources, and these have the marks of the family.
  have hbytes : canonicalBytes (NameMap.ofList (f.resources scope)) =
      canonicalBytes (NameMap.ofList (g.resources scope)) := by
    cases hE : policy.effect <;> rw [hE] at h <;> exact Policy.canonicalBytes_eq_of_target h
  have hsame : f.granted actions = g.granted actions := hgranted (by rw [marks, marks, hbytes])
  rw [hsame] at h ⊢
  cases hE : policy.effect <;> rw [hE] at h <;> exact ⟨rfl, rfl, rfl, rfl, h⟩

/-- Two provisional policies of a persona policy with the same target ask for the same. -/
theorem provisionals_alike {persona : Persona} {policy : PersonaPolicy} {actions : NameSet}
    {q q' : Policy} (hq : q ∈ provisionals persona policy actions)
    (hq' : q' ∈ provisionals persona policy actions) (h : q.target = q'.target) :
    Policy.Alike q q' := by
  unfold provisionals at hq hq'
  cases hc : policy.category with
  | metadata =>
    rw [hc] at hq hq'
    obtain ⟨f, hf, hfq⟩ := List.mem_filterMap.1 hq
    obtain ⟨g, hg, hgq⟩ := List.mem_filterMap.1 hq'
    exact alike_of_granted_eq hfq hgq h fun hmarks => metadata_granted_eq hf hg hmarks actions
  | glossary =>
    rw [hc] at hq hq'
    obtain ⟨f, hf, hfq⟩ := List.mem_filterMap.1 hq
    obtain ⟨g, hg, hgq⟩ := List.mem_filterMap.1 hq'
    exact alike_of_granted_eq hfq hgq h fun hmarks => glossary_granted_eq hf hg hmarks actions
  | data =>
    rw [hc] at hq hq'
    obtain rfl := List.mem_singleton.1 hq
    obtain rfl := List.mem_singleton.1 hq'
    exact ⟨rfl, rfl, rfl, rfl, rfl⟩

/-- Completing names changes nothing else. -/
theorem mem_complete {draw : Nat} {ps : List Policy} {q : Policy} (h : q ∈ complete draw ps) :
    ∃ p ∈ ps, ∃ name, q = { p with name } := by
  induction ps generalizing draw with
  | nil => exact absurd h List.not_mem_nil
  | cons p ps ih =>
    rcases List.mem_cons.1 h with rfl | h
    · exact ⟨p, List.mem_cons_self, _, rfl⟩
    · obtain ⟨p', hp', hq⟩ := ih h
      exact ⟨p', List.mem_cons_of_mem p hp', hq⟩

/-- Every policy gets a name. -/
theorem exists_mem_complete {ps : List Policy} {p : Policy} (h : p ∈ ps) (draw : Nat) :
    ∃ name, { p with name } ∈ complete draw ps := by
  induction ps generalizing draw with
  | nil => exact absurd h List.not_mem_nil
  | cons p' ps ih =>
    rcases List.mem_cons.1 h with rfl | h
    · exact ⟨_, List.mem_cons_self⟩
    · obtain ⟨name, hname⟩ := ih h (draw + 1)
      exact ⟨name, List.mem_cons_of_mem _ hname⟩

end Synthesis

/-- What a plan needs to know of the provisional policies that it places. -/
structure Policy.AreProvisional (role : String) (qs : List Policy) : Prop where
  /-- Each has one item, for the role. -/
  each : ∀ q ∈ qs, q.IsProvisional role
  /-- None has an identifier. -/
  id : ∀ q ∈ qs, q.id = none
  /-- All are synthetic. -/
  synthetic : ∀ q ∈ qs, q.IsSynthetic
  /-- Those with the same target ask for the same. -/
  alike : ∀ q ∈ qs, ∀ q' ∈ qs, q.target = q'.target → Policy.Alike q q'

/-- What is synthesized may be placed in a plan. -/
theorem synthesizeActions_areProvisional (draw : Nat) (persona : Persona) (policy : PersonaPolicy)
    (actions : NameSet) :
    Policy.AreProvisional persona.roleName (synthesizeActions draw persona policy actions) := by
  constructor
  · intro q hq
    obtain ⟨p, hp, name, rfl⟩ := Synthesis.mem_complete hq
    obtain ⟨hprovisional, -, -⟩ := Synthesis.provisionals_isProvisional hp
    cases hprovisional with
    | allow accesses hk ha hd hm => exact .allow accesses hk ha hd hm
    | deny accesses hk ha hd hm => exact .deny accesses hk ha hd hm
    | mask accesses maskType hk ha hd hm => exact .mask accesses maskType hk ha hd hm
  · intro q hq
    obtain ⟨p, hp, name, rfl⟩ := Synthesis.mem_complete hq
    exact (Synthesis.provisionals_isProvisional hp).2.1
  · intro q hq
    obtain ⟨p, hp, name, rfl⟩ := Synthesis.mem_complete hq
    exact (Synthesis.provisionals_isSynthetic hp).of_frame rfl
  · intro q hq q' hq' h
    obtain ⟨p, hp, name, rfl⟩ := Synthesis.mem_complete hq
    obtain ⟨p', hp', name', rfl⟩ := Synthesis.mem_complete hq'
    have halike := Synthesis.provisionals_alike hp hp' h
    exact ⟨halike.allow, halike.deny, halike.mask, halike.labels, halike.target⟩

/-- The labels of what is synthesized are those of the persona policy. -/
theorem mem_labels_synthesize_iff {draw : Nat} {persona : Persona} {policy : PersonaPolicy}
    {q : Policy} (h : q ∈ synthesize draw persona policy) (l : String) :
    l ∈ q.labels ↔ l ∈ Label.ofPersonaPolicy persona.guid policy.guid := by
  obtain ⟨p, hp, name, rfl⟩ := Synthesis.mem_complete h
  show l ∈ p.labels ↔ _
  rw [(Synthesis.provisionals_isProvisional hp).2.2, Synthesis.labels, NameSet.mem_ofList]

/-- What is synthesized has the label of the persona policy. -/
theorem mem_labels_of_mem_synthesize {draw : Nat} {persona : Persona} {policy : PersonaPolicy}
    {q : Policy} (h : q ∈ synthesize draw persona policy) :
    Label.personaPolicy policy.guid ∈ q.labels :=
  (mem_labels_synthesize_iff h _).2 (List.mem_cons_of_mem _ List.mem_cons_self)

/-- What is synthesized has the label of the persona. -/
theorem persona_mem_labels_of_mem_synthesize {draw : Nat} {persona : Persona}
    {policy : PersonaPolicy} {q : Policy} (h : q ∈ synthesize draw persona policy) :
    Label.persona persona.guid ∈ q.labels :=
  (mem_labels_synthesize_iff h _).2 List.mem_cons_self

/-- What is synthesized for a policy that allows denies nothing, and the other way round. -/
theorem lists_of_mem_synthesize {draw : Nat} {persona : Persona} {policy : PersonaPolicy}
    {q : Policy} (h : q ∈ synthesize draw persona policy) :
    if policy.allow then q.denyItems = [] else q.allowItems = [] := by
  obtain ⟨p, hp, name, rfl⟩ := Synthesis.mem_complete h
  have hitem : ∀ {p : Policy} {item : Policy.Item}, p.allowItems = [] → p.denyItems = [] →
      if policy.allow then (p.withItem policy.effect item).denyItems = []
      else (p.withItem policy.effect item).allowItems = [] := by
    intro p item hallow hdeny
    unfold PersonaPolicy.effect
    split
    · exact hdeny
    · exact hallow
  show if policy.allow then p.denyItems = [] else p.allowItems = []
  unfold Synthesis.provisionals at hp
  split at hp
  · obtain ⟨f, -, hf⟩ := List.mem_filterMap.1 hp
    rw [Synthesis.provisional?_eq hf]
    exact hitem rfl rfl
  · obtain ⟨f, -, hf⟩ := List.mem_filterMap.1 hp
    rw [Synthesis.provisional?_eq hf]
    exact hitem rfl rfl
  · obtain rfl := List.mem_singleton.1 hp
    unfold Synthesis.dataProvisional
    dsimp only
    cases policy.maskType.filter fun m => !m.isEmpty with
    | none => exact hitem rfl rfl
    | some maskType => split <;> rfl

/-- Of a persona nothing matters to synthesis but its identifier, its role and, for metadata policies,
whether its grants apply to all types. -/
theorem synthesize_congr {draw : Nat} {persona persona' : Persona} {policy : PersonaPolicy}
    (hguid : persona'.guid = persona.guid) (hrole : persona'.roleName = persona.roleName)
    (htypes : policy.category = .metadata →
      persona'.isTypeUnrestricted = persona.isTypeUnrestricted) :
    synthesize draw persona' policy = synthesize draw persona policy := by
  have hlabels : Synthesis.labels persona' policy = Synthesis.labels persona policy := by
    rw [Synthesis.labels, hguid, Synthesis.labels]
  have hitem : Synthesis.roleItem persona' = Synthesis.roleItem persona := by
    funext accesses
    rw [Synthesis.roleItem, hrole, Synthesis.roleItem]
  have hfamily : ∀ f : Synthesis.Family, f.provisional? persona' policy = f.provisional? persona policy := by
    intro f
    funext actions scope
    simp only [Synthesis.Family.provisional?, hlabels, hitem]
  have hsame : Synthesis.provisionals persona' policy policy.actions =
      Synthesis.provisionals persona policy policy.actions := by
    unfold Synthesis.provisionals
    cases hcategory : policy.category with
    | metadata => simp only [htypes hcategory, hfamily]
    | glossary => simp only [hfamily]
    | data => simp only [Synthesis.dataProvisional, hlabels, hitem]
  rw [synthesize, synthesizeActions, hsame]
  rfl

/-- The resources of what is synthesized depend on the category, the actions and the assets of the persona
policy, and on the persona by the types only that its grants apply to. -/
theorem exists_resources_synthesize {draw : Nat} {persona persona' : Persona}
    {policy policy' : PersonaPolicy} (hcategory : policy'.category = policy.category)
    (hactions : policy'.actions = policy.actions) (hassets : policy'.assets = policy.assets)
    (htypes : persona'.isTypeUnrestricted = persona.isTypeUnrestricted) {q : Policy}
    (h : q ∈ synthesize draw persona policy) :
    ∃ q' ∈ synthesize draw persona' policy', q'.resources = q.resources := by
  obtain ⟨p, hp, name, rfl⟩ := Synthesis.mem_complete h
  have hfamily : ∀ {f : Synthesis.Family} {scope : Synthesis.Scope} {p : Policy},
      f.provisional? persona policy policy.actions scope = some p →
      ∃ p', f.provisional? persona' policy' policy.actions scope = some p' ∧
        p'.resources = p.resources := by
    intro f scope p hf
    have hresources := Synthesis.provisional?_resources hf
    unfold Synthesis.Family.provisional? at hf
    dsimp only at hf
    split at hf
    · exact absurd hf.symm (Option.some_ne_none p)
    · next hasked =>
      have hf' : ∃ p', f.provisional? persona' policy' policy.actions scope = some p' := by
        unfold Synthesis.Family.provisional?
        dsimp only
        rw [if_neg hasked]
        exact ⟨_, rfl⟩
      obtain ⟨p', hp'⟩ := hf'
      exact ⟨p', hp', (Synthesis.provisional?_resources hp').trans hresources.symm⟩
  have hsame : ∃ p' ∈ Synthesis.provisionals persona' policy' policy'.actions,
      p'.resources = p.resources := by
    unfold Synthesis.provisionals at hp ⊢
    rw [htypes, hcategory, hactions, hassets]
    split at hp
    · obtain ⟨f, hf, hsome⟩ := List.mem_filterMap.1 hp
      obtain ⟨p', hp', hresources⟩ := hfamily hsome
      exact ⟨p', List.mem_filterMap.2 ⟨f, hf, hp'⟩, hresources⟩
    · obtain ⟨f, hf, hsome⟩ := List.mem_filterMap.1 hp
      obtain ⟨p', hp', hresources⟩ := hfamily hsome
      exact ⟨p', List.mem_filterMap.2 ⟨f, hf, hp'⟩, hresources⟩
    · obtain rfl := List.mem_singleton.1 hp
      refine ⟨_, List.mem_singleton_self _, ?_⟩
      rw [Synthesis.dataProvisional_resources, Synthesis.dataProvisional_resources, hassets]
  obtain ⟨p', hp', hresources⟩ := hsame
  obtain ⟨name', hq'⟩ := Synthesis.exists_mem_complete hp' draw
  exact ⟨_, hq', hresources⟩

/-- Every dimension of what is synthesized has values, if there are assets. -/
theorem values_of_mem_synthesize {draw : Nat} {persona : Persona} {policy : PersonaPolicy}
    {q : Policy} (h : q ∈ synthesize draw persona policy) (hassets : policy.assets ≠ []) :
    ∀ e ∈ q.resources.toList, e.2 ≠ [] := by
  obtain ⟨p, hp, name, rfl⟩ := Synthesis.mem_complete h
  have hvalues : ∀ e ∈ p.resources.toList, e.2 ≠ [] := Synthesis.provisionals_values hp hassets
  exact hvalues

/-- For a basic operation on entities an allowing metadata policy asks for a grant to the role of the
persona, over the entities of some types among the assets and below them. -/
theorem exists_grant_synthesize (draw : Nat) (persona : Persona) {policy : PersonaPolicy}
    (hcategory : policy.category = .metadata) (hallow : policy.allow = true) {action : String}
    (hasked : action ∈ policy.actions) (hentity : action ∈ Action.entityActions) :
    ∃ q ∈ synthesize draw persona policy, q.service = .resource ∧
      (∃ accesses, q.allowItems = [.forRole accesses persona.roleName] ∧ action ∈ accesses) ∧
      ∃ types, (types = [wildcard] ∨ types = Synthesis.metadataTypes) ∧ q.resources =
        NameMap.ofList
          (Synthesis.entityResources types ⟨Synthesis.hierarchicalAssets policy.assets, types⟩) := by
  let types := if persona.isTypeUnrestricted then [wildcard] else Synthesis.metadataTypes
  have htypes : types = [wildcard] ∨ types = Synthesis.metadataTypes := by
    dsimp only [types]
    split
    · exact .inl rfl
    · exact .inr rfl
  -- The first family of metadata policies is the one for these operations.
  let f := Synthesis.metadataFamilies.head (by decide)
  obtain ⟨⟨p, hp⟩, hgranted⟩ := Synthesis.exists_provisional? (f := f) hentity hasked persona policy
    ⟨Synthesis.hierarchicalAssets policy.assets, types⟩
  have hmem : p ∈ Synthesis.provisionals persona policy policy.actions := by
    unfold Synthesis.provisionals
    rw [hcategory]
    exact List.mem_filterMap.2 ⟨f, List.head_mem _, hp⟩
  obtain ⟨name, hq⟩ := Synthesis.exists_mem_complete hmem draw
  have heffect : policy.effect = .allow := if_pos hallow
  have hservice : policy.service = .resource := by rw [PersonaPolicy.service, hcategory]; rfl
  obtain rfl := Synthesis.provisional?_eq hp
  rw [heffect] at hq
  exact ⟨_, hq, hservice, ⟨_, rfl, NameSet.mem_ofList.2 (hgranted rfl)⟩, types, htypes, rfl⟩

/-- Whatever identifiers are drawn, the same provisional policies are synthesized up to names. -/
theorem exists_alike_synthesize {draw draw' : Nat} {persona : Persona} {policy : PersonaPolicy}
    {q : Policy} (h : q ∈ synthesize draw persona policy) :
    ∃ q' ∈ synthesize draw' persona policy, Policy.Alike q' q := by
  obtain ⟨p, hp, name, rfl⟩ := Synthesis.mem_complete h
  obtain ⟨name', hq'⟩ := Synthesis.exists_mem_complete hp draw'
  exact ⟨{ p with name := name' }, hq', rfl, rfl, rfl, rfl, rfl⟩

/-- The lengths of the resources do not depend on what is drawn. -/
theorem short_synthesize {draw length : Nat} {persona : Persona} {policy : PersonaPolicy}
    (h : ∀ q ∈ synthesize draw persona policy,
      (ResourceMap.canonicalBytes q.resources).length < length) (draw' : Nat) :
    ∀ q ∈ synthesize draw' persona policy,
      (ResourceMap.canonicalBytes q.resources).length < length := by
  intro q hq
  obtain ⟨q', hq', halike⟩ := exists_alike_synthesize hq
  rw [← Policy.canonicalBytes_eq_of_target halike.target]
  exact h q' hq'

end CatalogAccess
