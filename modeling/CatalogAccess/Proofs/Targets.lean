import CatalogAccess.PersonaService
import CatalogAccess.Proofs.Outline
import Mathlib.Data.List.Count
import Mathlib.Data.List.Nodup
import Mathlib.Data.List.Perm.Basic

/-!
# What targets tell

A provisional policy comes from a template: a family of the category of its persona policy, or that of
data policies with or without a mask. Provisional policies have the same target exactly when they come
from the same template, from the same assets in some order and, where entities of the types that the
persona applies to are meant, for personas that apply to the same types
(`target_eq_iff`). So provisional policies of a persona with the same target come from persona
policies that are about the same assets in the same way (`duplicates_of_target_eq`), which is what is
refused among the policies of a persona, and within one persona policy no two provisional policies have
the same target (`synthesize_pairwise`).
-/

namespace CatalogAccess

namespace Synthesis

open ResourceMap

/-! ### Patterns -/

/-- The assets can be read back from the patterns for them and for everything below them. -/
theorem hierarchicalAssets_perm {l k : List String}
    (h : (hierarchicalAssets l).Perm (hierarchicalAssets k)) : l.Perm k := by
  have hinjective : Function.Injective fun a : String => a ++ "/*" :=
    fun _ _ heq => (String.append_left_inj "/*").1 heq
  have hcount : ∀ n, ∀ a : String, a.length = n → l.count a = k.count a := by
    intro n
    induction n using Nat.strongRecOn with
    | ind n ih =>
      intro a ha
      have hall := List.perm_iff_count.1 h a
      simp only [hierarchicalAssets, List.count_append] at hall
      by_cases hbelow : ∃ b, b ++ "/*" = a
      · -- What stands for everything below an asset is counted with the shorter asset.
        obtain ⟨b, rfl⟩ := hbelow
        have hshorter : b.length < n := by
          rw [← ha, String.length_append]
          exact Nat.lt_add_of_pos_right (by decide)
        rw [List.count_map_of_injective l _ hinjective, List.count_map_of_injective k _ hinjective,
          ih b.length hshorter b rfl] at hall
        omega
      · have hnone : ∀ m : List String, (m.map fun a => a ++ "/*").count a = 0 := by
          intro m
          rw [List.count_eq_zero]
          intro hmem
          obtain ⟨b, -, hb⟩ := List.mem_map.1 hmem
          exact hbelow ⟨b, hb⟩
        rw [hnone, hnone] at hall
        exact hall
  exact List.perm_iff_count.2 fun a => hcount a.length a rfl

/-- The assets can be read back from the patterns of names in which they occur. -/
theorem containingAssets_perm {l k : List String}
    (h : (containingAssets l).Perm (containingAssets k)) : l.Perm k := by
  have hinjective : Function.Injective fun a : String => "*" ++ a ++ "*" := by
    intro a b heq
    exact (String.append_right_inj "*").1 ((String.append_left_inj "*").1 heq)
  exact (List.map_perm_map_iff hinjective).1 h

/-- The patterns for assets are not just the wildcard. -/
theorem hierarchicalAssets_ne_wildcard (l : List String) :
    ¬ (hierarchicalAssets l).Perm [wildcard] := by
  intro h
  have hlength := h.length_eq
  simp only [hierarchicalAssets, List.length_append, List.length_map, List.length_singleton]
    at hlength
  omega

/-- The patterns of names in which assets occur are not just the wildcard. -/
theorem containingAssets_ne_wildcard (l : List String) :
    ¬ (containingAssets l).Perm [wildcard] := by
  intro h
  obtain ⟨a, -, ha⟩ := List.mem_map.1 (h.symm.subset (List.mem_singleton_self wildcard))
  have hlength := congrArg String.length ha
  rw [String.length_append, String.length_append] at hlength
  have hone : "*".length = 1 := by decide
  have hwildcard : wildcard.length = 1 := by decide
  omega

/-- The patterns that the families of a persona policy are given for its assets. -/
def patterns (policy : PersonaPolicy) : List String :=
  match policy.category with
  | .metadata => hierarchicalAssets policy.assets
  | .glossary => containingAssets policy.assets
  | .data => policy.assets

/-- The patterns of persona policies of one category tell their assets. -/
theorem patterns_perm_iff {policy policy' : PersonaPolicy} (h : policy.category = policy'.category) :
    (patterns policy).Perm (patterns policy') ↔ policy.assets.Perm policy'.assets := by
  unfold patterns
  rw [← h]
  cases policy.category with
  | metadata => exact ⟨hierarchicalAssets_perm, fun hperm => hperm.append (hperm.map _)⟩
  | glossary => exact ⟨containingAssets_perm, fun hperm => hperm.map _⟩
  | data => exact Iff.rfl

/-- Every asset is in some pattern, which is not much longer. -/
theorem exists_pattern {policy : PersonaPolicy} {a : String} (h : a ∈ policy.assets) :
    ∃ p ∈ patterns policy, (utf8 a).length ≤ (utf8 p).length := by
  unfold patterns
  cases policy.category with
  | metadata => exact ⟨a, List.mem_append_left _ h, Nat.le_refl _⟩
  | glossary =>
    refine ⟨_, List.mem_map_of_mem h, ?_⟩
    rw [utf8_append, utf8_append, List.length_append, List.length_append]
    omega
  | data => exact ⟨a, h, Nat.le_refl _⟩

/-- The assets of a persona policy are turned into patterns. -/
theorem patterns_arePatterns {policy : PersonaPolicy} (h : policy.category ≠ .data)
    (hshort : ∀ a ∈ policy.assets, (utf8 a).length < 2 ^ 63) :
    ArePatterns policy.category (patterns policy) := by
  -- A pattern is two bytes longer than its asset at most.
  have hslash : (utf8 "/*").length = 2 := by decide
  have hstar : utf8 "*" = [0x2a] := by decide
  unfold patterns
  cases hc : policy.category with
  | metadata =>
    refine ⟨⟨fun p hp => ?_, fun hstarred => absurd hstarred (by decide)⟩,
      hierarchicalAssets_ne_wildcard _⟩
    rcases List.mem_append.1 hp with hp | hp
    · have ha := hshort p hp
      omega
    · obtain ⟨a, ha, rfl⟩ := List.mem_map.1 hp
      have ha := hshort a ha
      rw [utf8_append, List.length_append, hslash]
      omega
  | glossary =>
    refine ⟨⟨fun p hp => ?_, fun _ p hp => ?_⟩, containingAssets_ne_wildcard _⟩
    · obtain ⟨a, ha, rfl⟩ := List.mem_map.1 hp
      have ha := hshort a ha
      rw [utf8_append, utf8_append, List.length_append, List.length_append, hstar,
        List.length_singleton]
      omega
    · obtain ⟨a, -, rfl⟩ := List.mem_map.1 hp
      rw [utf8_append, utf8_append, hstar]
      rfl
  | data => exact absurd hc h

/-! ### Templates -/

/-- What a provisional policy is made from. -/
inductive Template where
  /-- A family of actions. -/
  | family (f : Family)
  /-- Data policies, with a mask or without. -/
  | data (masked : Bool)

/-- Names of families differ. -/
theorem families_stem : ((metadataFamilies ++ glossaryFamilies).map Family.stem).Nodup := by
  decide +kernel

theorem families_eq_of_stem {f g : Family} (hf : f ∈ metadataFamilies ++ glossaryFamilies)
    (hg : g ∈ metadataFamilies ++ glossaryFamilies) (h : f.stem = g.stem) : f = g :=
  List.inj_on_of_nodup_map families_stem hf hg h

/-- A family belongs to one category. -/
theorem category_eq_of_mem_families {f : Family} {c c' : PersonaPolicy.Category}
    (h : f ∈ families c) (h' : f ∈ families c') : c = c' := by
  have hnames := families_stem
  rw [List.map_append, List.nodup_append] at hnames
  have hdisjoint : ∀ f ∈ metadataFamilies, f ∉ glossaryFamilies := fun f hf hg =>
    hnames.2.2 _ (List.mem_map_of_mem hf) _ (List.mem_map_of_mem hg) rfl
  cases c <;> cases c'
  case metadata.metadata | glossary.glossary => rfl
  case metadata.glossary => exact absurd h' (hdisjoint f h)
  case glossary.metadata => exact absurd h (hdisjoint f h')
  -- There are no families of data policies.
  case metadata.data | glossary.data => exact absurd h' List.not_mem_nil
  all_goals exact absurd h List.not_mem_nil

/-- The types that the grants of a persona apply to. -/
def entityTypes (persona : Persona) : List String :=
  if persona.isTypeUnrestricted then [wildcard] else metadataTypes

theorem entityTypes_mem (persona : Persona) : entityTypes persona ∈ typeOptions := by
  unfold entityTypes
  split
  · exact List.mem_cons_self
  · exact List.mem_cons_of_mem _ List.mem_cons_self

theorem entityTypes_eq_iff {persona persona' : Persona} :
    entityTypes persona = entityTypes persona' ↔
      persona.isTypeUnrestricted = persona'.isTypeUnrestricted := by
  have hdiffer : [wildcard] ≠ metadataTypes := by decide
  unfold entityTypes
  cases persona.isTypeUnrestricted <;> cases persona'.isTypeUnrestricted <;>
    simp [hdiffer, hdiffer.symm]

/-- The scope of the families of a persona policy. -/
def scope (persona : Persona) (policy : PersonaPolicy) : Scope :=
  ⟨patterns policy, if policy.category = .glossary then glossaryTypes else entityTypes persona⟩

/-- The templates of a persona policy. -/
def templates (policy : PersonaPolicy) : List Template :=
  match policy.category with
  | .metadata => metadataFamilies.map .family
  | .glossary => glossaryFamilies.map .family
  | .data => [.data policy.isDataMask]

/-- A family is a template of the policies of its category. -/
theorem family_mem_templates {policy : PersonaPolicy} {f : Family} :
    .family f ∈ templates policy ↔ f ∈ families policy.category := by
  unfold templates families
  cases policy.category <;> simp

/-- Data policies have one template, with a mask or without. -/
theorem data_mem_templates {policy : PersonaPolicy} {masked : Bool} :
    .data masked ∈ templates policy ↔ policy.category = .data ∧ masked = policy.isDataMask := by
  unfold templates
  cases policy.category <;> simp

/-- A template belongs to one category. -/
theorem category_eq_of_mem_templates {t : Template} {policy policy' : PersonaPolicy}
    (h : t ∈ templates policy) (h' : t ∈ templates policy') : policy'.category = policy.category := by
  cases t with
  | family f =>
    exact category_eq_of_mem_families (family_mem_templates.1 h') (family_mem_templates.1 h)
  | data masked => rw [(data_mem_templates.1 h).1, (data_mem_templates.1 h').1]

/-- The provisional policy of a template for the actions requested, with an incomplete name; nothing
when none of its actions is among them. -/
def Template.provisional? (persona : Persona) (policy : PersonaPolicy) (actions : NameSet) :
    Template → Option Policy
  | .family f => f.provisional? persona policy actions (scope persona policy)
  | .data _ => some (dataProvisional persona policy)

/-- Provisional policies come from the templates of their persona policy. -/
theorem provisionals_eq_filterMap (persona : Persona) (policy : PersonaPolicy) (actions : NameSet) :
    provisionals persona policy actions =
      (templates policy).filterMap (Template.provisional? persona policy actions) := by
  have hfamilies : ∀ (l : List Family) (s : Scope), scope persona policy = s →
      (l.map Template.family).filterMap (Template.provisional? persona policy actions) =
        l.filterMap fun f => f.provisional? persona policy actions s := by
    rintro l s rfl
    exact List.filterMap_map ..
  unfold provisionals templates
  cases hc : policy.category with
  | metadata =>
    refine (hfamilies _ _ ?_).symm
    rw [scope, patterns, hc]
    rfl
  | glossary =>
    refine (hfamilies _ _ ?_).symm
    rw [scope, patterns, hc]
    rfl
  | data => rfl

/-! ### Provisional policies -/

variable {persona persona' : Persona} {policy policy' : PersonaPolicy} {actions actions' : NameSet}
  {t t' : Template} {q q' : Policy}

/-- The kind of the policies that enforce anything but a data policy. -/
theorem kind_of_ne_data (h : policy.category ≠ .data) :
    policy.service = .resource ∧ policy.kind = .access := by
  have hno : (policy.category == .data) = false := beq_eq_false_iff_ne.2 h
  simp [PersonaPolicy.service, PersonaPolicy.kind, PersonaPolicy.isDataMask, h, hno]

/-- The category of a persona policy with a family among its templates. -/
theorem category_ne_data {f : Family} (h : f ∈ families policy.category) :
    policy.category ≠ .data := by
  intro hdata
  rw [hdata] at h
  exact absurd h List.not_mem_nil

/-- A provisional policy has the service and the kind of its persona policy. -/
theorem provisional?_service (ht : t ∈ templates policy)
    (h : t.provisional? persona policy actions = some q) :
    q.service = policy.service ∧ q.kind = policy.kind := by
  cases t with
  | family f =>
    have hcategory := category_ne_data (family_mem_templates.1 ht)
    rw [provisional?_eq h, (kind_of_ne_data hcategory).2]
    cases policy.effect <;> exact ⟨rfl, rfl⟩
  | data masked =>
    obtain ⟨hdata, -⟩ := data_mem_templates.1 ht
    obtain rfl := Option.some.inj h
    unfold dataProvisional PersonaPolicy.kind PersonaPolicy.isDataMask PersonaPolicy.service
    dsimp only
    rw [hdata]
    cases hm : policy.maskType with
    | none => cases policy.effect <;> exact ⟨rfl, rfl⟩
    | some m =>
      by_cases hempty : m.isEmpty = true
      · simp only [Option.filter, hempty, Option.any_some]
        cases policy.effect <;> exact ⟨rfl, rfl⟩
      · rw [Bool.not_eq_true] at hempty
        simp only [Option.filter, hempty, Option.any_some]
        exact ⟨rfl, rfl⟩

/-- The resources of the provisional policy of a family. -/
theorem family_resources {f : Family} (hf : f ∈ families policy.category)
    (h : (Template.family f).provisional? persona policy actions = some q) :
    q.resources = NameMap.ofList (f.resources ⟨patterns policy, entityTypes persona⟩) := by
  rw [provisional?_resources h]
  cases hc : policy.category with
  | metadata => rw [scope, hc]; rfl
  | glossary =>
    -- Glossary families prescribe their types.
    rw [hc] at hf
    simp only [families, glossaryFamilies, List.mem_cons, List.not_mem_nil, or_false] at hf
    rcases hf with rfl | rfl | rfl | rfl | rfl | rfl | rfl <;> rfl
  | data => exact absurd hc (category_ne_data hf)

/-- The canonical bytes of the provisional policy of a family. -/
theorem family_bytes {f : Family} (hf : f ∈ families policy.category)
    (h : (Template.family f).provisional? persona policy actions = some q) :
    canonicalBytes q.resources =
      Outline.bytes (f.outline (entityTypes persona)).toList (patterns policy) := by
  have htypes : ∀ types ∈ typeOptions, types ≠ [] := by decide
  rw [family_resources hf h,
    canonicalBytes_resources (families_sub hf) (htypes _ (entityTypes_mem persona))]

/-- The outline of data policies. -/
def dataOutline : Outline := [(Dimension.entity, []), (Dimension.entityType, [wildcard])]

/-- The canonical bytes of the provisional policy of a data policy. -/
theorem data_bytes (persona : Persona) (policy : PersonaPolicy) :
    canonicalBytes (dataProvisional persona policy).resources = dataOutline.bytes policy.assets := by
  rw [dataProvisional_resources, canonicalBytes]
  simp +decide only [NameMap.toList_ofList, NameMap.insertSorted, List.foldl_cons, List.foldl_nil,
    if_true, if_false]
  rfl

/-- Provisional policies of data policies have the same canonical bytes when they are about the same
assets. -/
theorem data_bytes_eq_iff (hshort : ∀ a ∈ policy.assets, (utf8 a).length < 2 ^ 63)
    (hshort' : ∀ a ∈ policy'.assets, (utf8 a).length < 2 ^ 63) :
    canonicalBytes (dataProvisional persona policy).resources =
        canonicalBytes (dataProvisional persona' policy').resources ↔
      policy.assets.Perm policy'.assets := by
  have htakes : ∀ {assets : List String}, (∀ a ∈ assets, (utf8 a).length < 2 ^ 63) →
      Outline.Takes false assets := fun hshort =>
    ⟨fun a ha => Nat.lt_trans (hshort a ha) (by decide), fun hstarred => absurd hstarred (by decide)⟩
  have hregular : dataOutline.IsRegular := by decide +kernel
  rw [data_bytes, data_bytes]
  constructor
  · intro h
    have hread := Outline.forall₂_of_bytes_eq (htakes hshort) (htakes hshort') hregular hregular
      (by decide) h
    exact (List.forall₂_same.1 hread _ List.mem_cons_self).2
  · exact Outline.bytes_congr dataOutline

/-- The bytes of an outline are no fewer than the patterns that it is filled with. -/
theorem weight_le_length_bytes {l : Outline} {e : String × List String} (he : e ∈ l)
    (hopen : e.2 = []) (assets : List String) : weight assets ≤ (l.bytes assets).length := by
  obtain ⟨before, after, rfl⟩ := List.append_of_mem he
  rw [Outline.bytes, List.flatMap_append, List.flatMap_cons, List.length_append, List.length_append,
    length_dimensionBytes, hopen, fill, if_pos rfl]
  omega

/-- The service tells data policies from the others. -/
theorem category_data_iff (h : policy.service = policy'.service) :
    policy.category = .data ↔ policy'.category = .data := by
  unfold PersonaPolicy.service at h
  by_cases hdata : policy.category = .data <;> by_cases hdata' : policy'.category = .data <;>
    simp [hdata, hdata'] at h ⊢

/-- Whether a mask is wanted is the kind of a data policy. -/
theorem kind_eq_iff : policy.kind = policy'.kind ↔ policy.isDataMask = policy'.isDataMask := by
  unfold PersonaPolicy.kind
  cases policy.isDataMask <;> cases policy'.isDataMask <;> simp

/-- Policies of families have the same canonical bytes when they are of one family and about the same
assets, and about the same types if the family prescribes none. -/
theorem family_bytes_eq_iff {f g : Family} (hf : f ∈ families policy.category)
    (hg : g ∈ families policy'.category) (hshort : ∀ a ∈ policy.assets, (utf8 a).length < 2 ^ 63)
    (hshort' : ∀ a ∈ policy'.assets, (utf8 a).length < 2 ^ 63) :
    Outline.bytes (f.outline (entityTypes persona)).toList (patterns policy) =
        Outline.bytes (g.outline (entityTypes persona')).toList (patterns policy') ↔
      f = g ∧ policy.assets.Perm policy'.assets ∧
        (policy.category = .metadata → Dimension.entityType ∈ f.dimensions →
          persona.isTypeUnrestricted = persona'.isTypeUnrestricted) := by
  have hmem := entityTypes_mem persona
  have hmem' := entityTypes_mem persona'
  constructor
  · intro h
    obtain ⟨hstem, houtline, hperm⟩ := families_read hf hg hmem hmem'
      (patterns_arePatterns (category_ne_data hf) hshort)
      (patterns_arePatterns (category_ne_data hg) hshort') h
    obtain rfl := families_eq_of_stem (families_sub hf) (families_sub hg) hstem
    refine ⟨rfl, (patterns_perm_iff (category_eq_of_mem_families hf hg)).1 hperm, ?_⟩
    intro hmetadata htype
    rw [hmetadata] at hf
    exact entityTypes_eq_iff.1 ((outline_eq_iff.1 f hf _ hmem _ hmem').1 houtline htype)
  · rintro ⟨rfl, hperm, htypes⟩
    have hcategory := category_eq_of_mem_families hf hg
    have houtline : f.outline (entityTypes persona) = f.outline (entityTypes persona') := by
      cases hc : policy.category with
      | metadata =>
        rw [hc] at hf
        exact (outline_eq_iff.1 f hf _ hmem _ hmem').2 fun htype =>
          entityTypes_eq_iff.2 (htypes hc htype)
      | glossary =>
        rw [hc] at hf
        exact outline_eq_iff.2 f hf _ hmem _ hmem'
      | data => exact absurd hc (category_ne_data hf)
    rw [houtline, Outline.bytes_congr _ ((patterns_perm_iff hcategory).2 hperm)]

/-- The target tells the template, the assets up to their order and, where it matters, the types that
the persona applies to. -/
theorem target_eq_iff (ht : t ∈ templates policy) (ht' : t' ∈ templates policy')
    (hq : t.provisional? persona policy actions = some q)
    (hq' : t'.provisional? persona' policy' actions' = some q')
    (hshort : ∀ a ∈ policy.assets, (utf8 a).length < 2 ^ 63)
    (hshort' : ∀ a ∈ policy'.assets, (utf8 a).length < 2 ^ 63) :
    q.target = q'.target ↔ t = t' ∧ policy.assets.Perm policy'.assets ∧
      (policy.category = .metadata → q.resources.contains Dimension.entityType = true →
        persona.isTypeUnrestricted = persona'.isTypeUnrestricted) := by
  obtain ⟨hservice, hkind⟩ := provisional?_service ht hq
  obtain ⟨hservice', hkind'⟩ := provisional?_service ht' hq'
  have htarget : q.target = q'.target ↔ policy.kind = policy'.kind ∧
      policy.service = policy'.service ∧
        canonicalBytes q.resources = canonicalBytes q'.resources := by
    simp only [Policy.target, Prod.mk.injEq, hservice, hkind, hservice', hkind']
  rw [htarget]
  cases t with
  | family f =>
    have hf := family_mem_templates.1 ht
    have hcategory := category_ne_data hf
    cases t' with
    | family g =>
      have hg := family_mem_templates.1 ht'
      have hdimension : q.resources.contains Dimension.entityType = true ↔
          Dimension.entityType ∈ f.dimensions := by
        rw [family_resources hf hq, NameMap.contains_ofList,
          (family_dimensions (families_sub hf)).1]
      obtain ⟨hresource, haccess⟩ := kind_of_ne_data hcategory
      obtain ⟨hresource', haccess'⟩ := kind_of_ne_data (category_ne_data hg)
      rw [hresource, hresource', haccess, haccess', family_bytes hf hq, family_bytes hg hq',
        family_bytes_eq_iff hf hg hshort hshort', hdimension, Template.family.injEq]
      simp only [true_and]
    | data masked =>
      -- The service is another one.
      obtain ⟨hdata, -⟩ := data_mem_templates.1 ht'
      refine iff_of_false (fun h => hcategory ((category_data_iff h.2.1).2 hdata)) ?_
      exact fun h => Template.noConfusion h.1
  | data masked =>
    obtain ⟨hdata, rfl⟩ := data_mem_templates.1 ht
    cases t' with
    | family g =>
      have hcategory := category_ne_data (family_mem_templates.1 ht')
      refine iff_of_false (fun h => hcategory ((category_data_iff h.2.1).1 hdata)) ?_
      exact fun h => Template.noConfusion h.1
    | data masked' =>
      obtain ⟨hdata', rfl⟩ := data_mem_templates.1 ht'
      obtain rfl := Option.some.inj hq
      obtain rfl := Option.some.inj hq'
      have hresource : policy.service = policy'.service := by
        rw [PersonaPolicy.service, PersonaPolicy.service, hdata, hdata']
      rw [kind_eq_iff, data_bytes_eq_iff hshort hshort', Template.data.injEq]
      simp [hresource, hdata]

/-- Templates of a persona policy differ. -/
theorem templates_pairwise (policy : PersonaPolicy) : (templates policy).Pairwise (· ≠ ·) := by
  have hfamilies : ∀ {l : List Family}, l.Sublist (metadataFamilies ++ glossaryFamilies) →
      (l.map Template.family).Pairwise (· ≠ ·) := by
    intro l hl
    have hnames : (l.map Family.stem).Nodup := families_stem.sublist (hl.map _)
    refine List.pairwise_map.2 ((List.pairwise_map.1 hnames).imp fun hne heq => hne ?_)
    rw [Template.family.inj heq]
  unfold templates
  cases policy.category with
  | metadata => exact hfamilies (List.sublist_append_left _ _)
  | glossary => exact hfamilies (List.sublist_append_right _ _)
  | data => exact List.pairwise_singleton _ _

/-- Within a persona policy no two provisional policies have the same target. -/
theorem provisionals_pairwise (hshort : ∀ a ∈ policy.assets, (utf8 a).length < 2 ^ 63) :
    (provisionals persona policy actions).Pairwise fun q q' => q.target ≠ q'.target := by
  rw [provisionals_eq_filterMap]
  refine List.pairwise_filterMap.2 ((templates_pairwise policy).imp_of_mem ?_)
  intro t t' ht ht' hne q hq q' hq' htarget
  exact hne ((target_eq_iff ht ht' hq hq' hshort hshort).1 htarget).1

/-- Completing names leaves targets as they are. -/
theorem complete_pairwise {ps : List Policy}
    (h : ps.Pairwise fun p p' => p.target ≠ p'.target) (draw : Nat) :
    (complete draw ps).Pairwise fun q q' => q.target ≠ q'.target := by
  induction ps generalizing draw with
  | nil => exact .nil
  | cons p ps ih =>
    obtain ⟨hp, hps⟩ := List.pairwise_cons.1 h
    refine List.pairwise_cons.2 ⟨fun q hq => ?_, ih hps (draw + 1)⟩
    obtain ⟨p', hp', name, rfl⟩ := mem_complete hq
    exact hp p' hp'

/-- No asset is longer than the resources of a provisional policy. -/
theorem short_of_mem_provisionals (hq : q ∈ provisionals persona policy actions)
    (hshort : (canonicalBytes q.resources).length < 2 ^ 60) :
    ∀ a ∈ policy.assets, (utf8 a).length < 2 ^ 63 := by
  rw [provisionals_eq_filterMap] at hq
  obtain ⟨t, ht, hq⟩ := List.mem_filterMap.1 hq
  have hweight : weight (patterns policy) ≤ (canonicalBytes q.resources).length := by
    cases t with
    | family f =>
      have hf := family_mem_templates.1 ht
      have hmem := entityTypes_mem persona
      obtain ⟨-, e, he, hopen⟩ := outline_isRegular f (families_sub hf) _ hmem
      rw [family_bytes hf hq]
      exact weight_le_length_bytes he hopen _
    | data masked =>
      obtain ⟨hdata, -⟩ := data_mem_templates.1 ht
      obtain rfl := Option.some.inj hq
      rw [data_bytes, patterns, hdata]
      exact weight_le_length_bytes List.mem_cons_self rfl _
  intro a ha
  obtain ⟨p, hp, hlength⟩ := exists_pattern ha
  have hle := Outline.length_le_weight hp
  omega

end Synthesis

namespace PersonaService

/-- Persona policies of a persona whose provisional policies have a target in common duplicate each
other, up to their identifiers and names. -/
theorem duplicates_of_target_eq {persona : Persona} {policy sibling : PersonaPolicy}
    {draw draw' : Nat} {q q' : Policy} (hq : q ∈ synthesize draw persona policy)
    (hq' : q' ∈ synthesize draw' persona sibling)
    (hshort : (ResourceMap.canonicalBytes q.resources).length < 2 ^ 60)
    (h : q.target = q'.target) (hguid : sibling.guid ≠ policy.guid)
    (hactive : sibling.isActive = true) : duplicates policy sibling = true := by
  obtain ⟨p, hp, name, rfl⟩ := Synthesis.mem_complete hq
  obtain ⟨p', hp', name', rfl⟩ := Synthesis.mem_complete hq'
  have hassets := Synthesis.short_of_mem_provisionals hp hshort
  have hassets' := Synthesis.short_of_mem_provisionals hp'
    (Policy.canonicalBytes_eq_of_target h ▸ hshort)
  rw [Synthesis.provisionals_eq_filterMap] at hp hp'
  obtain ⟨t, ht, hp⟩ := List.mem_filterMap.1 hp
  obtain ⟨t', ht', hp'⟩ := List.mem_filterMap.1 hp'
  have htarget : p.target = p'.target := h
  obtain ⟨rfl, hperm, -⟩ := (Synthesis.target_eq_iff ht ht' hp hp' hassets hassets').1 htarget
  have hcategory := Synthesis.category_eq_of_mem_templates ht ht'
  have hsame : sibling.sameAssets policy = true := by
    have hset : NameSet.ofList sibling.assets = NameSet.ofList policy.assets :=
      NameSet.ext_mem fun a => by simp only [NameSet.mem_ofList, hperm.mem_iff]
    rw [PersonaPolicy.sameAssets, hset, beq_self_eq_true]
  have hmask : sibling.isDataMask = policy.isDataMask := by
    refine Synthesis.kind_eq_iff.1 ?_
    rw [← (Synthesis.provisional?_service ht hp).2, ← (Synthesis.provisional?_service ht' hp').2]
    exact (Prod.mk.inj h).1.symm
  simp [duplicates, hguid, hactive, hcategory, hsame, hmask]

/-- The provisional policies of a persona policy have different targets. -/
theorem synthesize_pairwise {draw : Nat} {persona : Persona} {policy : PersonaPolicy}
    (hshort : ∀ q ∈ synthesize draw persona policy,
      (ResourceMap.canonicalBytes q.resources).length < 2 ^ 60) :
    (synthesize draw persona policy).Pairwise fun q q' => q.target ≠ q'.target := by
  refine Synthesis.complete_pairwise ?_ draw
  rcases List.eq_nil_or_concat' (Synthesis.provisionals persona policy policy.actions) with
    hnone | ⟨front, p, hsome⟩
  · rw [hnone]
    exact .nil
  · have hmem : p ∈ Synthesis.provisionals persona policy policy.actions := by
      rw [hsome]
      exact List.mem_append_right _ (List.mem_singleton_self p)
    obtain ⟨name, hnamed⟩ := Synthesis.exists_mem_complete hmem draw
    have hlength := hshort _ hnamed
    exact Synthesis.provisionals_pairwise (Synthesis.short_of_mem_provisionals hmem hlength)

end PersonaService

/-! ### What is synthesized -/

namespace Synthesis

/-- A provisional policy of a persona policy is made from the template, and its name is completed. -/
def Template.Yields (t : Template) (persona : Persona) (policy : PersonaPolicy) (q : Policy) : Prop :=
  t ∈ templates policy ∧
    ∃ p, t.provisional? persona policy policy.actions = some p ∧ ∃ name, q = { p with name }

variable {draw draw' : Nat} {persona persona' : Persona} {policy policy' : PersonaPolicy}
  {t t' : Template} {q q' : Policy}

/-- All that is synthesized for some actions is made from templates of the persona policy. -/
theorem exists_template {actions : NameSet} (hq : q ∈ synthesizeActions draw persona policy actions) :
    ∃ t ∈ templates policy,
      ∃ p, t.provisional? persona policy actions = some p ∧ ∃ name, q = { p with name } := by
  obtain ⟨p, hp, name, rfl⟩ := mem_complete hq
  rw [provisionals_eq_filterMap] at hp
  obtain ⟨t, ht, hp⟩ := List.mem_filterMap.1 hp
  exact ⟨t, ht, p, hp, name, rfl⟩

/-- All that is synthesized is made from templates. -/
theorem exists_yields (hq : q ∈ synthesize draw persona policy) :
    ∃ t : Template, t.Yields persona policy q :=
  exists_template hq

/-- The names do not matter to targets. -/
theorem Template.Yields.target_eq_iff (h : t.Yields persona policy q) (h' : t'.Yields persona' policy' q')
    (hshort : ∀ a ∈ policy.assets, (utf8 a).length < 2 ^ 63)
    (hshort' : ∀ a ∈ policy'.assets, (utf8 a).length < 2 ^ 63) :
    q.target = q'.target ↔ t = t' ∧ policy.assets.Perm policy'.assets ∧
      (policy.category = .metadata → q.resources.contains Dimension.entityType = true →
        persona.isTypeUnrestricted = persona'.isTypeUnrestricted) := by
  obtain ⟨ht, p, hp, name, rfl⟩ := h
  obtain ⟨ht', p', hp', name', rfl⟩ := h'
  have hnamed := Synthesis.target_eq_iff ht ht' hp hp' hshort hshort'
  exact hnamed

/-- Two provisional policies have the same target exactly when they are made from the same template, for
the same assets in some order and, where a metadata policy is about entities by type, for personas that
apply to the same types. Each is made from one template, and those of one persona policy all have
different targets. Assets are texts that fit into memory, so that the lengths of their patterns can be
written in eight bytes. -/
theorem synthesize_sameTarget_iff (hshort : ∀ a ∈ policy.assets, (utf8 a).length < 2 ^ 63)
    (hshort' : ∀ a ∈ policy'.assets, (utf8 a).length < 2 ^ 63) :
    (∀ q ∈ synthesize draw persona policy, ∃! t : Template, t.Yields persona policy q) ∧
    (∀ q ∈ synthesize draw persona policy, ∀ q' ∈ synthesize draw' persona' policy',
      ∀ t t' : Template, t.Yields persona policy q → t'.Yields persona' policy' q' →
        (q.sameTarget q' = true ↔ t = t' ∧ policy.assets.Perm policy'.assets ∧
          (policy.category = .metadata → q.resources.contains Dimension.entityType = true →
            persona.isTypeUnrestricted = persona'.isTypeUnrestricted))) ∧
    (synthesize draw persona policy).Pairwise fun q q' => q.sameTarget q' = false := by
  refine ⟨fun q hq => ?_, fun q _ q' _ t t' h h' => ?_, ?_⟩
  · obtain ⟨t, ht⟩ := exists_yields hq
    exact ⟨t, ht, fun t' ht' => ((ht'.target_eq_iff ht hshort hshort).1 rfl).1⟩
  · exact Policy.sameTarget_iff.trans (h.target_eq_iff h' hshort hshort')
  · refine (complete_pairwise (provisionals_pairwise hshort) draw).imp fun hne => ?_
    rw [← Bool.not_eq_true, Policy.sameTarget_iff]
    exact hne

/-- A persona policy on reading some assets. -/
def reading (assets : List String) : PersonaPolicy where
  guid := "reading"
  personaGuid := "analysts"
  name := "reading"
  category := .metadata
  actions := NameSet.ofList [Action.entityRead]
  assets := assets

/-- Policies on the same assets in another order have the same target, unless one of the personas is for a
collection. -/
theorem synthesize_sameTarget_iff_permuted :
    ∃ q ∈ synthesize 0 { name := "analysts" } (reading ["db", "lake"]),
    ∃ q' ∈ synthesize 1 { name := "stewards" } (reading ["lake", "db"]),
    ∃ q'' ∈ synthesize 2 { name := "collection" } (reading ["db", "lake"]),
      q.sameTarget q' = true ∧ q.sameTarget q'' = false := by
  -- The first family of metadata policies is the one for reading.
  let t : Template := .family (metadataFamilies.head (by decide))
  have hyields : ∀ (draw : Nat) (persona : Persona) (assets : List String),
      ∃ q ∈ synthesize draw persona (reading assets), t.Yields persona (reading assets) q ∧
        q.resources.contains Dimension.entityType = true := by
    intro draw persona assets
    have htrigger : Action.entityRead ∈ (metadataFamilies.head (by decide)).triggers := by decide
    have hasked : Action.entityRead ∈ (reading assets).actions := by
      rw [reading, NameSet.mem_ofList]
      exact List.mem_singleton_self _
    obtain ⟨⟨p, hp⟩, -⟩ := exists_provisional? htrigger hasked persona (reading assets)
      (scope persona (reading assets))
    have hmem : p ∈ provisionals persona (reading assets) (reading assets).actions := by
      rw [provisionals_eq_filterMap]
      exact List.mem_filterMap.2 ⟨t, List.mem_cons_self, hp⟩
    obtain ⟨name, hq⟩ := exists_mem_complete hmem draw
    refine ⟨{ p with name }, hq, ⟨List.mem_cons_self, p, hp, name, rfl⟩, ?_⟩
    show p.resources.contains Dimension.entityType = true
    rw [provisional?_resources hp, NameMap.contains_ofList]
    exact List.mem_cons_self
  obtain ⟨q, hq, hyield, htype⟩ := hyields 0 { name := "analysts" } ["db", "lake"]
  obtain ⟨q', hq', hyield', -⟩ := hyields 1 { name := "stewards" } ["lake", "db"]
  obtain ⟨q'', hq'', hyield'', -⟩ := hyields 2 { name := "collection" } ["db", "lake"]
  have hshort : ∀ a ∈ ["db", "lake"], (utf8 a).length < 2 ^ 63 := by decide +kernel
  have hshort' : ∀ a ∈ ["lake", "db"], (utf8 a).length < 2 ^ 63 := by decide +kernel
  have hsame := (synthesize_sameTarget_iff hshort hshort').2.1 q hq q' hq' t t hyield hyield'
  have hother := (synthesize_sameTarget_iff hshort hshort).2.1 q hq q'' hq'' t t hyield hyield''
  refine ⟨q, hq, q', hq', q'', hq'', hsame.2 ⟨rfl, .swap _ _ _, fun _ _ => by decide⟩, ?_⟩
  rw [← Bool.not_eq_true, hother]
  exact fun h => absurd (h.2.2 rfl htype) (by decide)

end Synthesis

end CatalogAccess
