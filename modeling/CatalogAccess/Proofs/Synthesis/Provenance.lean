import CatalogAccess.Proofs.Synthesis.Union

/-!
# Where grants come from

What is synthesized is made from templates, and each access of it was asked for by its name or is one
that the template fixes: an access to relationships, or to data (`Template.mem_granted`). Families are
only used when one of their actions is among those requested. Data policies form the exception: these
are synthesized whatever the actions are, also when `select` is not among them
(`synthesizeActions_grounded`).
-/

namespace CatalogAccess

namespace Synthesis

/-! ### Templates -/

/-- The actions that ask for a template. -/
def Template.triggers : Template → List String
  | .family f => f.triggers
  | .data _ => [Action.select]

/-- The accesses that a template may grant without their having been asked for by name. -/
def Template.fixed : Template → List String
  | .family f => if f.category = .relationship then Action.relationshipActions else []
  | .data _ => [Action.select]

section Templates

variable {f : Family} {policy : PersonaPolicy} {actions : NameSet} {t : Template} {x : String}

/-- Families of entities grant what they are asked for, families of relationships grant accesses to
relationships. -/
theorem mem_of_mem_accesses (hf : f ∈ metadataFamilies ++ glossaryFamilies) {asked : List String}
    (h : x ∈ f.accesses asked) :
    if f.category = .relationship then x ∈ Action.relationshipActions else x ∈ asked := by
  have hterms : x ∈ asked.map termAccess → x ∈ Action.relationshipActions := by
    intro hx
    obtain ⟨a, -, rfl⟩ := List.mem_map.1 hx
    unfold termAccess
    split <;> decide
  have hlinks : [Action.addRelationship, Action.removeRelationship] ⊆ Action.relationshipActions := by
    decide
  simp only [metadataFamilies, glossaryFamilies, List.cons_append, List.nil_append,
    List.mem_cons, List.not_mem_nil, or_false] at hf
  rcases hf with rfl | rfl | rfl | rfl | rfl | rfl | rfl | rfl | rfl | rfl | rfl | rfl
  exacts [h, h, h, hterms h, hlinks h, h, h, h, h, h, h, h]

/-- What a template grants was asked for, or is fixed by the template. -/
theorem Template.mem_granted (ht : t ∈ templates policy) (h : x ∈ t.granted actions) :
    (x ∈ t.triggers ∧ x ∈ actions) ∨ x ∈ t.fixed := by
  cases t with
  | data masked => exact .inr h
  | family f =>
    have hgranted := mem_of_mem_accesses (families_sub (family_mem_templates.1 ht)) h
    rw [Template.fixed]
    split at hgranted
    · next hcategory => exact .inr ((if_pos hcategory).symm ▸ hgranted)
    · exact .inl (mem_asked_iff.1 hgranted)

/-- Data policies ask for their template themselves, and else one of the actions has to. -/
theorem Template.isAskedFor_iff (ht : t ∈ templates policy) :
    t.IsAskedFor actions ↔ policy.category = .data ∨ ∃ a ∈ t.triggers, a ∈ actions := by
  cases t with
  | data masked => exact iff_of_true trivial (.inl (data_mem_templates.1 ht).1)
  | family f => exact (or_iff_right (category_ne_data (family_mem_templates.1 ht))).symm

/-- A template of data policies is asked for whatever the actions are. -/
theorem exists_isAskedFor_of_data (h : policy.category = .data) (actions : NameSet) :
    ∃ t ∈ templates policy, t.IsAskedFor actions :=
  ⟨.data policy.isDataMask, data_mem_templates.2 ⟨h, rfl⟩, trivial⟩

/-- Of the actions that ask for a template in use one is among those requested, unless it is the one of
data policies and `select` is not among them. -/
theorem Template.Makes.isRequested_iff {persona : Persona} {q : Policy}
    (h : t.Makes persona policy actions q) :
    (∃ a ∈ t.triggers, a ∈ actions) ↔ policy.category ≠ .data ∨ Action.select ∈ actions := by
  cases t with
  | family f => exact iff_of_true h.2.1 (.inl (category_ne_data (family_mem_templates.1 h.1)))
  | data masked =>
    have hdata := (data_mem_templates.1 h.1).1
    rw [or_iff_right (not_not.2 hdata)]
    simp only [Template.triggers, List.mem_singleton, exists_eq_left]

end Templates

/-! ### Policies -/

variable (draw : Nat) (persona : Persona) (policy : PersonaPolicy) (actions : NameSet)

/-- Nothing is synthesized when no template is asked for. -/
theorem synthesizeActions_eq_nil_iff :
    synthesizeActions draw persona policy actions = [] ↔
      ∀ t ∈ templates policy, ¬ t.IsAskedFor actions := by
  constructor
  · intro hnil t ht hasked
    obtain ⟨q, hq, -⟩ := exists_mem_makes ht hasked draw persona
    rw [hnil] at hq
    exact absurd hq List.not_mem_nil
  · intro hnone
    refine List.eq_nil_iff_forall_not_mem.2 fun q hq => ?_
    obtain ⟨t, ht, hasked, -⟩ := exists_makes hq
    exact hnone t ht hasked

/-- Each policy that is synthesized is made from a template, and grants what was asked for or what the
template fixes. All of them come from templates with an action among those requested, except for data
policies when `select` is not among them. So nothing is synthesized just when the category is another
and has no template with an action among them. -/
theorem synthesizeActions_grounded :
    (∀ q ∈ synthesizeActions draw persona policy actions, ∃ t : Template,
      t.Makes persona policy actions q ∧
      ∃ accesses, policy.Issues persona accesses q ∧
        ∀ x ∈ accesses, (x ∈ t.triggers ∧ x ∈ actions) ∨ x ∈ t.fixed) ∧
    ((∀ q ∈ synthesizeActions draw persona policy actions, ∃ t : Template,
      t.Makes persona policy actions q ∧ ∃ a ∈ t.triggers, a ∈ actions) ↔
        policy.category ≠ .data ∨ Action.select ∈ actions) ∧
    (synthesizeActions draw persona policy actions = [] ↔
      policy.category ≠ .data ∧ ∀ t ∈ templates policy, ∀ a ∈ t.triggers, a ∉ actions) := by
  refine ⟨fun q hq => ?_, ⟨fun h => ?_, fun h q hq => ?_⟩, ?_⟩
  · obtain ⟨t, ht⟩ := exists_makes hq
    exact ⟨t, ht, _, ht.issues, fun x hx => Template.mem_granted ht.1 (NameSet.mem_ofList.1 hx)⟩
  · by_cases hdata : policy.category = .data
    · -- There is a policy to tell from.
      obtain ⟨t, ht, hasked⟩ := exists_isAskedFor_of_data hdata actions
      obtain ⟨q, hq, -⟩ := exists_mem_makes ht hasked draw persona
      obtain ⟨t', hmakes, hrequested⟩ := h q hq
      exact hmakes.isRequested_iff.1 hrequested
    · exact .inl hdata
  · obtain ⟨t, ht⟩ := exists_makes hq
    exact ⟨t, ht, ht.isRequested_iff.2 h⟩
  · rw [synthesizeActions_eq_nil_iff]
    constructor
    · intro hnone
      refine ⟨fun hdata => ?_, fun t ht a ha hasked => ?_⟩
      · obtain ⟨t, ht, hasked⟩ := exists_isAskedFor_of_data hdata actions
        exact hnone t ht hasked
      · exact hnone t ht ((Template.isAskedFor_iff ht).2 (.inr ⟨a, ha, hasked⟩))
    · rintro ⟨hcategory, hnone⟩ t ht hasked
      obtain ⟨a, ha, hasked⟩ := ((Template.isAskedFor_iff ht).1 hasked).resolve_left hcategory
      exact hnone t ht a ha hasked

/-- A data policy with reading alone among its actions is enforced by a policy that grants `select`. -/
theorem data_granted_unasked :
    let policy : PersonaPolicy :=
      { guid := "orders", personaGuid := "analysts", name := "orders", category := .data
        actions := NameSet.ofList [Action.entityRead], assets := ["db/orders"]
        connectionId := some "db" }
    Action.select ∉ policy.actions ∧
      ∃ q ∈ synthesize 0 { guid := "analysts", name := "analysts" } policy,
        ∃ item ∈ q.allowItems, Action.select ∈ item.accesses := by
  decide +kernel

end Synthesis

end CatalogAccess
