import CatalogAccess.Proofs.Reconcile.Grantees
import CatalogAccess.Proofs.Targets

/-!
# Synthesis for actions taken together

An update looks up the policies of the actions that were removed, which were synthesized together with
those that stay. So it matters that synthesis treats actions one by one. A template is asked for by any
of its actions, and what its policy grants is the union of what these ask for (`mem_granted_union`). The
rest of the policy depends on the template only. So for two sets of actions together the same targets
are synthesized as for the one and the other, with the accesses of both
(`synthesizeActions_union`).
-/

namespace CatalogAccess

open Policy (Place Entry)

/-- The list that the provisional policies of a persona policy have their items in. -/
def PersonaPolicy.place (policy : PersonaPolicy) : Place :=
  if policy.isDataMask then .masks else .items policy.effect

/-- The policy has one item. It is in the list for the persona policy, names the role of the persona and
has the given accesses. -/
def PersonaPolicy.Issues (policy : PersonaPolicy) (persona : Persona) (accesses : NameSet) (q : Policy) :
    Prop :=
  ∀ place, q.entries place = if place = policy.place then
    [⟨.forRole accesses persona.roleName, if policy.isDataMask then policy.maskType else none⟩] else []

namespace Synthesis

open ResourceMap

/-! ### Families -/

section Families

variable {f g : Family} {actions : NameSet} {x : String}

/-- A family grants what it grants for each of the actions. -/
theorem mem_accesses_iff (hf : f ∈ metadataFamilies ++ glossaryFamilies) {asked : List String}
    (hasked : asked ≠ []) : x ∈ f.accesses asked ↔ ∃ a ∈ asked, x ∈ f.accesses [a] := by
  -- A family grants the actions themselves, or others in their place, or always the same.
  have hown : x ∈ asked ↔ ∃ a ∈ asked, x ∈ [a] := by
    simp only [List.mem_singleton, exists_eq_right']
  have hterms : x ∈ asked.map termAccess ↔ ∃ a ∈ asked, x ∈ [a].map termAccess := by
    simp only [List.mem_map, List.map_singleton, List.mem_singleton, eq_comm]
  have hsame : ∀ accesses : List String, x ∈ accesses ↔ ∃ a ∈ asked, x ∈ accesses := by
    intro accesses
    obtain ⟨a, ha⟩ := List.exists_mem_of_ne_nil asked hasked
    constructor
    · intro hx
      exact ⟨a, ha, hx⟩
    · rintro ⟨-, -, hx⟩
      exact hx
  simp only [metadataFamilies, glossaryFamilies, List.cons_append, List.nil_append,
    List.mem_cons, List.not_mem_nil, or_false] at hf
  rcases hf with rfl | rfl | rfl | rfl | rfl | rfl | rfl | rfl | rfl | rfl | rfl | rfl
  exacts [hown, hown, hown, hterms, hsame _, hsame _, hown, hown, hown, hown, hsame _, hsame _]

theorem mem_asked_iff {a : String} :
    a ∈ f.triggers.filter actions.contains ↔ a ∈ f.triggers ∧ a ∈ actions := by
  rw [List.mem_filter, NameSet.contains_iff]

/-- What a family grants is asked for by one of the actions. -/
theorem mem_granted_iff (hf : f ∈ metadataFamilies ++ glossaryFamilies) :
    ((∃ a ∈ f.triggers, a ∈ actions) ∧ x ∈ f.granted actions) ↔
      ∃ a ∈ f.triggers, a ∈ actions ∧ x ∈ f.accesses [a] := by
  have hgranted : ∀ a ∈ f.triggers, a ∈ actions →
      (x ∈ f.granted actions ↔ ∃ b ∈ f.triggers, b ∈ actions ∧ x ∈ f.accesses [b]) := by
    intro a htrigger ha
    have hmem : a ∈ f.triggers.filter actions.contains := mem_asked_iff.2 ⟨htrigger, ha⟩
    simp only [Family.granted, mem_accesses_iff hf (List.ne_nil_of_mem hmem), mem_asked_iff, and_assoc]
  constructor
  · rintro ⟨⟨a, htrigger, ha⟩, hx⟩
    exact (hgranted a htrigger ha).1 hx
  · rintro ⟨a, htrigger, ha, hx⟩
    exact ⟨⟨a, htrigger, ha⟩, (hgranted a htrigger ha).2 ⟨a, htrigger, ha, hx⟩⟩

/-- Families of one category with the same marks grant the same. -/
theorem families_granted_eq {c : PersonaPolicy.Category} (hf : f ∈ families c) (hg : g ∈ families c)
    {s : Scope} (h : marks (NameMap.ofList (f.resources s)) = marks (NameMap.ofList (g.resources s)))
    (actions : NameSet) : f.granted actions = g.granted actions := by
  cases c with
  | metadata => exact metadata_granted_eq hf hg h actions
  | glossary => exact glossary_granted_eq hf hg h actions
  | data => exact absurd hf List.not_mem_nil

end Families

/-! ### Templates -/

/-- One of the actions of the template is among those requested. -/
def Template.IsAskedFor (actions : NameSet) : Template → Prop
  | .family f => ∃ a ∈ f.triggers, a ∈ actions
  | .data _ => True

/-- The accesses that the policy of a template grants for the actions requested. -/
def Template.granted (actions : NameSet) : Template → List String
  | .family f => f.granted actions
  | .data _ => [Action.select]

section Templates

variable {persona : Persona} {policy : PersonaPolicy} {actions A B : NameSet} {t : Template}
  {q : Policy} {x : String}

/-- There is a policy of a template exactly if it is asked for. -/
theorem exists_provisional?_iff :
    (∃ q, t.provisional? persona policy actions = some q) ↔ t.IsAskedFor actions := by
  cases t with
  | data masked => exact iff_of_true ⟨_, rfl⟩ trivial
  | family f =>
    constructor
    · rintro ⟨q, hq⟩
      by_contra hnone
      have hempty : f.triggers.filter actions.contains = [] :=
        List.eq_nil_iff_forall_not_mem.2 fun a ha => hnone ⟨a, mem_asked_iff.1 ha⟩
      simp [Template.provisional?, Family.provisional?, hempty] at hq
    · rintro ⟨a, htrigger, hasked⟩
      exact (exists_provisional? htrigger hasked persona policy (scope persona policy)).1

/-- A template is asked for by two sets of actions together if it is by one of them. -/
theorem Template.isAskedFor_union :
    t.IsAskedFor (A ∪ B) ↔ ∃ actions ∈ [A, B], t.IsAskedFor actions := by
  rw [List.exists_mem_cons_iff]
  simp only [List.mem_singleton, exists_eq_left]
  cases t with
  | data masked => exact (or_self_iff ..).symm
  | family f => simp only [Template.IsAskedFor, NameSet.mem_union, and_or_left, exists_or]

/-- For two sets of actions together a template grants what it does for each of those that ask for it. -/
theorem Template.mem_granted_union (ht : t ∈ templates policy) :
    (t.IsAskedFor (A ∪ B) ∧ x ∈ t.granted (A ∪ B)) ↔
      ∃ actions ∈ [A, B], t.IsAskedFor actions ∧ x ∈ t.granted actions := by
  rw [List.exists_mem_cons_iff]
  simp only [List.mem_singleton, exists_eq_left]
  cases t with
  | data masked => exact (or_self_iff ..).symm
  | family f =>
    have hgranted : ∀ {actions}, ((Template.family f).IsAskedFor actions ∧
        x ∈ (Template.family f).granted actions) ↔
        ∃ a ∈ f.triggers, a ∈ actions ∧ x ∈ f.accesses [a] :=
      mem_granted_iff (families_sub (family_mem_templates.1 ht))
    simp only [hgranted, NameSet.mem_union, or_and_right, and_or_left, exists_or]

/-- A policy that was without items has just the item that is put in for the persona policy. -/
theorem issues_withItem {p : Policy} (hmask : policy.isDataMask = false)
    (hnone : ∀ place, p.entries place = []) (accesses : List String) :
    policy.Issues persona (NameSet.ofList accesses)
      (p.withItem policy.effect (roleItem persona accesses)) := by
  intro place
  rw [PersonaPolicy.place, hmask, if_neg Bool.false_ne_true, if_neg Bool.false_ne_true]
  have hitems : p.items policy.effect = [] := List.map_eq_nil_iff.1 (hnone (.items policy.effect))
  split
  · next hplace => rw [hplace, Policy.withItem, Policy.entries_withItems_self, hitems]; rfl
  · next hplace => rw [Policy.withItem, Policy.entries_withItems_of_ne _ _ hplace, hnone]

/-- The provisional policy of a template grants what the template does. -/
theorem Template.issues_provisional? (ht : t ∈ templates policy)
    (h : t.provisional? persona policy actions = some q) :
    policy.Issues persona (NameSet.ofList (t.granted actions)) q := by
  have hnone : ∀ {p : Policy}, p.allowItems = [] → p.denyItems = [] → p.maskItems = [] →
      ∀ place, p.entries place = [] := by
    rintro p hallow hdeny hmask ((_ | _) | _)
    exacts [List.map_eq_nil_iff.2 hallow, List.map_eq_nil_iff.2 hdeny, List.map_eq_nil_iff.2 hmask]
  cases t with
  | family f =>
    have hmask : policy.isDataMask = false := by
      have hcategory := category_ne_data (family_mem_templates.1 ht)
      rw [PersonaPolicy.isDataMask, beq_eq_false_iff_ne.2 hcategory, Bool.false_and]
    rw [provisional?_eq h]
    exact issues_withItem hmask (hnone rfl rfl rfl) _
  | data masked =>
    obtain ⟨hdata, -⟩ := data_mem_templates.1 ht
    obtain rfl := Option.some.inj h
    have hmask : policy.isDataMask = policy.maskType.any fun m => !m.isEmpty := by
      rw [PersonaPolicy.isDataMask, hdata, beq_self_eq_true, Bool.true_and]
    unfold dataProvisional
    dsimp only
    split
    · next hfilter =>
      refine issues_withItem ?_ (hnone rfl rfl rfl) _
      rw [hmask, ← Option.isSome_filter, hfilter, Option.isSome_none]
    · next maskType hfilter =>
      obtain ⟨hsome, hmasked⟩ := Option.filter_eq_some_iff.1 hfilter
      rw [hsome, Option.any_some, hmasked] at hmask
      have hplace : policy.place = .masks := if_pos hmask
      rintro (effect | _)
      · rw [hplace, if_neg Place.noConfusion]
        cases effect <;> rfl
      · rw [hplace, if_pos rfl, if_pos hmask, hsome]
        rfl

end Templates

/-! ### What is made from templates -/

/-- A provisional policy for some actions is made from the template, and its name is completed. -/
def Template.Makes (t : Template) (persona : Persona) (policy : PersonaPolicy) (actions : NameSet)
    (q : Policy) : Prop :=
  t ∈ templates policy ∧ t.IsAskedFor actions ∧
    ∃ p, t.provisional? persona policy actions = some p ∧ ∃ name, q = { p with name }

section Made

variable {draw : Nat} {persona : Persona} {policy : PersonaPolicy} {actions A B : NameSet}
  {t t' : Template} {q q' : Policy}

/-- All that is synthesized for some actions is made from templates. -/
theorem exists_makes (hq : q ∈ synthesizeActions draw persona policy actions) :
    ∃ t : Template, t.Makes persona policy actions q := by
  obtain ⟨t, ht, p, hp, hname⟩ := exists_template hq
  exact ⟨t, ht, exists_provisional?_iff.1 ⟨p, hp⟩, p, hp, hname⟩

/-- One of the policies is made from a template that is asked for. -/
theorem exists_mem_makes (ht : t ∈ templates policy) (hasked : t.IsAskedFor actions) (draw : Nat)
    (persona : Persona) :
    ∃ q ∈ synthesizeActions draw persona policy actions, t.Makes persona policy actions q := by
  obtain ⟨p, hp⟩ := exists_provisional?_iff.2 hasked
  have hmem : p ∈ provisionals persona policy actions := by
    rw [provisionals_eq_filterMap]
    exact List.mem_filterMap.2 ⟨t, ht, hp⟩
  obtain ⟨name, hq⟩ := exists_mem_complete hmem draw
  exact ⟨_, hq, ht, hasked, p, hp, name, rfl⟩

/-- What is made from a template grants what the template does. -/
theorem Template.Makes.issues (h : t.Makes persona policy actions q) :
    policy.Issues persona (NameSet.ofList (t.granted actions)) q := by
  obtain ⟨ht, -, p, hp, name, rfl⟩ := h
  have hissues := Template.issues_provisional? ht hp
  exact hissues

/-- What is made from one template for different actions has the same frame. -/
theorem Template.Makes.frame_eq (h : t.Makes persona policy A q) (h' : t.Makes persona policy B q') :
    q.frame = q'.frame := by
  obtain ⟨-, -, p, hp, name, rfl⟩ := h
  obtain ⟨-, -, p', hp', name', rfl⟩ := h'
  cases t with
  | family f =>
    rw [provisional?_eq hp, provisional?_eq hp']
    cases policy.effect <;> rfl
  | data masked =>
    obtain rfl := Option.some.inj hp
    obtain rfl := Option.some.inj hp'
    rfl

/-- Templates of policies with the same target grant the same. -/
theorem Template.Makes.granted_eq (h : t.Makes persona policy A q) (h' : t'.Makes persona policy B q')
    (htarget : q.target = q'.target) (actions : NameSet) : t.granted actions = t'.granted actions := by
  obtain ⟨ht, -, p, hp, name, rfl⟩ := h
  obtain ⟨ht', -, p', hp', name', rfl⟩ := h'
  have hbytes : canonicalBytes p.resources = canonicalBytes p'.resources :=
    Policy.canonicalBytes_eq_of_target htarget
  cases t with
  | family f =>
    have hf := family_mem_templates.1 ht
    cases t' with
    | family g =>
      refine families_granted_eq hf (family_mem_templates.1 ht') (s := scope persona policy) ?_ actions
      rw [marks, marks, ← provisional?_resources hp, ← provisional?_resources hp', hbytes]
    | data masked => exact absurd (data_mem_templates.1 ht').1 (category_ne_data hf)
  | data masked =>
    cases t' with
    | family g =>
      exact absurd (data_mem_templates.1 ht).1 (category_ne_data (family_mem_templates.1 ht'))
    | data masked' => rfl

/-- All that is synthesized for one of two sets of actions is made from templates. -/
theorem exists_makes_append {drawA drawB : Nat}
    (hq : q ∈ synthesizeActions drawA persona policy A ++ synthesizeActions drawB persona policy B) :
    ∃ actions ∈ [A, B], ∃ t : Template, t.Makes persona policy actions q := by
  rcases List.mem_append.1 hq with hq | hq
  · exact ⟨A, List.mem_cons_self, exists_makes hq⟩
  · exact ⟨B, List.mem_cons_of_mem A List.mem_cons_self, exists_makes hq⟩

/-- One of the policies is made from a template that one of two sets of actions asks for. -/
theorem exists_mem_append_makes (drawA drawB : Nat) (persona : Persona) (ht : t ∈ templates policy)
    (hactions : actions ∈ [A, B]) (hasked : t.IsAskedFor actions) :
    ∃ q ∈ synthesizeActions drawA persona policy A ++ synthesizeActions drawB persona policy B,
      t.Makes persona policy actions q := by
  rcases List.mem_pair.1 hactions with rfl | rfl
  · obtain ⟨q, hq, hmakes⟩ := exists_mem_makes ht hasked drawA persona
    exact ⟨q, List.mem_append_left _ hq, hmakes⟩
  · obtain ⟨q, hq, hmakes⟩ := exists_mem_makes ht hasked drawB persona
    exact ⟨q, List.mem_append_right _ hq, hmakes⟩

end Made

end Synthesis

/-! ### Actions taken together -/

/-- There is one answer to what a provisional policy grants. -/
theorem PersonaPolicy.Issues.unique {policy : PersonaPolicy} {persona : Persona}
    {accesses accesses' : NameSet} {q : Policy} (h : policy.Issues persona accesses q)
    (h' : policy.Issues persona accesses' q) : accesses = accesses' := by
  have hsame := (h policy.place).symm.trans (h' policy.place)
  rw [if_pos rfl, if_pos rfl] at hsame
  exact congrArg (fun e : Entry => e.item.accesses) (List.singleton_inj.1 hsame)

/-- For two sets of actions together the same is synthesized as for the one and the other: policies on the
same targets, each with one item in the same list of the policy, and for each target with the accesses
that are granted there for the one set or the other. -/
theorem synthesizeActions_union (draw drawA drawB : Nat) (persona : Persona) (policy : PersonaPolicy)
    (A B : NameSet) :
    let whole := synthesizeActions draw persona policy (A ∪ B)
    let parts := synthesizeActions drawA persona policy A ++ synthesizeActions drawB persona policy B
    (∀ frame, (∃ q ∈ whole, q.frame = frame) ↔ ∃ p ∈ parts, p.frame = frame) ∧
    (∀ q ∈ whole ++ parts, ∃ accesses, policy.Issues persona accesses q) ∧
    ∀ q ∈ whole, ∀ accesses, policy.Issues persona accesses q → ∀ a, a ∈ accesses ↔
      ∃ p ∈ parts, p.sameTarget q = true ∧
        ∃ accesses', policy.Issues persona accesses' p ∧ a ∈ accesses' := by
  intro whole parts
  refine ⟨fun frame => ⟨?_, ?_⟩, fun q hq => ?_, fun q hq accesses haccesses a => ?_⟩
  · -- A template that both sets together ask for makes a policy for one of them.
    rintro ⟨q, hq, rfl⟩
    obtain ⟨t, ht⟩ := Synthesis.exists_makes hq
    obtain ⟨actions, hactions, hasked⟩ := Synthesis.Template.isAskedFor_union.1 ht.2.1
    obtain ⟨p, hp, hmakes⟩ :=
      Synthesis.exists_mem_append_makes drawA drawB persona ht.1 hactions hasked
    exact ⟨p, hp, hmakes.frame_eq ht⟩
  · rintro ⟨p, hp, rfl⟩
    obtain ⟨actions, hactions, t, ht⟩ := Synthesis.exists_makes_append hp
    have hasked : t.IsAskedFor (A ∪ B) :=
      Synthesis.Template.isAskedFor_union.2 ⟨actions, hactions, ht.2.1⟩
    obtain ⟨q, hq, hmakes⟩ := Synthesis.exists_mem_makes ht.1 hasked draw persona
    exact ⟨q, hq, hmakes.frame_eq ht⟩
  · rcases List.mem_append.1 hq with hq | hq
    · obtain ⟨t, ht⟩ := Synthesis.exists_makes hq
      exact ⟨_, ht.issues⟩
    · obtain ⟨actions, -, t, ht⟩ := Synthesis.exists_makes_append hq
      exact ⟨_, ht.issues⟩
  · obtain ⟨t, ht⟩ := Synthesis.exists_makes hq
    obtain rfl := haccesses.unique ht.issues
    rw [NameSet.mem_ofList]
    constructor
    · intro ha
      obtain ⟨actions, hactions, hasked, ha⟩ :=
        (Synthesis.Template.mem_granted_union ht.1).1 ⟨ht.2.1, ha⟩
      obtain ⟨p, hp, hmakes⟩ :=
        Synthesis.exists_mem_append_makes drawA drawB persona ht.1 hactions hasked
      have htarget : p.target = q.target := Policy.target_eq_of_frame (hmakes.frame_eq ht)
      exact ⟨p, hp, Policy.sameTarget_iff.2 htarget, _, hmakes.issues, NameSet.mem_ofList.2 ha⟩
    · rintro ⟨p, hp, htarget, accesses', haccesses', ha⟩
      -- Nothing is assumed of the lengths of assets, so that the templates may be different ones that grant
      -- the same.
      obtain ⟨actions, hactions, t', ht'⟩ := Synthesis.exists_makes_append hp
      obtain rfl := haccesses'.unique ht'.issues
      have hunion := (Synthesis.Template.mem_granted_union ht'.1).2
        ⟨actions, hactions, ht'.2.1, NameSet.mem_ofList.1 ha⟩
      rw [ht.granted_eq ht' (Policy.sameTarget_iff.1 htarget).symm]
      exact hunion.2

end CatalogAccess
