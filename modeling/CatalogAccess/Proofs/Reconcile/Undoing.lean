import CatalogAccess.PersonaService
import CatalogAccess.Proofs.Reconcile.Stripping
import CatalogAccess.Proofs.Synthesis

/-!
# Stripping undoes merging

A persona policy that is granted and then taken back leaves no trace in the policies of others. Where no
item names the role, merging adds an item at the end of one list and stripping takes just this item out
again (`Policy.IsProvisional.stripped_merged`). Merging adds three labels, and stripping is given two of
them; the third goes by itself, unless the policy belongs to another persona
(`Policy.strippedLabels_union`).
-/

namespace CatalogAccess.Policy

/-- No item names the role, and every item names somebody. -/
def Spares {α : Type} (item : α → Item) (role : String) (l : List α) : Prop :=
  ∀ x ∈ l, (item x).hasRole role = false ∧ (item x).hasSubjects = true

section Lists

variable {α : Type} {item : α → Item} {l : List α} {role : String} {drop : α → α} {w : α}

/-- A role that is not named is not found. -/
theorem Spares.find? (h : Spares item role l) : l.find? (fun x => (item x).hasRole role) = none :=
  List.find?_eq_none.2 fun x hx => by simp [(h x hx).1]

/-- Stripping takes out an item that was added for the role. -/
theorem Spares.strip_append (h : Spares item role l)
    (hdrop : ∀ x, item (drop x) = (item x).withoutRole role) (hw : (item w).NamesOneRole)
    (hrole : (item w).hasRole role = true) :
    stripWith item drop role (l ++ [w]) = l := by
  have hgone : ¬ (item (drop w)).hasSubjects = true := by
    rw [hdrop, hw.withoutRole_hasSubjects hrole]
    exact Bool.false_ne_true
  have hkept : stripWith item drop role l = l := (strip_eq_self_iff hdrop).2 h
  have hadded : stripWith item drop role [w] = [] := by simp [stripWith, hrole, hgone]
  calc stripWith item drop role (l ++ [w])
      = stripWith item drop role l ++ stripWith item drop role [w] := by
        rw [stripWith, List.map_append, List.filter_append, stripWith, stripWith]
    _ = l := by rw [hkept, hadded, List.append_nil]

end Lists

/-- A policy with other lists than another one is stripped to it, apart from labels, if each list is. -/
theorem stripped_of_lists {p m : Policy} {role : String} {dropped : List String}
    (hrest : { m with allowItems := p.allowItems, denyItems := p.denyItems, maskItems := p.maskItems
                      labels := p.labels } = p)
    (hallow : stripItems m.allowItems role = p.allowItems)
    (hdeny : stripItems m.denyItems role = p.denyItems)
    (hmask : stripWith MaskItem.item (·.withoutRole role) role m.maskItems = p.maskItems) :
    m.stripped role dropped = { p with labels := strippedLabels m.labels dropped } := by
  have hlists : m.stripped role dropped = { m with
      allowItems := stripItems m.allowItems role, denyItems := stripItems m.denyItems role
      maskItems := stripWith MaskItem.item (·.withoutRole role) role m.maskItems
      labels := strippedLabels m.labels dropped } := rfl
  rw [hlists, hallow, hdeny, hmask]
  exact congrArg (fun p : Policy => { p with labels := strippedLabels m.labels dropped }) hrest

/-- Where no item names the role, merging a provisional policy adds something that stripping takes out
again, apart from labels. -/
theorem IsProvisional.stripped_merged {p q : Policy} {role : String} (hq : IsProvisional role q)
    (hallow : Spares Item.itself role p.allowItems) (hdeny : Spares Item.itself role p.denyItems)
    (hmask : Spares MaskItem.item role p.maskItems) :
    ∃ m, p.mergeRoleItem q role = some m ∧ m.labels = p.labels ∪ q.labels ∧
      ∀ dropped, m.stripped role dropped = { p with labels := strippedLabels m.labels dropped } := by
  have hallow' : stripItems p.allowItems role = p.allowItems := (strip_eq_self_iff fun _ => rfl).2 hallow
  have hdeny' : stripItems p.denyItems role = p.denyItems := (strip_eq_self_iff fun _ => rfl).2 hdeny
  have hmask' : stripWith MaskItem.item (·.withoutRole role) role p.maskItems = p.maskItems :=
    (strip_eq_self_iff fun _ => rfl).2 hmask
  have hone := Item.namesOneRole_forRole
  have hnamed := Item.forRole_hasRole
  cases hq with
  | allow accesses hk ha hd hm =>
    have hfind : p.allowItems.find? (·.hasRole role) = none := hallow.find?
    have hmerge : mergeItems? p q role =
        some { p with allowItems := p.allowItems ++ [.forRole accesses role] } := by
      simp [mergeItems_of_access hk, provisionalEffect, ha, firstItem?, items, mergeItem?, hfind,
        withItems]
    have hadded : stripItems (p.allowItems ++ [.forRole accesses role]) role = p.allowItems :=
      hallow.strip_append (fun _ => rfl) (hone accesses role) (hnamed accesses role)
    refine ⟨_, by rw [mergeRoleItem, hmerge]; rfl, rfl, fun dropped => ?_⟩
    exact stripped_of_lists rfl hadded hdeny' hmask'
  | deny accesses hk ha hd hm =>
    have hfind : p.denyItems.find? (·.hasRole role) = none := hdeny.find?
    have hmerge : mergeItems? p q role =
        some { p with denyItems := p.denyItems ++ [.forRole accesses role] } := by
      simp [mergeItems_of_access hk, provisionalEffect, ha, hd, firstItem?, items, mergeItem?, hfind,
        withItems]
    have hadded : stripItems (p.denyItems ++ [.forRole accesses role]) role = p.denyItems :=
      hdeny.strip_append (fun _ => rfl) (hone accesses role) (hnamed accesses role)
    refine ⟨_, by rw [mergeRoleItem, hmerge]; rfl, rfl, fun dropped => ?_⟩
    exact stripped_of_lists rfl hallow' hadded hmask'
  | mask accesses maskType hk ha hd hm =>
    have hfind : p.maskItems.find? (·.item.hasRole role) = none := hmask.find?
    have hmerge : mergeItems? p q role =
        some { p with maskItems := p.maskItems ++ [⟨.forRole accesses role, maskType⟩] } := by
      simp [mergeItems_of_dataMask hk, hm, mergeMaskItem?, hfind]
    have hadded : stripWith MaskItem.item (·.withoutRole role) role
        (p.maskItems ++ [⟨.forRole accesses role, maskType⟩]) = p.maskItems :=
      hmask.strip_append (fun _ => rfl) (hone accesses role) (hnamed accesses role)
    refine ⟨_, by rw [mergeRoleItem, hmerge]; rfl, rfl, fun dropped => ?_⟩
    exact stripped_of_lists rfl hallow' hdeny' hadded

/-! ### Labels -/

/-- The label of personas in general goes with the labels of the last persona, and stays with those of
another one. -/
theorem strippedLabels_union {labels added : NameSet} {persona policy : String}
    (hadded : ∀ l, l ∈ added ↔ l ∈ Label.ofPersonaPolicy persona policy)
    (hpersona : Label.persona persona ∉ labels) (hpolicy : Label.personaPolicy policy ∉ labels)
    (htype : Label.personaType ∈ labels ↔
      ∃ l ∈ labels, Text.startsWith l Label.personaStem = true) :
    strippedLabels (labels ∪ added) [Label.personaPolicy policy, Label.persona persona] = labels := by
  have hdropped : ∀ {l}, l ∈ labels → l ∉ [Label.personaPolicy policy, Label.persona persona] := by
    intro l hl hmem
    rcases List.mem_pair.1 hmem with rfl | rfl
    · exact hpolicy hl
    · exact hpersona hl
  have hleft : ∀ {l}, l ∈ labels ∪ added → l ∉ [Label.personaPolicy policy, Label.persona persona] →
      l ∈ labels ∨ l = Label.personaType := by
    intro l hl hkept
    simp only [NameSet.mem_union, hadded, Label.ofPersonaPolicy, List.mem_cons, List.not_mem_nil,
      or_false, not_or] at hl hkept
    tauto
  refine NameSet.ext_mem fun l => ?_
  rw [mem_strippedLabels_iff]
  constructor
  · rintro ⟨hl, hkept, hother⟩
    rcases hleft hl hkept with hl | rfl
    · exact hl
    · -- The label of a persona that is left was there before.
      obtain ⟨l', hl', hstart, hkept'⟩ := hother rfl
      rcases hleft hl' hkept' with hl' | rfl
      · exact htype.2 ⟨l', hl', hstart⟩
      · exact absurd hstart (by decide)
  · intro hl
    refine ⟨NameSet.mem_union.2 (.inl hl), hdropped hl, ?_⟩
    rintro rfl
    obtain ⟨l', hl', hstart⟩ := htype.1 hl
    exact ⟨l', NameSet.mem_union.2 (.inl hl'), hstart, hdropped hl'⟩

/-! ### Granting and taking back -/

/-- What is synthesized is merged into a policy and stripped again, and the policy is as it was in all
its parts: as long as the role and the two labels are new to it, its items name somebody, and it has the
label of personas in general exactly for the label of some persona. The outcome is an update, unless
there were no items. -/
theorem stripRole_mergeRoleItem {draw : Nat} {persona : Persona} {policy : PersonaPolicy} {p q : Policy}
    (hq : q ∈ synthesize draw persona policy)
    (hrole : ∀ place, ∀ x ∈ p.entries place, x.item.hasRole persona.roleName = false)
    (hsubjects : ∀ place, ∀ x ∈ p.entries place, x.item.hasSubjects = true)
    (hpersona : Label.persona persona.guid ∉ p.labels)
    (hpolicy : Label.personaPolicy policy.guid ∉ p.labels)
    (htype : Label.personaType ∈ p.labels ↔
      ∃ l ∈ p.labels, Text.startsWith l Label.personaStem = true) :
    ∃ m, p.mergeRoleItem q persona.roleName = some m ∧
      m.stripRole persona.roleName (policy.droppedLabels persona) =
        if p.hasNoItems then .emptied p else .updated p := by
  have hspares : ∀ place, Spares Entry.item persona.roleName (p.entries place) :=
    fun place x hx => ⟨hrole place x hx, hsubjects place x hx⟩
  have hlabels := mem_labels_synthesize_iff hq
  obtain ⟨m, hm, hunion, hstripped⟩ :=
    ((synthesizeActions_areProvisional draw persona policy policy.actions).each q hq).stripped_merged
      (List.forall_mem_map.1 (hspares (.items .allow)))
      (List.forall_mem_map.1 (hspares (.items .deny))) (List.forall_mem_map.1 (hspares .masks))
  have hback : m.stripped persona.roleName (policy.droppedLabels persona) = p := by
    rw [hstripped, hunion, PersonaPolicy.droppedLabels,
      strippedLabels_union hlabels hpersona hpolicy htype]
  -- The label of the persona tells that something has been merged.
  have hchanged : p ≠ m := by
    intro heq
    refine hpersona (heq ▸ ?_)
    rw [hunion, NameSet.mem_union]
    exact .inr (persona_mem_labels_of_mem_synthesize hq)
  refine ⟨m, hm, ?_⟩
  rw [stripRole_outcome, hback, if_neg hchanged]

/-- A persona policy on reading is granted and taken back in a policy that names a user with the role of
another persona, and in a policy without items. -/
theorem stripRole_mergeRoleItem_shared :
    let persona : Persona :=
      { guid := "analysts", name := "analysts", qualifiedName := "tenant/analysts" }
    let policy : PersonaPolicy :=
      { guid := "reading", personaGuid := "analysts", name := "reading", category := .metadata
        actions := NameSet.ofList [Action.entityRead], assets := ["db"] }
    let shared : Policy :=
      { id := some "1", name := "CRUD", service := .resource
        allowItems := [{ accesses := NameSet.ofList [Action.entityUpdate], users := ["ann"]
                         roles := ["tenant/stewards"] }]
        labels := NameSet.ofList ["persona:stewards", "type:persona"] }
    let bare : Policy := { name := "CRUD", service := .resource }
    ∃ q ∈ synthesize 0 persona policy,
      (∃ m, shared.mergeRoleItem q persona.roleName = some m ∧
        m.stripRole persona.roleName (policy.droppedLabels persona) = .updated shared) ∧
      ∃ m, bare.mergeRoleItem q persona.roleName = some m ∧
        m.stripRole persona.roleName (policy.droppedLabels persona) = .emptied bare := by
  intro persona policy shared bare
  have hasked : Action.entityRead ∈ policy.actions := by decide
  obtain ⟨q, hq, -⟩ := exists_grant_synthesize 0 persona rfl rfl hasked (by decide)
  have hplaces : ∀ {P : Place → Prop}, P (.items .allow) → P (.items .deny) → P .masks →
      ∀ place, P place := by
    rintro P hallow hdeny hmasks ((_ | _) | _)
    exacts [hallow, hdeny, hmasks]
  refine ⟨q, hq, ?_, ?_⟩
  · exact stripRole_mergeRoleItem hq (hplaces (by decide) (by decide) (by decide))
      (hplaces (by decide) (by decide) (by decide)) (by decide) (by decide) (by decide)
  · exact stripRole_mergeRoleItem hq (hplaces (by decide) (by decide) (by decide))
      (hplaces (by decide) (by decide) (by decide)) (by decide) (by decide) (by decide)

end CatalogAccess.Policy
