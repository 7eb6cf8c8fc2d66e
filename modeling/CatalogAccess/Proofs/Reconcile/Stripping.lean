import CatalogAccess.Proofs.Reconcile.Grantees

/-!
# What stripping leaves of any policy

Stripping a role tells by flags whether anything has changed: an item has named the role, an item has
named nobody, or a label has gone. The flags are right for the lists and labels of any policy, tidy or
not. An item that named the role is not among those that are left, nor is one that named nobody, and so
nothing is left as it was where a flag is up (`Policy.stripped_eq_self_iff`). With that the outcome is told
by what is left of the policy (`Policy.stripRole_outcome`), and once a role has been stripped there is
nothing left to strip (`Policy.stripped_stripped`).
-/

namespace CatalogAccess

/-- What stripping leaves of a policy that it changes. -/
def Stripped.policy? : Stripped → Option Policy
  | unchanged => none
  | updated p => some p
  | emptied p => some p

namespace Policy

/-! ### Lists -/

/-- An item that does not name a role stays as it is without it. -/
theorem Item.withoutRole_of_not_hasRole {i : Item} {role : String} (h : i.hasRole role = false) :
    i.withoutRole role = i := by
  have hroles : i.roles.filter (· ≠ role) = i.roles := by
    refine List.filter_eq_self.2 fun r hr => decide_eq_true fun heq => ?_
    rw [hasRole, ← heq, List.contains_iff_mem.2 hr] at h
    exact Bool.noConfusion h
  rw [withoutRole, hroles]

section Lists

variable {α : Type} {item : α → Item} {l : List α} {role : String} {drop : α → α}

/-- What stripping leaves of a list does not name the role, and names somebody. -/
theorem of_mem_strip (hdrop : ∀ x, item (drop x) = (item x).withoutRole role) {x : α}
    (h : x ∈ stripWith item drop role l) :
    (item x).hasRole role = false ∧ (item x).hasSubjects = true := by
  obtain ⟨hmem, hsubjects⟩ := List.mem_filter.1 h
  obtain ⟨y, -, rfl⟩ := List.mem_map.1 hmem
  refine ⟨?_, hsubjects⟩
  split
  · rw [hdrop, Item.withoutRole_hasRole]
  · next hrole => exact Bool.eq_false_iff.2 hrole

/-- Stripping leaves a list as it is exactly if no item names the role and all name somebody. -/
theorem strip_eq_self_iff (hdrop : ∀ x, item (drop x) = (item x).withoutRole role) :
    stripWith item drop role l = l ↔
      ∀ x ∈ l, (item x).hasRole role = false ∧ (item x).hasSubjects = true := by
  constructor
  · intro h x hx
    rw [← h] at hx
    exact of_mem_strip hdrop hx
  · intro h
    have hmap : (l.map fun x => if (item x).hasRole role then drop x else x) = l := by
      refine (List.map_congr_left fun x hx => ?_).trans (List.map_id l)
      rw [(h x hx).1]
      rfl
    rw [stripWith, hmap]
    exact List.filter_eq_self.2 fun x hx => (h x hx).2

/-- The flags of a list are down exactly if no item names the role and all name somebody. -/
theorem stripChanges_eq_false_iff {items : List Item} :
    stripChanges items role = false ↔
      ∀ i ∈ items, i.hasRole role = false ∧ i.hasSubjects = true := by
  simp only [stripChanges, Bool.or_eq_false_iff, List.any_eq_false, Bool.not_eq_true,
    Bool.not_eq_false', forall_and]

/-- Stripping takes the role out of every entry, and the entries that name nobody then out of the
list. -/
theorem map_strip {entry : α → Entry} (hitem : ∀ x, (entry x).item = item x)
    (hdrop : ∀ x, entry (drop x) = (entry x).withoutRole role) :
    (stripWith item drop role l).map entry =
      ((l.map entry).map (·.withoutRole role)).filter (·.item.hasSubjects) := by
  have hentry : ∀ x, entry (if (item x).hasRole role then drop x else x) =
      (entry x).withoutRole role := by
    intro x
    split
    · exact hdrop x
    · next hrole =>
      -- Nothing is lost where the role is not named.
      rw [← hitem] at hrole
      rw [Entry.withoutRole, Item.withoutRole_of_not_hasRole (Bool.eq_false_iff.2 hrole)]
  have hmap : (l.map entry).map (·.withoutRole role) =
      (l.map fun x => if (item x).hasRole role then drop x else x).map entry := by
    rw [List.map_map, List.map_map]
    exact List.map_congr_left fun x _ => (hentry x).symm
  have hsubjects : (fun x => (item x).hasSubjects) = (·.item.hasSubjects) ∘ entry :=
    funext fun x => by rw [Function.comp_apply, hitem]
  rw [stripWith, hmap, hsubjects, ← List.filter_map]

end Lists

/-! ### Policies -/

variable {p : Policy} {role : String} {dropped : List String}

/-- What stripping leaves of each list. -/
theorem entries_stripped (p : Policy) (role : String) (dropped : List String) (place : Place) :
    (p.stripped role dropped).entries place =
      ((p.entries place).map (·.withoutRole role)).filter (·.item.hasSubjects) := by
  match place with
  | .items .allow => exact map_strip (fun _ => rfl) fun _ => rfl
  | .items .deny => exact map_strip (fun _ => rfl) fun _ => rfl
  | .masks => exact map_strip (fun _ => rfl) fun _ => rfl

/-- The flag of the labels is down exactly if no label has gone. -/
theorem stripLabels_eq_false_iff :
    (p.stripLabels dropped).1 = false ↔ strippedLabels p.labels dropped = p.labels := by
  rw [stripLabels, bne_eq_false_iff_eq]
  constructor
  · intro hsize
    -- Labels are only taken out, so that their number tells whether any has gone.
    have hlist := (strippedLabels_sublist p.labels dropped).eq_of_length hsize.symm
    exact NameSet.ext_mem fun l => by rw [← NameSet.mem_toList, hlist, NameSet.mem_toList]
  · intro hlabels
    rw [hlabels]

/-- The flags are down exactly if stripping leaves the policy as it is. -/
theorem stripped_eq_self_iff :
    p.stripped role dropped = p ↔
      (stripChanges p.allowItems role || stripChanges p.denyItems role ||
        stripChanges (p.maskItems.map MaskItem.item) role || (p.stripLabels dropped).1) = false := by
  have hparts : p.stripped role dropped = p ↔ (p.stripped role dropped).allowItems = p.allowItems ∧
      (p.stripped role dropped).denyItems = p.denyItems ∧
      (p.stripped role dropped).maskItems = p.maskItems ∧
      (p.stripped role dropped).labels = p.labels := by
    cases p
    simp [stripped]
  have hitems : ∀ {items : List Item}, stripItems items role = items ↔ stripChanges items role = false :=
    (strip_eq_self_iff fun _ => rfl).trans stripChanges_eq_false_iff.symm
  have hmasks : (p.stripped role dropped).maskItems = p.maskItems ↔
      stripChanges (p.maskItems.map MaskItem.item) role = false := by
    rw [stripChanges_eq_false_iff, List.forall_mem_map]
    exact strip_eq_self_iff fun _ => rfl
  rw [hparts, hmasks]
  simp only [stripped, hitems, Bool.or_eq_false_iff, stripLabels_eq_false_iff, and_assoc]

/-- The outcome of stripping is told by what is left of the policy. -/
theorem stripRole_outcome (p : Policy) (role : String) (dropped : List String) :
    p.stripRole role dropped =
      if (p.stripped role dropped).hasNoItems then .emptied (p.stripped role dropped)
      else if p.stripped role dropped = p then .unchanged
      else .updated (p.stripped role dropped) := by
  rw [stripRole_eq]
  split
  · rfl
  · split
    · next hchanged =>
      rw [if_neg]
      rw [stripped_eq_self_iff, hchanged]
      exact Bool.noConfusion
    · next hsame => rw [if_pos (stripped_eq_self_iff.2 (Bool.eq_false_iff.2 hsame))]

/-- What is left is the policy of the outcome, or the policy itself where nothing changes. -/
theorem getD_policy?_stripRole (p : Policy) (role : String) (dropped : List String) :
    (p.stripRole role dropped).policy?.getD p = p.stripped role dropped := by
  rw [stripRole_outcome]
  split
  · rfl
  · split
    · next hsame => exact hsame.symm
    · rfl

/-- Once labels are dropped there are none left to drop. -/
theorem strippedLabels_strippedLabels (labels : NameSet) (dropped : List String) :
    strippedLabels (strippedLabels labels dropped) dropped = strippedLabels labels dropped := by
  refine NameSet.ext_mem fun l => ?_
  rw [mem_strippedLabels_iff, and_iff_left_iff_imp]
  intro hl
  obtain ⟨-, hkept, htype⟩ := mem_strippedLabels_iff.1 hl
  refine ⟨hkept, fun heq => ?_⟩
  -- The label of a persona is no label of personas in general, so that it has been kept as well.
  obtain ⟨l', hl', hstart, hkept'⟩ := htype heq
  refine ⟨l', mem_strippedLabels_iff.2 ⟨hl', hkept', ?_⟩, hstart, hkept'⟩
  rintro rfl
  exact absurd hstart (by decide)

/-- Once a role has been stripped there is nothing left to strip. -/
theorem stripped_stripped (p : Policy) (role : String) (dropped : List String) :
    (p.stripped role dropped).stripped role dropped = p.stripped role dropped := by
  have hitems : ∀ items : List Item, ∀ i ∈ stripItems items role,
      i.hasRole role = false ∧ i.hasSubjects = true :=
    fun items i => @of_mem_strip Item Item.itself items role (·.withoutRole role) (fun _ => rfl) i
  rw [stripped_eq_self_iff]
  simp only [Bool.or_eq_false_iff, stripLabels_eq_false_iff, stripChanges_eq_false_iff,
    List.forall_mem_map]
  exact ⟨⟨⟨hitems p.allowItems, hitems p.denyItems⟩, fun m => of_mem_strip fun _ => rfl⟩,
    strippedLabels_strippedLabels p.labels dropped⟩

/-- What stripping a role and some labels leaves of any policy. Each list keeps its entries in their
order without the role, apart from those that name nobody then. The labels given are gone, the label of
personas in general with the last label of a persona, and all else is as it was. The outcome says
whether items are left and, if so, whether anything has changed, and stripping once more changes
nothing. -/
theorem stripRole_exact (p : Policy) (role : String) (dropped : List String) :
    let outcome := p.stripRole role dropped
    let q := outcome.policy?.getD p
    (∀ place, q.entries place =
      ((p.entries place).map (·.withoutRole role)).filter (·.item.hasSubjects)) ∧
    (∀ label, label ∈ q.labels ↔ label ∈ p.labels ∧ label ∉ dropped ∧ (label = Label.personaType →
      ∃ l ∈ p.labels, Text.startsWith l Label.personaStem = true ∧ l ∉ dropped)) ∧
    q = { p with
      allowItems := q.allowItems, denyItems := q.denyItems, maskItems := q.maskItems
      labels := q.labels } ∧
    outcome = (if q.hasNoItems then .emptied q else if q = p then .unchanged else .updated q) ∧
    (q.stripRole role dropped).policy?.getD q = q := by
  intro outcome q
  have hq : q = p.stripped role dropped := getD_policy?_stripRole p role dropped
  rw [hq]
  refine ⟨entries_stripped p role dropped, fun label => mem_strippedLabels_iff, rfl,
    stripRole_outcome p role dropped, ?_⟩
  rw [getD_policy?_stripRole, stripped_stripped]

end Policy

end CatalogAccess
