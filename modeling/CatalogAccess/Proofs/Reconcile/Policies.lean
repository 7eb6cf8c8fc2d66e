import CatalogAccess.Proofs.Reconcile.Items
import CatalogAccess.Proofs.Signature

/-!
# Merging and stripping policies

A provisional policy has one item, for one role (`Policy.IsProvisional`), and a policy carries it
when it has the same target, its labels, and exactly one item for the role in the list of that item
(`Policy.Carries`). `mergeRoleItem_spec` says what merging makes of a tidy policy (`Policy.Merged`),
and `stripped_tidy` and the lemmas after it say what stripping leaves. Both change the items and the
labels of a policy and leave its frame alone (`Policy.frame`), and both leave the items of other
roles alone (`Policy.itemsNaming`).
-/

namespace CatalogAccess.Policy

/-! ### Targets -/

/-- What two policies with the same target have in common. -/
def target (p : Policy) : Kind × Service × List UInt8 :=
  (p.kind, p.service, ResourceMap.canonicalBytes p.resources)

theorem sameTarget_iff {p q : Policy} : p.sameTarget q = true ↔ p.target = q.target := by
  simp only [sameTarget, target, Bool.and_eq_true, beq_iff_eq, Prod.mk.injEq, and_assoc]

theorem service_eq_of_target {p q : Policy} (h : p.target = q.target) : p.service = q.service :=
  (Prod.mk.inj (Prod.mk.inj h).2).1

theorem canonicalBytes_eq_of_target {p q : Policy} (h : p.target = q.target) :
    ResourceMap.canonicalBytes p.resources = ResourceMap.canonicalBytes q.resources :=
  (Prod.mk.inj (Prod.mk.inj h).2).2

/-! ### Frames -/

/-- What neither merging nor stripping changes. -/
def frame (p : Policy) : Service × Kind × Category × ResourceMap × Bool :=
  (p.service, p.kind, p.category, p.resources, p.enabled)

/-- Policies with the same frame have the same target. -/
theorem target_eq_of_frame {p p' : Policy} (h : p'.frame = p.frame) : p'.target = p.target := by
  simp only [frame, Prod.mk.injEq] at h
  obtain ⟨hservice, hkind, -, hresources, -⟩ := h
  rw [target, target, hservice, hkind, hresources]

/-- What the policies that persona management creates have in common. -/
structure IsSynthetic (p : Policy) : Prop where
  /-- Decisions consider them. -/
  enabled : p.enabled = true
  /-- The names of their dimensions are plain. -/
  plain : ResourceMap.IsPlain p.resources
  /-- They are about relationships if they have a dimension for the type of one. -/
  category : p.category =
    if p.resources.contains Dimension.relationshipType then .relationship else .entity

theorem IsSynthetic.of_frame {p p' : Policy} (hp : p.IsSynthetic) (h : p'.frame = p.frame) :
    p'.IsSynthetic := by
  simp only [frame, Prod.mk.injEq] at h
  obtain ⟨-, -, hcategory, hresources, henabled⟩ := h
  exact ⟨henabled.trans hp.enabled, hresources ▸ hp.plain, by rw [hcategory, hresources, hp.category]⟩

/-- Each of two policies is found when one with the target of the other is looked for. -/
structure Rivals (p q : Policy) : Prop where
  /-- The targets are the same. -/
  target : p.target = q.target
  /-- The first is found by the resources of the second. -/
  first : Authority.overlaps p.resources q.resources = true
  /-- The second is found by the resources of the first. -/
  second : Authority.overlaps q.resources p.resources = true

theorem Rivals.symm {p q : Policy} (h : p.Rivals q) : q.Rivals p :=
  ⟨h.target.symm, h.second, h.first⟩

/-- Policies with the same frame have the same rivals. -/
theorem Rivals.of_frame {p p' q : Policy} (hp : p'.Rivals q) (h : p'.frame = p.frame) :
    p.Rivals q := by
  have htarget := target_eq_of_frame h
  simp only [frame, Prod.mk.injEq] at h
  obtain ⟨-, -, -, hresources, -⟩ := h
  exact ⟨htarget ▸ hp.target, hresources ▸ hp.first, hresources ▸ hp.second⟩

/-- Synthetic policies with the same target are rivals, if every dimension has values and the bytes of
them all fit into memory. -/
theorem IsSynthetic.rivals {p p' : Policy} (hp : p.IsSynthetic) (hp' : p'.IsSynthetic)
    (htarget : p.target = p'.target)
    (hshort : (ResourceMap.canonicalBytes p.resources).length < 2 ^ 60)
    (hvalues : ∀ e ∈ p.resources.toList, e.2 ≠ []) : p.Rivals p' := by
  have hbytes := canonicalBytes_eq_of_target htarget
  have hshort' : (ResourceMap.canonicalBytes p'.resources).length < 2 ^ 60 := by
    rw [← hbytes]
    exact hshort
  have hvalues' := ResourceMap.values_of_canonicalBytes_eq hp'.plain hp.plain hshort' hbytes.symm hvalues
  exact ⟨htarget,
    ResourceMap.overlaps_of_canonicalBytes_eq hp'.plain hp.plain hshort' hbytes.symm hvalues',
    ResourceMap.overlaps_of_canonicalBytes_eq hp.plain hp'.plain hshort hbytes hvalues⟩

/-! ### Tidy policies -/

/-- In each of the three lists every item names one role, and no role is named twice. -/
structure Tidy (p : Policy) : Prop where
  /-- The grants are tidy. -/
  allow : TidyList Item.itself p.allowItems
  /-- The denials are tidy. -/
  deny : TidyList Item.itself p.denyItems
  /-- The masks are tidy. -/
  mask : TidyList MaskItem.item p.maskItems

/-- The policy has one item, in the list that its kind and effect ask for, and it names one role. -/
inductive IsProvisional (role : String) (q : Policy) : Prop
  /-- The policy grants. -/
  | allow (accesses : NameSet) (hk : q.kind = .access)
      (ha : q.allowItems = [.forRole accesses role]) (hd : q.denyItems = []) (hm : q.maskItems = [])
  /-- The policy denies. -/
  | deny (accesses : NameSet) (hk : q.kind = .access)
      (ha : q.allowItems = []) (hd : q.denyItems = [.forRole accesses role]) (hm : q.maskItems = [])
  /-- The policy masks. -/
  | mask (accesses : NameSet) (maskType : String) (hk : q.kind = .dataMask)
      (ha : q.allowItems = []) (hd : q.denyItems = [])
      (hm : q.maskItems = [⟨.forRole accesses role, maskType⟩])

theorem IsProvisional.tidy {role : String} {q : Policy} (h : IsProvisional role q) : q.Tidy := by
  have hitem : ∀ accesses, TidyList Item.itself [Item.forRole accesses role] :=
    fun accesses => .singleton (Item.namesOneRole_forRole accesses role)
  cases h with
  | allow accesses hk ha hd hm =>
    exact ⟨by rw [ha]; exact hitem accesses, by rw [hd]; exact .nil, by rw [hm]; exact .nil⟩
  | deny accesses hk ha hd hm =>
    exact ⟨by rw [ha]; exact .nil, by rw [hd]; exact hitem accesses, by rw [hm]; exact .nil⟩
  | mask accesses maskType hk ha hd hm =>
    refine ⟨by rw [ha]; exact .nil, by rw [hd]; exact .nil, ?_⟩
    rw [hm]
    exact .singleton (Item.namesOneRole_forRole accesses role)

/-! ### The items of a role -/

/-- Items of a policy, list by list. -/
structure RoleItems where
  /-- The grants. -/
  allow : List Item := []
  /-- The denials. -/
  deny : List Item := []
  /-- The masks. -/
  mask : List MaskItem := []
deriving DecidableEq

instance : EmptyCollection RoleItems := ⟨{}⟩

/-- The items of the policy that name a role. -/
def itemsNaming (p : Policy) (role : String) : RoleItems where
  allow := p.allowItems.filter (·.hasRole role)
  deny := p.denyItems.filter (·.hasRole role)
  mask := p.maskItems.filter (·.item.hasRole role)

/-- A policy without items names no role. -/
theorem itemsNaming_of_hasNoItems {p : Policy} (h : p.hasNoItems = true) (role : String) :
    p.itemsNaming role = ∅ := by
  obtain ⟨⟨ha, hd⟩, hm⟩ : (p.allowItems = [] ∧ p.denyItems = []) ∧ p.maskItems = [] := by
    simpa [hasNoItems] using h
  rw [itemsNaming, ha, hd, hm]
  rfl

/-- A provisional policy has an item. -/
theorem IsProvisional.hasNoItems {role : String} {q : Policy} (h : IsProvisional role q) :
    q.hasNoItems = false := by
  cases h with
  | allow accesses hk ha hd hm => simp [Policy.hasNoItems, ha]
  | deny accesses hk ha hd hm => simp [Policy.hasNoItems, hd]
  | mask accesses maskType hk ha hd hm => simp [Policy.hasNoItems, hm]

/-- A provisional policy names no role but its own. -/
theorem IsProvisional.itemsNaming_other {role r : String} {q : Policy} (h : IsProvisional role q)
    (hr : r ≠ role) : q.itemsNaming r = ∅ := by
  have hno : ∀ accesses, (Item.forRole accesses role).hasRole r = false :=
    fun accesses => Item.not_hasRole rfl hr
  cases h with
  | allow accesses hk ha hd hm => simp [itemsNaming, ha, hd, hm, hno]; rfl
  | deny accesses hk ha hd hm => simp [itemsNaming, ha, hd, hm, hno]; rfl
  | mask accesses maskType hk ha hd hm => simp [itemsNaming, ha, hd, hm, hno]; rfl

/-! ### Carrying a provisional policy -/

/-- Each item of a provisional policy has exactly one counterpart for the role in the same list, with
its accesses and its mask. -/
structure Grants (p q : Policy) (role : String) : Prop where
  /-- The grants have their counterparts. -/
  allow : ∀ i ∈ q.allowItems,
    NamedOnce Item.itself p.allowItems role fun j => j.accesses = i.accesses
  /-- The denials have their counterparts. -/
  deny : ∀ i ∈ q.denyItems,
    NamedOnce Item.itself p.denyItems role fun j => j.accesses = i.accesses
  /-- The masks have their counterparts. -/
  mask : ∀ m ∈ q.maskItems, NamedOnce MaskItem.item p.maskItems role fun n =>
    n.item.accesses = m.item.accesses ∧ n.maskType = m.maskType

/-- The policy does what a provisional policy for the role is there to do. -/
structure Carries (p q : Policy) (role : String) : Prop extends p.Grants q role where
  /-- The targets are the same. -/
  target : p.target = q.target
  /-- The labels of the provisional policy are there. -/
  labels : ∀ l ∈ q.labels, l ∈ p.labels

/-- A provisional policy carries itself. -/
theorem IsProvisional.carries_self {role : String} {q : Policy} (h : IsProvisional role q) :
    q.Carries q role := by
  have honce : ∀ accesses, NamedOnce Item.itself [Item.forRole accesses role] role
      fun j => j.accesses = accesses :=
    fun accesses => ⟨.forRole accesses role,
      List.filter_cons_of_pos (Item.forRole_hasRole accesses role), rfl⟩
  cases h with
  | allow accesses hk ha hd hm =>
    refine ⟨⟨?_, by simp [hd], by simp [hm]⟩, rfl, fun _ hl => hl⟩
    rw [ha]
    exact List.forall_mem_singleton.2 (honce accesses)
  | deny accesses hk ha hd hm =>
    refine ⟨⟨by simp [ha], ?_, by simp [hm]⟩, rfl, fun _ hl => hl⟩
    rw [hd]
    exact List.forall_mem_singleton.2 (honce accesses)
  | mask accesses maskType hk ha hd hm =>
    refine ⟨⟨by simp [ha], by simp [hd], ?_⟩, rfl, fun _ hl => hl⟩
    rw [hm]
    intro m hmem
    obtain rfl := List.mem_singleton.1 hmem
    exact ⟨_, List.filter_cons_of_pos (Item.forRole_hasRole accesses role), rfl, rfl⟩

/-- An item that is named once is there. -/
theorem NamedOnce.ne_nil {α : Type} {item : α → Item} {l : List α} {role : String}
    {wanted : α → Prop} (h : NamedOnce item l role wanted) : l ≠ [] := by
  rintro rfl
  obtain ⟨x, hx, -⟩ := h
  exact absurd hx (List.cons_ne_nil x []).symm

/-- A policy that carries a provisional policy has an item. -/
theorem Grants.hasNoItems {p q : Policy} {role : String} (h : p.Grants q role)
    (hq : IsProvisional role q) : p.hasNoItems = false := by
  cases hq with
  | allow accesses hk ha hd hm =>
    have hne := (h.allow (.forRole accesses role) (by simp [ha])).ne_nil
    simp [Policy.hasNoItems, hne]
  | deny accesses hk ha hd hm =>
    have hne := (h.deny (.forRole accesses role) (by simp [hd])).ne_nil
    simp [Policy.hasNoItems, hne]
  | mask accesses maskType hk ha hd hm =>
    have hne := (h.mask ⟨.forRole accesses role, maskType⟩ (by simp [hm])).ne_nil
    simp [Policy.hasNoItems, hne]

/-- Two policies with the same items, labels and target, whatever their names. -/
structure Alike (p q : Policy) : Prop where
  /-- The grants are the same. -/
  allow : p.allowItems = q.allowItems
  /-- The denials are the same. -/
  deny : p.denyItems = q.denyItems
  /-- The masks are the same. -/
  mask : p.maskItems = q.maskItems
  /-- The labels are the same. -/
  labels : p.labels = q.labels
  /-- The targets are the same. -/
  target : p.target = q.target

/-- Provisional policies that are alike are carried by the same policies. -/
theorem Carries.of_alike {p q q' : Policy} {role : String} (h : p.Carries q role)
    (ha : Alike q q') : p.Carries q' role :=
  ⟨⟨ha.allow ▸ h.allow, ha.deny ▸ h.deny, ha.mask ▸ h.mask⟩, h.target.trans ha.target,
    ha.labels ▸ h.labels⟩

/-- Policies that are alike carry the same provisional policies. -/
theorem Carries.alike {p p' q : Policy} {role : String} (h : p.Carries q role)
    (ha : Alike p p') : p'.Carries q role :=
  ⟨⟨ha.allow ▸ h.allow, ha.deny ▸ h.deny, ha.mask ▸ h.mask⟩, ha.target.symm.trans h.target,
    ha.labels ▸ h.labels⟩

/-! ### Merging -/

/-- The lists in which a provisional policy has no items are those of another policy. -/
structure SparesRest (m p q : Policy) : Prop where
  /-- The grants are the same where none is asked for. -/
  allow : q.allowItems = [] → m.allowItems = p.allowItems
  /-- The denials are the same where none is asked for. -/
  deny : q.denyItems = [] → m.denyItems = p.denyItems
  /-- The masks are the same where none is asked for. -/
  mask : q.maskItems = [] → m.maskItems = p.maskItems

theorem SparesRest.refl (p q : Policy) : p.SparesRest p q := ⟨fun _ => rfl, fun _ => rfl, fun _ => rfl⟩

theorem SparesRest.symm {m p q : Policy} (h : m.SparesRest p q) : p.SparesRest m q :=
  ⟨fun hq => (h.allow hq).symm, fun hq => (h.deny hq).symm, fun hq => (h.mask hq).symm⟩

theorem SparesRest.trans {m n p q : Policy} (h : m.SparesRest n q) (h' : n.SparesRest p q) :
    m.SparesRest p q :=
  ⟨fun hq => (h.allow hq).trans (h'.allow hq), fun hq => (h.deny hq).trans (h'.deny hq),
    fun hq => (h.mask hq).trans (h'.mask hq)⟩

/-- Provisional policies that are alike leave the same lists alone. -/
theorem SparesRest.of_alike {m p q q' : Policy} (h : m.SparesRest p q) (ha : Alike q q') :
    m.SparesRest p q' :=
  ⟨fun hq => h.allow (ha.allow.trans hq), fun hq => h.deny (ha.deny.trans hq),
    fun hq => h.mask (ha.mask.trans hq)⟩

theorem mergeItems_of_dataMask {p q : Policy} {role : String} (hk : q.kind = .dataMask) :
    mergeItems? p q role = q.maskItems.head?.bind fun w =>
      (mergeMaskItem? p.maskItems w role).map fun items => { p with maskItems := items } := by
  rw [mergeItems?, hk]

theorem mergeItems_of_access {p q : Policy} {role : String} (hk : q.kind = .access) :
    mergeItems? p q role = (q.firstItem? q.provisionalEffect).bind fun w =>
      (mergeItem? (p.items q.provisionalEffect) w role).map (p.withItems q.provisionalEffect) := by
  rw [mergeItems?, hk]

/-- Merging the items of a provisional policy makes a tidy policy grant what it grants. It changes
nothing but items, and of these only those of the role in the list of the provisional policy. -/
theorem mergeItems_spec {p q : Policy} {role : String} (hp : p.Tidy) (hq : IsProvisional role q) :
    let m := (mergeItems? p q role).getD p
    m.Grants q role ∧ m.Tidy ∧ m.frame = p.frame ∧ m.id = p.id ∧ m.SparesRest p q ∧
      ∀ r, r ≠ role → m.itemsNaming r = p.itemsNaming r := by
  cases hq with
  | allow accesses hk ha hd hm =>
    obtain ⟨htidy, honce, hothers⟩ := mergeItem_spec hp.allow accesses role
    -- Merging touches the list of grants and nothing else.
    have hmerged : (mergeItems? p q role).getD p = { p with
        allowItems := (mergeItem? p.allowItems (.forRole accesses role) role).getD p.allowItems } := by
      have hmerge : mergeItems? p q role =
          (mergeItem? p.allowItems (.forRole accesses role) role).map (p.withItems .allow) := by
        rw [mergeItems_of_access hk]
        simp [provisionalEffect, ha, firstItem?, items]
      rw [hmerge]
      cases mergeItem? p.allowItems (.forRole accesses role) role <;> rfl
    rw [hmerged]
    refine ⟨⟨?_, by simp [hd], by simp [hm]⟩, ⟨htidy, hp.deny, hp.mask⟩, rfl, rfl,
      ⟨by simp [ha], fun _ => rfl, fun _ => rfl⟩, fun r hr => ?_⟩
    · rw [ha]
      exact List.forall_mem_singleton.2 honce
    · exact congrArg (fun l => (⟨l, _, _⟩ : RoleItems)) (hothers r hr)
  | deny accesses hk ha hd hm =>
    obtain ⟨htidy, honce, hothers⟩ := mergeItem_spec hp.deny accesses role
    -- Merging touches the list of denials and nothing else.
    have hmerged : (mergeItems? p q role).getD p = { p with
        denyItems := (mergeItem? p.denyItems (.forRole accesses role) role).getD p.denyItems } := by
      have hmerge : mergeItems? p q role =
          (mergeItem? p.denyItems (.forRole accesses role) role).map (p.withItems .deny) := by
        rw [mergeItems_of_access hk]
        simp [provisionalEffect, ha, hd, firstItem?, items]
      rw [hmerge]
      cases mergeItem? p.denyItems (.forRole accesses role) role <;> rfl
    rw [hmerged]
    refine ⟨⟨by simp [ha], ?_, by simp [hm]⟩, ⟨hp.allow, htidy, hp.mask⟩, rfl, rfl,
      ⟨fun _ => rfl, by simp [hd], fun _ => rfl⟩, fun r hr => ?_⟩
    · rw [hd]
      exact List.forall_mem_singleton.2 honce
    · exact congrArg (fun l => (⟨_, l, _⟩ : RoleItems)) (hothers r hr)
  | mask accesses maskType hk ha hd hm =>
    obtain ⟨htidy, honce, hothers⟩ := mergeMaskItem_spec hp.mask accesses role maskType
    -- Merging touches the list of masks and nothing else.
    have hmerged : (mergeItems? p q role).getD p = { p with
        maskItems := (mergeMaskItem? p.maskItems ⟨.forRole accesses role, maskType⟩ role).getD
          p.maskItems } := by
      rw [mergeItems_of_dataMask hk, hm, List.head?_cons, Option.bind_some]
      cases mergeMaskItem? p.maskItems ⟨.forRole accesses role, maskType⟩ role <;> rfl
    rw [hmerged]
    refine ⟨⟨by simp [ha], by simp [hd], ?_⟩, ⟨hp.allow, hp.deny, htidy⟩, rfl, rfl,
      ⟨fun _ => rfl, fun _ => rfl, by simp [hm]⟩, fun r hr => ?_⟩
    · rw [hm]
      exact List.forall_mem_singleton.2 honce
    · exact congrArg (fun l => (⟨_, _, l⟩ : RoleItems)) (hothers r hr)

/-- Merging the items of a provisional policy leaves the labels alone. -/
theorem mergeItems_labels (p q : Policy) (role : String) :
    ((mergeItems? p q role).getD p).labels = p.labels := by
  cases hk : q.kind with
  | dataMask =>
    rw [mergeItems_of_dataMask hk]
    cases q.maskItems.head? with
    | none => rfl
    | some wanted =>
      rw [Option.bind_some]
      cases mergeMaskItem? p.maskItems wanted role <;> rfl
  | access =>
    rw [mergeItems_of_access hk]
    cases q.firstItem? q.provisionalEffect with
    | none => rfl
    | some wanted =>
      rw [Option.bind_some]
      cases mergeItem? (p.items q.provisionalEffect) wanted role with
      | none => rfl
      | some items => cases q.provisionalEffect <;> rfl

/-- Merging leaves the policy with the items merged and the labels of both. -/
theorem getD_mergeRoleItem (p q : Policy) (role : String) :
    (p.mergeRoleItem q role).getD p =
      { (mergeItems? p q role).getD p with labels := p.labels ∪ q.labels } := by
  unfold mergeRoleItem
  dsimp only
  split
  · next hnone =>
    -- Nothing is missing, so the policy stays as it is.
    obtain ⟨hitems, hsubset⟩ : (mergeItems? p q role).isNone = true ∧
        q.labels.isSubset p.labels = true := by simpa using hnone
    have hlabels : p.labels ∪ q.labels = p.labels := NameSet.ext_mem fun l => by
      rw [NameSet.mem_union, or_iff_left_iff_imp]
      exact NameSet.isSubset_iff.1 hsubset l
    rw [Option.isNone_iff_eq_none.1 hitems, Option.getD_none, hlabels]
  · rw [Option.getD_some, mergeItems_labels]

/-- Nothing is merged where neither an item nor a label is missing. -/
theorem mergeRoleItem_eq_none_iff {p q : Policy} {role : String} :
    p.mergeRoleItem q role = none ↔
      mergeItems? p q role = none ∧ ∀ l ∈ q.labels, l ∈ p.labels := by
  simp [mergeRoleItem, NameSet.isSubset_iff]

/-- A policy that a provisional policy was merged into. -/
structure Merged (p q : Policy) (role : String) (p' : Policy) : Prop where
  /-- It carries the provisional policy. -/
  carries : p'.Carries q role
  /-- It is tidy. -/
  tidy : p'.Tidy
  /-- It has the identifier that it had. -/
  id : p'.id = p.id
  /-- It has the frame that it had. -/
  frame : p'.frame = p.frame
  /-- The lists without an item of the provisional policy are as they were. -/
  rest : p'.SparesRest p q
  /-- The items of other roles are as they were. -/
  others : ∀ r, r ≠ role → p'.itemsNaming r = p.itemsNaming r
  /-- The labels of the provisional policy are added. -/
  labels_iff : ∀ l, l ∈ p'.labels ↔ l ∈ p.labels ∨ l ∈ q.labels

/-- Merging a provisional policy into a tidy policy with its target. -/
theorem mergeRoleItem_spec {p q : Policy} {role : String} (hp : p.Tidy) (hq : IsProvisional role q)
    (ht : p.target = q.target) : Merged p q role ((p.mergeRoleItem q role).getD p) := by
  obtain ⟨hgrants, htidy, hframe, hid, hrest, hothers⟩ := mergeItems_spec hp hq
  rw [getD_mergeRoleItem]
  exact ⟨⟨⟨hgrants.allow, hgrants.deny, hgrants.mask⟩, (target_eq_of_frame hframe).trans ht,
    fun l hl => NameSet.mem_union.2 (.inr hl)⟩, ⟨htidy.allow, htidy.deny, htidy.mask⟩, hid, hframe,
    ⟨hrest.allow, hrest.deny, hrest.mask⟩, hothers, fun l => NameSet.mem_union⟩

/-- Where nothing is left to merge, a tidy policy carries the provisional policy. -/
theorem carries_of_mergeRoleItem {p q : Policy} {role : String} (hp : p.Tidy)
    (hq : IsProvisional role q) (ht : p.target = q.target)
    (h : p.mergeRoleItem q role = none) : p.Carries q role := by
  have hmerged := mergeRoleItem_spec hp hq ht
  rw [h] at hmerged
  exact hmerged.carries

/-- What carries a provisional policy needs no merging. -/
theorem Carries.mergeRoleItem {p q : Policy} {role : String} (h : p.Carries q role)
    (hq : IsProvisional role q) : p.mergeRoleItem q role = none := by
  have hitems : mergeItems? p q role = none := by
    cases hq with
    | allow accesses hk ha hd hm =>
      obtain ⟨x, hfind, haccesses⟩ := (h.allow (.forRole accesses role) (by simp [ha])).find?
      simp [mergeItems?, hk, provisionalEffect, ha, firstItem?, items, mergeItem?, hfind, haccesses]
    | deny accesses hk ha hd hm =>
      obtain ⟨x, hfind, haccesses⟩ := (h.deny (.forRole accesses role) (by simp [hd])).find?
      simp [mergeItems?, hk, provisionalEffect, ha, hd, firstItem?, items, mergeItem?, hfind,
        haccesses]
    | mask accesses maskType hk ha hd hm =>
      obtain ⟨x, hfind, haccesses, hmask⟩ :=
        (h.mask ⟨.forRole accesses role, maskType⟩ (by simp [hm])).find?
      simp [mergeItems?, hk, hm, mergeMaskItem?, hfind, haccesses, hmask]
  exact mergeRoleItem_eq_none_iff.2 ⟨hitems, h.labels⟩

/-! ### Stripping -/

/-- What is left of a policy without a role and without some labels, whether or not anything is left
to do or anything changes. -/
def stripped (p : Policy) (role : String) (dropped : List String) : Policy :=
  { p with
    allowItems := stripItems p.allowItems role
    denyItems := stripItems p.denyItems role
    maskItems := (p.maskItems.map fun m =>
      if m.item.hasRole role then m.withoutRole role else m).filter (·.item.hasSubjects)
    labels := strippedLabels p.labels dropped }

@[simp] theorem stripped_frame (p : Policy) (role : String) (dropped : List String) :
    (p.stripped role dropped).frame = p.frame := rfl

/-- Each outcome of stripping is about what is left of the policy. -/
theorem stripRole_eq (p : Policy) (role : String) (dropped : List String) :
    p.stripRole role dropped =
      if (p.stripped role dropped).hasNoItems then .emptied (p.stripped role dropped)
      else if stripChanges p.allowItems role || stripChanges p.denyItems role ||
          stripChanges (p.maskItems.map MaskItem.item) role || (p.stripLabels dropped).1 then
        .updated (p.stripped role dropped)
      else .unchanged := rfl

/-- Stripping drops the mask of the role. -/
theorem stripped_maskItems {p : Policy} (h : p.Tidy) (role : String) (dropped : List String) :
    (p.stripped role dropped).maskItems = p.maskItems.filter fun m => !m.item.hasRole role :=
  strip_tidy h.mask fun _ => rfl

/-- The items of the role are gone, and the others stay as they are. -/
theorem stripped_tidy {p : Policy} (h : p.Tidy) (role : String) (dropped : List String) :
    (p.stripped role dropped).Tidy := by
  constructor
  · rw [stripped, stripItems_tidy h.allow]
    exact h.allow.sublist List.filter_sublist
  · rw [stripped, stripItems_tidy h.deny]
    exact h.deny.sublist List.filter_sublist
  · rw [stripped_maskItems h]
    exact h.mask.sublist List.filter_sublist

/-- Stripping leaves no item of the role. -/
theorem itemsNaming_stripped {p : Policy} (h : p.Tidy) (role : String) (dropped : List String) :
    (p.stripped role dropped).itemsNaming role = ∅ := by
  rw [itemsNaming, stripped_maskItems h, filter_drop_self, stripped, stripItems_tidy h.allow,
    stripItems_tidy h.deny]
  exact congrArg₂ (fun l k => (⟨l, k, []⟩ : RoleItems)) (filter_drop_self Item.itself _ _)
    (filter_drop_self Item.itself _ _)

/-- Stripping leaves the items of other roles as they were. -/
theorem itemsNaming_stripped_other {p : Policy} (h : p.Tidy) {role r : String} (hr : r ≠ role)
    (dropped : List String) : (p.stripped role dropped).itemsNaming r = p.itemsNaming r := by
  rw [itemsNaming, stripped_maskItems h, stripped, stripItems_tidy h.allow, stripItems_tidy h.deny,
    h.mask.drop_sameApartFrom role r hr]
  exact congrArg₂ (fun l k => (⟨l, k, _⟩ : RoleItems)) (h.allow.drop_sameApartFrom role r hr)
    (h.deny.drop_sameApartFrom role r hr)

/-- Dropping labels leaves some of the labels in their order. -/
theorem strippedLabels_sublist (labels : NameSet) (dropped : List String) :
    (strippedLabels labels dropped).toList.Sublist labels.toList := by
  have hfold : ∀ s : NameSet, (dropped.foldl NameSet.erase s).toList.Sublist s.toList := by
    induction dropped with
    | nil => exact fun s => List.Sublist.refl _
    | cons l ls ih => exact fun s => (ih (s.erase l)).trans List.filter_sublist
  unfold strippedLabels
  dsimp only
  split
  · exact hfold labels
  · exact List.filter_sublist.trans (hfold labels)

/-- Dropping labels one after the other drops all of them and no other. -/
theorem mem_foldl_erase {dropped : List String} {labels : NameSet} {l : String} :
    l ∈ dropped.foldl NameSet.erase labels ↔ l ∈ labels ∧ ¬ l ∈ dropped := by
  induction dropped generalizing labels with
  | nil => simp
  | cons d ds ih => simp [ih, and_assoc]

/-- The labels that are left are those that are not to be dropped, the label of personas in general only
if the label of a persona is left. -/
theorem mem_strippedLabels_iff {labels : NameSet} {dropped : List String} {l : String} :
    l ∈ strippedLabels labels dropped ↔ l ∈ labels ∧ ¬ l ∈ dropped ∧ (l = Label.personaType →
      ∃ l' ∈ labels, Text.startsWith l' Label.personaStem = true ∧ ¬ l' ∈ dropped) := by
  have hpersona : (dropped.foldl NameSet.erase labels).any (Text.startsWith · Label.personaStem) =
      true ↔ ∃ l' ∈ labels, Text.startsWith l' Label.personaStem = true ∧ ¬ l' ∈ dropped := by
    rw [NameSet.any, List.any_eq_true]
    refine exists_congr fun l' => ?_
    rw [NameSet.mem_toList, mem_foldl_erase, and_assoc, and_comm (a := ¬ l' ∈ dropped)]
  unfold strippedLabels
  dsimp only
  split
  · next h => simp only [mem_foldl_erase, hpersona.1 h, implies_true, and_true]
  · next h => simp only [NameSet.mem_erase, mem_foldl_erase, mt hpersona.2 h, imp_false, and_assoc, ne_eq]

/-- None of the labels to drop is left. -/
theorem not_mem_strippedLabels {labels : NameSet} {dropped : List String} {l : String}
    (h : l ∈ dropped) : ¬ l ∈ strippedLabels labels dropped :=
  fun hl => (mem_strippedLabels_iff.1 hl).2.1 h

/-- What stripping does not change has none of the labels to drop. -/
theorem not_mem_labels_of_unchanged {p : Policy} {role : String} {dropped : List String}
    (h : p.stripRole role dropped = .unchanged) {l : String} (hl : l ∈ dropped) :
    ¬ l ∈ p.labels := by
  rw [stripRole_eq] at h
  split at h
  · exact Stripped.noConfusion h
  · split at h
    · exact Stripped.noConfusion h
    · next hsame =>
      simp only [Bool.or_eq_true, not_or, stripLabels, bne_iff_ne, ne_eq,
        Decidable.not_not] at hsame
      -- No label was dropped, since their number is the same.
      have hlist : (strippedLabels p.labels dropped).toList = p.labels.toList :=
        (strippedLabels_sublist p.labels dropped).eq_of_length hsame.2.symm
      intro hmem
      have hout : ¬ l ∈ strippedLabels p.labels dropped := not_mem_strippedLabels hl
      refine hout ?_
      show l ∈ (strippedLabels p.labels dropped).toList
      rw [hlist]
      exact hmem

end CatalogAccess.Policy
