import CatalogAccess.Proofs.Reconcile.Outcomes
import CatalogAccess.Proofs.Reconcile.Policies

/-!
# What merging leaves each grantee

A provisional policy has its item in one of three lists, and merging it changes this list only
(`Policy.entries_mergeRoleItem_of_ne`), with one of the outcomes for lists
(`Policy.merging_mergeItems`). The policies that it is merged into need not be tidy.

`Policy.granted_mergeRoleItem_other` says that users and groups keep what they are granted, and other
roles do unless they are named in an item that is overwritten. `Policy.granted_mergeRoleItem` says what
the role itself is granted afterwards, and when merging once more has nothing left to do: the items that
name the role after the first are never looked at, and merging is exact only as far as they allow.
-/

namespace CatalogAccess.Policy

/-! ### Places -/

/-- One of the lists of a policy. -/
inductive Place where
  /-- The items of an effect. -/
  | items (effect : Effect)
  /-- The masks. -/
  | masks
deriving DecidableEq

/-- The entries of a list of the policy. -/
def entries (p : Policy) : Place → List Entry
  | .items effect => (p.items effect).map .ofItem
  | .masks => p.maskItems.map .ofMaskItem

/-- The list into which the item of a provisional policy is merged. -/
def mergePlace (q : Policy) : Place :=
  match q.kind with
  | .access => .items q.provisionalEffect
  | .dataMask => .masks

/-- The entry that a provisional policy has for merging. -/
def wanted? (q : Policy) : Option Entry := (q.entries q.mergePlace).head?

section Policies

variable {p q : Policy} {role : String}

theorem entries_withItems_self (p : Policy) (effect : Effect) (l : List Item) :
    (p.withItems effect l).entries (.items effect) = l.map .ofItem := by
  cases effect <;> rfl

theorem entries_withItems_of_ne (p : Policy) {effect : Effect} (l : List Item) {place : Place}
    (h : place ≠ .items effect) : (p.withItems effect l).entries place = p.entries place := by
  match effect, place with
  | .allow, .items .allow => exact absurd rfl h
  | .allow, .items .deny => rfl
  | .allow, .masks => rfl
  | .deny, .items .allow => rfl
  | .deny, .items .deny => exact absurd rfl h
  | .deny, .masks => rfl

/-- A provisional policy without an item there is merged without a change. -/
theorem mergeItems_of_not_wanted (h : q.wanted? = none) : mergeItems? p q role = none := by
  cases hk : q.kind with
  | dataMask =>
    have hnone : q.maskItems.head? = none := by simpa [wanted?, mergePlace, hk, entries] using h
    rw [mergeItems_of_dataMask hk, hnone, Option.bind_none]
  | access =>
    have hnone : q.firstItem? q.provisionalEffect = none := by
      simpa [wanted?, mergePlace, hk, entries, firstItem?] using h
    rw [mergeItems_of_access hk, hnone, Option.bind_none]

/-- Merging the item of a provisional policy has one of the outcomes, in the list for it. -/
theorem merging_mergeItems {w : Entry} (h : q.wanted? = some w) :
    Merging w role (p.entries q.mergePlace)
      ((mergeItems? p q role).map fun m => m.entries q.mergePlace) := by
  cases hk : q.kind with
  | dataMask =>
    have hplace : q.mergePlace = .masks := by rw [mergePlace, hk]
    rw [wanted?, hplace] at h
    obtain ⟨m, hm, rfl⟩ : ∃ m, q.maskItems.head? = some m ∧ Entry.ofMaskItem m = w := by
      simpa [entries] using h
    rw [mergeItems_of_dataMask hk, hm, Option.bind_some, Option.map_map, hplace]
    exact merging_mergeMaskItem p.maskItems m role
  | access =>
    have hplace : q.mergePlace = .items q.provisionalEffect := by rw [mergePlace, hk]
    rw [wanted?, hplace] at h
    obtain ⟨i, hi, rfl⟩ : ∃ i, q.firstItem? q.provisionalEffect = some i ∧ Entry.ofItem i = w := by
      simpa [entries, firstItem?] using h
    rw [mergeItems_of_access hk, hi, Option.bind_some, Option.map_map, hplace]
    have hentries : (fun m => m.entries (.items q.provisionalEffect)) ∘
        p.withItems q.provisionalEffect = List.map Entry.ofItem :=
      funext fun l => entries_withItems_self p q.provisionalEffect l
    rw [hentries]
    exact merging_mergeItem (p.items q.provisionalEffect) i role

/-- The other lists stay as they are. -/
theorem entries_mergeItems_of_ne {place : Place} (h : place ≠ q.mergePlace) :
    ((mergeItems? p q role).getD p).entries place = p.entries place := by
  cases hk : q.kind with
  | dataMask =>
    have hplace : place ≠ .masks := by simpa [mergePlace, hk] using h
    rw [mergeItems_of_dataMask hk]
    cases q.maskItems.head? with
    | none => rfl
    | some m =>
      rw [Option.bind_some]
      cases place with
      | masks => exact absurd rfl hplace
      | items effect => cases mergeMaskItem? p.maskItems m role <;> cases effect <;> rfl
  | access =>
    have hplace : place ≠ .items q.provisionalEffect := by simpa [mergePlace, hk] using h
    rw [mergeItems_of_access hk]
    cases q.firstItem? q.provisionalEffect with
    | none => rfl
    | some i =>
      rw [Option.bind_some]
      cases mergeItem? (p.items q.provisionalEffect) i role with
      | none => rfl
      | some l => exact entries_withItems_of_ne p l hplace

/-- Labels do not matter to the entries. -/
theorem entries_mergeRoleItem (p q : Policy) (role : String) (place : Place) :
    ((p.mergeRoleItem q role).getD p).entries place =
      ((mergeItems? p q role).getD p).entries place := by
  rw [getD_mergeRoleItem]
  cases place with
  | items effect => cases effect <;> rfl
  | masks => rfl

/-- The entries of the list for the item after merging are those of the outcome. -/
theorem entries_mergeRoleItem_self (p q : Policy) (role : String) :
    ((p.mergeRoleItem q role).getD p).entries q.mergePlace =
      ((mergeItems? p q role).map fun m => m.entries q.mergePlace).getD (p.entries q.mergePlace) := by
  rw [entries_mergeRoleItem]
  cases mergeItems? p q role <;> rfl

/-- The other lists stay as they are. -/
theorem entries_mergeRoleItem_of_ne {place : Place} (h : place ≠ q.mergePlace) :
    ((p.mergeRoleItem q role).getD p).entries place = p.entries place := by
  rw [entries_mergeRoleItem, entries_mergeItems_of_ne h]

/-- The entry of a policy that is overwritten when a provisional policy for a role is merged into it. -/
def overwrittenBy? (p q : Policy) (role : String) : Option Entry :=
  q.wanted?.bind fun w => overwritten? (p.entries q.mergePlace) w role

/-- Whoever is not named in the entry that is overwritten keeps what is granted in each list. -/
theorem granted_mergeRoleItem_kept (hq : ∀ w, q.wanted? = some w → w.item.NamesOnly role)
    {g : Grantee} (hg : g ≠ .role role) {place : Place}
    (hother : place = q.mergePlace → ∀ c, p.overwrittenBy? q role = some c → c.item.names g = false) :
    granted (((p.mergeRoleItem q role).getD p).entries place) g = granted (p.entries place) g := by
  by_cases hplace : place = q.mergePlace
  · subst hplace
    rw [entries_mergeRoleItem_self]
    cases hw : q.wanted? with
    | none => rw [mergeItems_of_not_wanted hw]; rfl
    | some w =>
      refine (merging_mergeItems hw).granted_kept (hq w hw) hg fun c hc => hother rfl c ?_
      rw [overwrittenBy?, hw]
      exact hc
  · rw [entries_mergeRoleItem_of_ne hplace]

/-- No users and no groups are named in the entry that is overwritten. -/
theorem overwrittenBy_not_isShared {c : Entry} (h : p.overwrittenBy? q role = some c) :
    c.item.isShared = false := by
  obtain ⟨w, -, hc⟩ := Option.bind_eq_some_iff.1 h
  have htest := (Option.filter_eq_some_iff.1 hc).2
  simpa using (Bool.and_eq_true_iff.1 htest).2

end Policies

/-- Merging a provisional policy for a role leaves everybody else what they are granted, list by list:
users and groups always, and any other role unless it is named in the item that is overwritten. Then it
is granted what the item of the provisional policy grants, besides what the other items of the list
do. -/
theorem granted_mergeRoleItem_other (p q : Policy) (role : String)
    (hq : ∀ w ∈ q.entries q.mergePlace, w.item.NamesOnly role) :
    let m := (p.mergeRoleItem q role).getD p
    (∀ place name, granted (m.entries place) (.user name) = granted (p.entries place) (.user name)) ∧
    (∀ place name, granted (m.entries place) (.group name) = granted (p.entries place) (.group name)) ∧
    ∀ other, other ≠ role →
      (∀ place, (place = q.mergePlace →
          ∀ c, p.overwrittenBy? q role = some c → c.item.hasRole other = false) →
        granted (m.entries place) (.role other) = granted (p.entries place) (.role other)) ∧
      ∀ c, p.overwrittenBy? q role = some c → c.item.hasRole other = true →
        ∃ w, q.wanted? = some w ∧ granted (m.entries q.mergePlace) (.role other) =
          granted ((p.entries q.mergePlace).erase c) (.role other) ∪ {a | a ∈ w.item.accesses} := by
  intro m
  have hwanted : ∀ w, q.wanted? = some w → w.item.NamesOnly role :=
    fun w hw => hq w (List.mem_of_head? hw)
  -- Whoever is named in an item that is overwritten is a role.
  have hnotRole : ∀ g, (∀ other, g ≠ .role other) → ∀ place,
      granted (m.entries place) g = granted (p.entries place) g := by
    intro g hg place
    refine granted_mergeRoleItem_kept hwanted (hg role) fun _ c hc => Bool.eq_false_iff.2 fun hnamed => ?_
    obtain ⟨other, hother⟩ := Item.exists_role_of_names (overwrittenBy_not_isShared hc) hnamed
    exact hg other hother
  refine ⟨fun place name => hnotRole _ (fun _ => Grantee.noConfusion) place,
    fun place name => hnotRole _ (fun _ => Grantee.noConfusion) place, fun other hne => ⟨?_, ?_⟩⟩
  · intro place hkept
    exact granted_mergeRoleItem_kept hwanted (fun h => hne (Grantee.role.inj h)) hkept
  · intro c hc hnamed
    obtain ⟨w, hw, hover⟩ := Option.bind_eq_some_iff.1 hc
    refine ⟨w, hw, ?_⟩
    rw [entries_mergeRoleItem_self]
    exact (merging_mergeItems hw).granted_overwritten hover hnamed

/-- A role leaves an item that it shared with a user and another role, and these keep the item. -/
theorem granted_mergeRoleItem_other_split :
    let shared : Item :=
      { accesses := NameSet.ofList ["entity-read"], users := ["ann"], roles := ["writers", "readers"] }
    let p : Policy := { name := "tables", service := .resource, allowItems := [shared] }
    let q : Policy :=
      { name := "provisional", service := .resource
        allowItems := [.forRole (NameSet.ofList ["entity-update"]) "writers"] }
    let m := (p.mergeRoleItem q "writers").getD p
    (∀ w ∈ q.entries q.mergePlace, w.item.NamesOnly "writers") ∧ p.mergeRoleItem q "writers" = some m ∧
      granted (m.entries (.items .allow)) (.user "ann") =
        granted (p.entries (.items .allow)) (.user "ann") ∧
      granted (m.entries (.items .allow)) (.role "readers") =
        granted (p.entries (.items .allow)) (.role "readers") := by
  intro shared p q m
  have hq : ∀ w ∈ q.entries q.mergePlace, w.item.NamesOnly "writers" := by
    intro w hw
    obtain rfl := List.mem_singleton.1 hw
    exact Item.namesOnly_forRole _ _
  have hover : p.overwrittenBy? q "writers" = none := by decide
  obtain ⟨huser, -, hrole⟩ := granted_mergeRoleItem_other p q "writers" hq
  refine ⟨hq, rfl, huser _ _, (hrole "readers" (by decide)).1 _ fun _ c hc => ?_⟩
  rw [hover] at hc
  exact absurd hc.symm (Option.some_ne_none c)

/-- Two roles share an item. When one of them is to get other accesses, the item is overwritten for
both. -/
theorem other_role_overwritten :
    let shared : Item :=
      { accesses := NameSet.ofList ["entity-read"], roles := ["writers", "readers"] }
    let p : Policy := { name := "tables", service := .resource, allowItems := [shared] }
    let q : Policy :=
      { name := "provisional", service := .resource
        allowItems := [.forRole (NameSet.ofList ["entity-update"]) "writers"] }
    let m := (p.mergeRoleItem q "writers").getD p
    (∀ w ∈ q.entries q.mergePlace, w.item.NamesOnly "writers") ∧
      "entity-read" ∈ granted (p.entries (.items .allow)) (.role "readers") ∧
      "entity-read" ∉ granted (m.entries (.items .allow)) (.role "readers") ∧
      "entity-update" ∉ granted (p.entries (.items .allow)) (.role "readers") ∧
      "entity-update" ∈ granted (m.entries (.items .allow)) (.role "readers") := by
  intro shared p q m
  refine ⟨fun w hw => ?_, by decide, by decide, by decide, by decide⟩
  obtain rfl := List.mem_singleton.1 hw
  exact Item.namesOnly_forRole _ _

/-- Let the item of a provisional policy be for a role and nobody else. After merging, the labels of the
provisional policy are there, and in the list of its item the role is granted exactly what the item
grants if the items that named the role, but for the first, granted nothing else. Merging once more has
nothing left to do unless the role has left the first of them, which named users or groups besides, and
the second does something else than the item. -/
theorem granted_mergeRoleItem (p q : Policy) (role : String) (w : Entry)
    (hq : q.entries q.mergePlace = [w]) (hw : w.item.NamesOnly role) :
    let m := (p.mergeRoleItem q role).getD p
    let named := (p.entries q.mergePlace).filter (·.item.hasRole role)
    (∀ label ∈ q.labels, label ∈ m.labels) ∧
    (granted (m.entries q.mergePlace) (.role role) = {a | a ∈ w.item.accesses} ↔
      ∀ e ∈ named.tail, ∀ a ∈ e.item.accesses, a ∈ w.item.accesses) ∧
    (m.mergeRoleItem q role = none ↔
      ∀ c d rest, named = c :: d :: rest → ¬ c.Fits w → c.item.isShared = true → d.Fits w) := by
  intro m named
  have hwanted : q.wanted? = some w := by rw [wanted?, hq, List.head?_cons]
  have hlabels : ∀ label ∈ q.labels, label ∈ m.labels := by
    intro label hlabel
    show label ∈ ((p.mergeRoleItem q role).getD p).labels
    rw [getD_mergeRoleItem]
    exact NameSet.mem_union.2 (.inr hlabel)
  have hnamed : (m.entries q.mergePlace).filter (·.item.hasRole role) = mergeNamed w named := by
    rw [entries_mergeRoleItem_self]
    exact (merging_mergeItems hwanted).filter_hasRole hw.hasRole
  refine ⟨hlabels, ?_, ?_⟩
  · rw [granted_role, hnamed]
    exact accesses_mergeNamed w named
  · have hagain : mergeItems? m q role = none ↔
        ∃ c, (mergeNamed w named).head? = some c ∧ c.Fits w := by
      rw [← hnamed, ← (merging_mergeItems hwanted).eq_none_iff, Option.map_eq_none_iff]
    rw [mergeRoleItem_eq_none_iff, and_iff_left hlabels, hagain, head_mergeNamed_fits]

/-- A role leaves a denial that it shared with a user for one that is narrower, of which it had one
already. -/
theorem granted_mergeRoleItem_narrowed :
    let wanted : Item := .forRole (NameSet.ofList ["entity-update"]) "writers"
    let shared : Item :=
      { accesses := NameSet.ofList ["entity-read", "entity-update"], users := ["ann"]
        roles := ["writers"] }
    let p : Policy := { name := "tables", service := .resource, denyItems := [shared, wanted] }
    let q : Policy :=
      { name := "provisional", service := .resource, denyItems := [wanted]
        labels := NameSet.ofList ["persona:p-1"] }
    let m := (p.mergeRoleItem q "writers").getD p
    q.entries q.mergePlace = [.ofItem wanted] ∧ wanted.NamesOnly "writers" ∧ "persona:p-1" ∈ m.labels ∧
      granted (m.entries (.items .deny)) (.role "writers") = {a | a ∈ wanted.accesses} ∧
      m.mergeRoleItem q "writers" = none := by
  intro wanted shared p q m
  have hwanted : wanted.NamesOnly "writers" := Item.namesOnly_forRole _ _
  have hnamed : (p.entries q.mergePlace).filter (·.item.hasRole "writers") =
      [.ofItem shared, .ofItem wanted] := by decide
  obtain ⟨hlabels, hgranted, hagain⟩ := granted_mergeRoleItem p q "writers" (.ofItem wanted) rfl hwanted
  rw [hnamed] at hgranted hagain
  refine ⟨rfl, hwanted, hlabels _ (by decide), hgranted.2 ?_, hagain.2 ?_⟩
  · exact List.forall_mem_singleton.2 fun a ha => ha
  · rintro c d rest hcons - -
    obtain ⟨-, rfl, -⟩ : _ ∧ Entry.ofItem wanted = d ∧ _ := by simpa using hcons
    exact Entry.fits_self _

/-- A role that has a second item keeps what that item grants, with nothing left to merge; and where it
leaves a shared item, the second item is overwritten by the next merging only. -/
theorem later_items_unseen :
    let reading : Item := .forRole (NameSet.ofList ["entity-read"]) "writers"
    let updating : Item := .forRole (NameSet.ofList ["entity-update"]) "writers"
    let p : Policy := { name := "tables", service := .resource, allowItems := [reading, updating] }
    let p' : Policy :=
      { name := "tables", service := .resource
        allowItems := [{ reading with users := ["ann"] }, updating] }
    let q : Policy :=
      { name := "provisional", service := .resource
        allowItems := [.forRole (NameSet.ofList ["entity-read"]) "writers"] }
    let q' : Policy :=
      { name := "provisional", service := .resource
        allowItems := [.forRole (NameSet.ofList ["entity-create"]) "writers"] }
    p.mergeRoleItem q "writers" = none ∧
      "entity-update" ∈ granted (p.entries (.items .allow)) (.role "writers") ∧
      (((p'.mergeRoleItem q' "writers").getD p').mergeRoleItem q' "writers").isSome = true := by
  decide

end CatalogAccess.Policy
