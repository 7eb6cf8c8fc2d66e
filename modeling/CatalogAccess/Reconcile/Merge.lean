import CatalogAccess.Policy

/-!
# Merging a grant into a policy

`mergeRoleItem` brings the single item of a provisional policy into an existing policy with the
same target. A role that has no item there gets one. Where its item differs, the item takes the new
accesses, unless it names users or groups besides: then the role leaves it and gets an item of its
own, and the others keep their grant.
-/

namespace CatalogAccess

/-- The list with its first element that passes a test replaced. -/
def replaceFirst {α : Type} (p : α → Bool) (f : α → α) : List α → List α
  | [] => []
  | x :: xs => if p x then f x :: xs else x :: replaceFirst p f xs

namespace Policy

/-- The items with the one wanted for a role; nothing when they already grant it. -/
def mergeItem? (items : List Item) (wanted : Item) (role : String) : Option (List Item) :=
  match items.find? (·.hasRole role) with
  | none => some (items ++ [wanted])
  | some current =>
    if current.accesses = wanted.accesses then none
    else if current.isShared then
      some (replaceFirst (·.hasRole role) (·.withoutRole role) items ++ [wanted])
    else
      some (replaceFirst (·.hasRole role) (fun i => { i with accesses := wanted.accesses }) items)

/-- The mask item without a role. -/
def MaskItem.withoutRole (m : MaskItem) (role : String) : MaskItem :=
  { m with item := m.item.withoutRole role }

/-- The mask items with the one wanted for a role; nothing when they already grant it. -/
def mergeMaskItem? (items : List MaskItem) (wanted : MaskItem) (role : String) :
    Option (List MaskItem) :=
  match items.find? (·.item.hasRole role) with
  | none => some (items ++ [wanted])
  | some current =>
    if current.item.accesses = wanted.item.accesses ∧ current.maskType = wanted.maskType then none
    else if current.item.isShared then
      some (replaceFirst (·.item.hasRole role) (·.withoutRole role) items ++ [wanted])
    else
      some (replaceFirst (·.item.hasRole role)
        (fun m => ⟨{ m.item with accesses := wanted.item.accesses }, wanted.maskType⟩) items)

/-- The effect under which a provisional policy has its item. -/
def provisionalEffect (provisional : Policy) : Effect :=
  if provisional.allowItems.isEmpty then .deny else .allow

/-- The policy with the items of a provisional policy merged in; nothing when they are there. -/
def mergeItems? (existing provisional : Policy) (role : String) : Option Policy :=
  match provisional.kind with
  | .dataMask =>
    provisional.maskItems.head?.bind fun wanted =>
      (mergeMaskItem? existing.maskItems wanted role).map fun items =>
        { existing with maskItems := items }
  | .access =>
    let effect := provisional.provisionalEffect
    (provisional.firstItem? effect).bind fun wanted =>
      (mergeItem? (existing.items effect) wanted role).map (existing.withItems effect)

/-- The policy with the item and the labels of a provisional policy; nothing when it has them
already. -/
def mergeRoleItem (existing provisional : Policy) (role : String) : Option Policy :=
  let merged := mergeItems? existing provisional role
  if merged.isNone && provisional.labels.isSubset existing.labels then none
  else
    let p := merged.getD existing
    some { p with labels := p.labels ∪ provisional.labels }

end Policy

end CatalogAccess
