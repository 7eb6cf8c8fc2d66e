import CatalogAccess.Reconcile.Merge
import CatalogAccess.Text

/-!
# Stripping a role from a policy

`stripRole` takes a role out of every item of a policy and drops labels. Items that name nobody any
more are removed, and the label of persona policies in general goes with the last label of a
persona.
-/

namespace CatalogAccess

/-- What remains of a policy without a role. -/
inductive Stripped where
  /-- The policy does not change. -/
  | unchanged
  /-- The policy has changed and has items left. -/
  | updated (p : Policy)
  /-- The policy has no items left. -/
  | emptied (p : Policy)
deriving DecidableEq

namespace Policy

/-- The items without a role; those that name nobody are removed. -/
def stripItems (items : List Item) (role : String) : List Item :=
  (items.map fun i => if i.hasRole role then i.withoutRole role else i).filter Item.hasSubjects

/-- Whether stripping a role changes the items. -/
def stripChanges (items : List Item) (role : String) : Bool :=
  items.any (·.hasRole role) || items.any (!·.hasSubjects)

/-- The labels without the given ones, and without the label of personas in general when no label
of a persona is left. -/
def strippedLabels (labels : NameSet) (dropped : List String) : NameSet :=
  let rest := dropped.foldl NameSet.erase labels
  if rest.any (Text.startsWith · Label.personaStem) then rest else rest.erase Label.personaType

/-- Whether dropping labels changes the policy, and the labels that remain. -/
def stripLabels (p : Policy) (dropped : List String) : Bool × NameSet :=
  let rest := strippedLabels p.labels dropped
  (p.labels.size != rest.size, rest)

/-- The policy without a role and without some labels. -/
def stripRole (p : Policy) (role : String) (dropped : List String) : Stripped :=
  let masks := p.maskItems.map MaskItem.item
  -- the result of stripping, whether or not anything changes
  let stripped : Policy :=
    { p with
      allowItems := stripItems p.allowItems role
      denyItems := stripItems p.denyItems role
      maskItems := (p.maskItems.map fun m =>
        if m.item.hasRole role then m.withoutRole role else m).filter (·.item.hasSubjects)
      labels := (p.stripLabels dropped).2 }
  if stripped.hasNoItems then .emptied stripped
  else if stripChanges p.allowItems role || stripChanges p.denyItems role ||
      stripChanges masks role || (p.stripLabels dropped).1 then .updated stripped
  else .unchanged

end Policy

end CatalogAccess
