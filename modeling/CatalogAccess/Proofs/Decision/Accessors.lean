import CatalogAccess.Accessors
import CatalogAccess.Proofs.Decision.Outcome

/-!
# What a report of accessors says

A report names the subjects of the items that it counts: those that list the action, in policies that
are about the target and whose first item lists the action as well (`AccessView.mem_accessItems_iff`). A
decision consults the same policies, but asks whether the first item names the user. So nobody is left
out: whoever is allowed or denied an action by a policy is named by the report (`accessors_complete`).
The converse is true of first items only. Where nothing denies, the users who are allowed are those whom
a first item names (`accessors_sound`), and a user whom the report names by a later item may be refused
(`accessors_names_refused`).

There is no requesting user in a report, so the patterns must not have the user placeholder.
-/

namespace CatalogAccess

/-- No pattern of the policy has the user placeholder. -/
def Policy.IsImpersonal (p : Policy) : Prop :=
  ∀ e ∈ p.resources.toList, ∀ x ∈ e.2, Pattern.hasPlaceholder x.toList = false

instance (p : Policy) : Decidable p.IsImpersonal :=
  inferInstanceAs (Decidable (∀ e ∈ p.resources.toList, _))

/-- A pattern without placeholders is the same for all users. -/
theorem Pattern.glob_congr {pattern : String} (h : hasPlaceholder pattern.toList = false)
    (user user' : String) : glob pattern user = glob pattern user' := by
  rw [glob, glob, tokens_of_not_hasPlaceholder h, tokens_of_not_hasPlaceholder h]

/-- Values without placeholders admit a target for all users or for none. -/
theorem Target.admits_congr {t : Target} {d : String} {values : List String}
    (h : ∀ x ∈ values, Pattern.hasPlaceholder x.toList = false) (user user' : String) :
    t.Admits user d values ↔ t.Admits user' d values := by
  have hmatches : ∀ seen, Pattern.MatchesSome values user seen ↔
      Pattern.MatchesSome values user' seen := by
    intro seen
    unfold Pattern.MatchesSome
    refine exists_congr fun v => and_congr_right fun _ => exists_congr fun x =>
      and_congr_right fun hx => ?_
    rw [Pattern.glob_congr (h x hx) user user']
  simp only [Target.Admits, hmatches]

/-- A policy without placeholders is about a target for all users or for none. -/
theorem Policy.IsImpersonal.concerns_congr {p : Policy} (h : p.IsImpersonal)
    (service : Policy.Service) (user user' : String) (t : Target) :
    p.Concerns service user t ↔ p.Concerns service user' t := by
  cases service with
  | condition => exact Iff.rfl
  | resource | tag | data =>
    exact forall_congr' fun d => forall_congr' fun values => forall_congr' fun hvalues =>
      Target.admits_congr (h (d, values) (NameMap.get?_eq_some_iff.1 hvalues)) user user'

instance (s : Subjects) (user role : String) : Decidable (s.Holds user role) :=
  decidable_of_iff _ Subjects.mem_rolesFor_iff

/-- The report names the user, one of the user's groups or a role that the user holds, among those
granted or among those denied. -/
def Accessors.Names (a : Accessors) (s : Subjects) (user : String) : Effect → Prop
  | .allow => user ∈ a.users ∨ (∃ g ∈ a.groups, g ∈ s.groupsFor user) ∨
      ∃ r ∈ a.roles, s.Holds user r
  | .deny => user ∈ a.deniedUsers ∨ (∃ g ∈ a.deniedGroups, g ∈ s.groupsFor user) ∨
      ∃ r ∈ a.deniedRoles, s.Holds user r

instance (a : Accessors) (s : Subjects) (user : String) (effect : Effect) :
    Decidable (a.Names s user effect) :=
  match effect with
  | .allow => decidable_of_iff (user ∈ a.users ∨ (∃ g ∈ a.groups.toList, g ∈ s.groupsFor user) ∨
      ∃ r ∈ a.roles.toList, s.Holds user r) Iff.rfl
  | .deny => decidable_of_iff (user ∈ a.deniedUsers ∨
      (∃ g ∈ a.deniedGroups.toList, g ∈ s.groupsFor user) ∨
      ∃ r ∈ a.deniedRoles.toList, s.Holds user r) Iff.rfl

namespace AccessView

variable {v : AccessView} {user action : String} {t : Target} {effect : Effect}

/-- No policy that decisions consult has the user placeholder. -/
def IsImpersonal (v : AccessView) : Prop := ∀ c ∈ v.consulted, c.2.IsImpersonal

instance (v : AccessView) : Decidable v.IsImpersonal :=
  inferInstanceAs (Decidable (∀ c ∈ v.consulted, _))

/-- The report counts a policy of a collection with an effect. -/
structure Counts (v : AccessView) (action : String) (t : Target) (effect : Effect)
    (c : Policy.Service × Policy) : Prop where
  /-- Decisions consult the policy. -/
  consulted : c ∈ v.consulted
  /-- The policy is in force. -/
  enabled : c.2.enabled = true
  /-- The policy is about targets of this category. -/
  category : c.2.category = t.category
  /-- The first item of the effect lists the action. -/
  first : ∃ i, c.2.firstItem? effect = some i ∧ action ∈ i.accesses
  /-- The policy is about the target. -/
  target : c.2.Concerns c.1 "" t

/-! ### What is counted -/

/-- A policy is consulted in the collection of its service. -/
theorem mem_consulted_iff {c : Policy.Service × Policy} :
    c ∈ v.consulted ↔ c.1 ∈ serviceOrder ∧ c.2 ∈ v.policies.collection c.1 := by
  obtain ⟨service, p⟩ := c
  unfold consulted serviceOrder
  simp only [List.mem_append, List.mem_map, Prod.mk.injEq, exists_eq_right_right, List.mem_cons,
    List.not_mem_nil, or_false]
  cases service <;> simp [PolicySnapshot.collection]

/-- The policies whose items the report lists are those that it counts. -/
theorem counts_iff {c : Policy.Service × Policy} :
    v.Counts action t effect c ↔ c.1 ∈ serviceOrder ∧
      c.2 ∈ v.relevant none action effect t.category c.1 ∧ c.2.appliesTo c.1 "" t = true := by
  have hfirst : ((c.2.firstItem? effect).any fun i => i.grantsAny [action]) = true ↔
      ∃ i, c.2.firstItem? effect = some i ∧ action ∈ i.accesses := by
    rw [Option.any_eq_true]
    simp [Policy.Item.grantsAny]
  rw [Policy.appliesTo_iff]
  unfold relevant PolicySnapshot.relevant PolicyQuery.admits PolicyQuery.admitsSubject
    PolicyQuery.admitsActions
  simp only [List.mem_filter, Bool.and_eq_true, Option.all_none, Option.all_some, beq_iff_eq,
    List.isEmpty_cons, Bool.false_or, and_true, hfirst]
  constructor
  · rintro ⟨hconsulted, henabled, hcategory, hitem, htarget⟩
    obtain ⟨hservice, hmem⟩ := mem_consulted_iff.1 hconsulted
    exact ⟨hservice, ⟨hmem, ⟨henabled, hcategory⟩, hitem⟩, htarget⟩
  · rintro ⟨hservice, ⟨hmem, ⟨henabled, hcategory⟩, hitem⟩, htarget⟩
    exact ⟨mem_consulted_iff.2 ⟨hservice, hmem⟩, henabled, hcategory, hitem, htarget⟩

/-- The report lists the items with the action, of all policies that it counts. -/
theorem mem_accessItems_iff {i : Policy.Item} :
    i ∈ v.accessItems action t effect ↔
      ∃ c, v.Counts action t effect c ∧ i ∈ c.2.items effect ∧ action ∈ i.accesses := by
  unfold accessItems
  simp only [List.mem_flatMap, List.mem_filter, NameSet.contains_iff, counts_iff]
  constructor
  · rintro ⟨p, ⟨service, hservice, hrelevant, happlies⟩, hi, haction⟩
    exact ⟨(service, p), ⟨hservice, hrelevant, happlies⟩, hi, haction⟩
  · rintro ⟨⟨service, p⟩, ⟨hservice, hrelevant, happlies⟩, hi, haction⟩
    exact ⟨p, ⟨service, hservice, hrelevant, happlies⟩, hi, haction⟩

/-- The report names a user when one of the items that it lists does. -/
theorem accessors_names_iff :
    (v.accessors action t).Names v.subjects user effect ↔
      ∃ i ∈ v.accessItems action t effect, i.Names v.subjects user := by
  have hnames : ∀ items : List Policy.Item,
      (user ∈ items.flatMap Policy.Item.users ∨
        (∃ g ∈ items.flatMap Policy.Item.groups, g ∈ v.subjects.groupsFor user) ∨
        ∃ r ∈ items.flatMap Policy.Item.roles, v.subjects.Holds user r) ↔
      ∃ i ∈ items, i.Names v.subjects user := by
    intro items
    simp only [List.mem_flatMap, Policy.Item.Names]
    constructor
    · rintro (⟨i, hi, hu⟩ | ⟨g, ⟨i, hi, hg⟩, hgroup⟩ | ⟨r, ⟨i, hi, hr⟩, hholds⟩)
      · exact ⟨i, hi, .inl hu⟩
      · exact ⟨i, hi, .inr (.inl ⟨g, hg, hgroup⟩)⟩
      · exact ⟨i, hi, .inr (.inr ⟨r, hr, hholds⟩)⟩
    · rintro ⟨i, hi, hu | ⟨g, hg, hgroup⟩ | ⟨r, hr, hholds⟩⟩
      · exact .inl ⟨i, hi, hu⟩
      · exact .inr (.inl ⟨g, ⟨i, hi, hg⟩, hgroup⟩)
      · exact .inr (.inr ⟨r, ⟨i, hi, hr⟩, hholds⟩)
  cases effect <;> simp only [Accessors.Names, accessors, NameSet.mem_ofList, hnames]

/-! ### Reports and decisions -/

/-- Decisions match the policies that the report counts, as far as the first item names the user. -/
theorem hasMatch_iff_counts (hv : v.IsImpersonal) :
    v.HasMatch user action t effect ↔
      ∃ c i, v.Counts action t effect c ∧ c.2.firstItem? effect = some i ∧
        i.Names v.subjects user := by
  constructor
  · rintro ⟨c, hc, henabled, hcategory, ⟨i, hi, haction, hnames⟩, htarget⟩
    have hanyone := ((hv c hc).concerns_congr c.1 user "" t).1 htarget
    exact ⟨c, i, ⟨hc, henabled, hcategory, ⟨i, hi, haction⟩, hanyone⟩, hi, hnames⟩
  · rintro ⟨c, i, ⟨hc, henabled, hcategory, ⟨j, hj, haction⟩, htarget⟩, hi, hnames⟩
    obtain rfl : j = i := Option.some.inj (hj.symm.trans hi)
    have huser := ((hv c hc).concerns_congr c.1 "" user t).1 htarget
    exact ⟨c, hc, henabled, hcategory, ⟨j, hj, haction, hnames⟩, huser⟩

/-- Whom a policy matches, the report names. -/
theorem names_of_hasMatch (hv : v.IsImpersonal) (h : v.HasMatch user action t effect) :
    (v.accessors action t).Names v.subjects user effect := by
  obtain ⟨c, i, hcounts, hi, hnames⟩ := (hasMatch_iff_counts hv).1 h
  obtain ⟨j, hj, haction⟩ := hcounts.first
  obtain rfl : j = i := Option.some.inj (hj.symm.trans hi)
  have hmem : j ∈ c.2.items effect := List.mem_of_mem_head? hi
  exact accessors_names_iff.2 ⟨j, mem_accessItems_iff.2 ⟨c, hcounts, hmem, haction⟩, hnames⟩

/-- A report misses nobody: it names whoever is allowed the action among those granted, and whoever is
denied it by a policy among those denied. -/
theorem accessors_complete (hv : v.IsImpersonal) (user action : String) (t : Target) :
    ((v.decide user action t).allowed = true →
      (v.accessors action t).Names v.subjects user .allow) ∧
    ∀ id, (v.decide user action t).allowed = false → (v.decide user action t).policyId = some id →
      (v.accessors action t).Names v.subjects user .deny := by
  obtain ⟨hallowed, -, hnone, -⟩ := decide_spec v user action t
  constructor
  · intro h
    exact names_of_hasMatch hv (hallowed.1 h).1
  · intro id hdenied hid
    refine names_of_hasMatch hv (Classical.byContradiction fun hdeny => ?_)
    -- Without a denial that matches, a grant that matches would allow the action.
    have hallow : ¬ v.HasMatch user action t .allow := by
      intro hallow
      rw [hallowed.2 ⟨hallow, hdeny⟩] at hdenied
      exact Bool.false_ne_true hdenied.symm
    have hnobody : ∀ effect, ¬ v.HasMatch user action t effect := by
      rintro (_ | _)
      · exact hallow
      · exact hdeny
    rw [hnone.2 hnobody] at hid
    exact Option.some_ne_none id hid.symm

/-- A view in which one policy grants reading to a role in its first item and to a user in its second, and
denies it to a group, and another policy grants updates to the role. -/
def sharing : AccessView where
  policies := .ofPolicies
    [{ id := some "p-1", name := "orders", service := .resource
       resources := NameMap.ofList [(Dimension.entity, ["db/*"])]
       allowItems :=
        [{ accesses := NameSet.ofList [Action.entityRead], roles := ["readers"] },
          { accesses := NameSet.ofList [Action.entityRead], users := ["bob"] }]
       denyItems := [{ accesses := NameSet.ofList [Action.entityRead], groups := ["interns"] }] },
     { id := some "p-2", name := "upkeep", service := .resource
       resources := NameMap.ofList [(Dimension.entity, ["db/*"])]
       allowItems := [{ accesses := NameSet.ofList [Action.entityUpdate], roles := ["readers"] }] }]
  subjects :=
    { roles := [{ name := "analysts", users := ["ann"] }, { name := "readers", roles := ["analysts"] }]
      userGroups := NameMap.ofList [("carl", NameSet.ofList ["interns"])] }

/-- An entity that the policy of the view is about. -/
def orders : Target := .entity (Entity.withQualifiedName { typeName := "Table" } "db/orders")

/-- The holder of a member role and the member of a group are both in the report. -/
theorem accessors_complete_nested :
    sharing.IsImpersonal ∧
    (sharing.decide "ann" Action.entityRead orders).allowed = true ∧
    (sharing.accessors Action.entityRead orders).Names sharing.subjects "ann" .allow ∧
    sharing.decide "carl" Action.entityRead orders = .denial (some "p-1") ∧
    (sharing.accessors Action.entityRead orders).Names sharing.subjects "carl" .deny := by
  have hv : sharing.IsImpersonal := by decide +kernel
  have hann : (sharing.decide "ann" Action.entityRead orders).allowed = true := by decide +kernel
  have hcarl : sharing.decide "carl" Action.entityRead orders = .denial (some "p-1") := by
    decide +kernel
  exact ⟨hv, hann, (accessors_complete hv "ann" _ orders).1 hann, hcarl,
    (accessors_complete hv "carl" _ orders).2 "p-1" (by rw [hcarl]; rfl) (by rw [hcarl]; rfl)⟩

/-- A user whom the report names among those granted, and not among those denied, is denied the action
by no policy. The user is allowed it exactly when the first item of a policy that the report counts
names the user, and so whenever these policies have one item each. -/
theorem accessors_sound (hv : v.IsImpersonal)
    (hgranted : (v.accessors action t).Names v.subjects user .allow)
    (hdenied : ¬ (v.accessors action t).Names v.subjects user .deny) :
    ((v.decide user action t).allowed = true ↔
      ∃ c i, v.Counts action t .allow c ∧ c.2.firstItem? .allow = some i ∧
        i.Names v.subjects user) ∧
    ((v.decide user action t).allowed = false → (v.decide user action t).policyId = none) ∧
    ((∀ c, v.Counts action t .allow c → (c.2.items .allow).length = 1) →
      (v.decide user action t).allowed = true) := by
  obtain ⟨hallowed, -, hnone, -⟩ := decide_spec v user action t
  have hdeny : ¬ v.HasMatch user action t .deny := fun h => hdenied (names_of_hasMatch hv h)
  have hiff : (v.decide user action t).allowed = true ↔ v.HasMatch user action t .allow :=
    hallowed.trans (and_iff_left hdeny)
  refine ⟨hiff.trans (hasMatch_iff_counts hv), fun hrefused => hnone.2 ?_, fun hone => ?_⟩
  · rintro (_ | _)
    · intro hallow
      rw [hiff.2 hallow] at hrefused
      exact Bool.false_ne_true hrefused.symm
    · exact hdeny
  · -- The item that names the user is the only one, and so the first.
    obtain ⟨i, hi, hnames⟩ := accessors_names_iff.1 hgranted
    obtain ⟨c, hcounts, hmem, -⟩ := mem_accessItems_iff.1 hi
    obtain ⟨j, hj⟩ := List.length_eq_one_iff.1 (hone c hcounts)
    rw [hj, List.mem_singleton] at hmem
    have hfirst : c.2.firstItem? .allow = some i := by rw [Policy.firstItem?, hj, hmem]; rfl
    exact hiff.2 ((hasMatch_iff_counts hv).2 ⟨c, i, hcounts, hfirst, hnames⟩)

/-- Who holds the role of the first item is in the report, and allowed; so is who holds the role of the
only item. -/
theorem accessors_sound_first_item :
    sharing.IsImpersonal ∧
    (∀ action ∈ [Action.entityRead, Action.entityUpdate],
      (sharing.accessors action orders).Names sharing.subjects "ann" .allow ∧
      ¬ (sharing.accessors action orders).Names sharing.subjects "ann" .deny) ∧
    (∃ c i, sharing.Counts Action.entityRead orders .allow c ∧ c.2.firstItem? .allow = some i ∧
      i.Names sharing.subjects "ann") ∧
    (sharing.decide "ann" Action.entityUpdate orders).allowed = true := by
  have hv : sharing.IsImpersonal := by decide +kernel
  have hnames : ∀ action ∈ [Action.entityRead, Action.entityUpdate],
      (sharing.accessors action orders).Names sharing.subjects "ann" .allow ∧
      ¬ (sharing.accessors action orders).Names sharing.subjects "ann" .deny := by
    decide +kernel
  have hone : ∀ c ∈ sharing.consulted,
      (c.2.firstItem? .allow).any (fun i => i.accesses.contains Action.entityUpdate) = true →
        (c.2.items .allow).length = 1 := by
    decide +kernel
  have hread := hnames Action.entityRead List.mem_cons_self
  have hupdate := hnames Action.entityUpdate (List.mem_cons_of_mem _ List.mem_cons_self)
  refine ⟨hv, hnames, (accessors_sound hv hread.1 hread.2).1.1 (by decide +kernel),
    (accessors_sound hv hupdate.1 hupdate.2).2.2 fun c hc => hone c hc.consulted ?_⟩
  obtain ⟨i, hi, haction⟩ := hc.first
  rw [hi, Option.any_some]
  exact NameSet.contains_iff.2 haction

/-- The user of the second item is in the report, denied by nothing, and refused. -/
theorem accessors_names_refused :
    sharing.IsImpersonal ∧
    (sharing.accessors Action.entityRead orders).Names sharing.subjects "bob" .allow ∧
    ¬ (sharing.accessors Action.entityRead orders).Names sharing.subjects "bob" .deny ∧
    (sharing.decide "bob" Action.entityRead orders).allowed = false := by
  decide +kernel

end AccessView

end CatalogAccess
