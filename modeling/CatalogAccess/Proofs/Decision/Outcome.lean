import CatalogAccess.Proofs.Decision.Admission
import CatalogAccess.Proofs.Subjects

/-!
# What a decision says

`Policy.Matches` says when a policy of a collection speaks about a request. `decide_spec` shows that
`AccessView.decide` allows an action exactly when a policy grants it and none denies it, that the
policy it names is the first that matches with the deciding effect, and that the order of the
policies has no influence on whether the action is allowed.

The evaluator selects relevant policies collection by collection and tests the target afterwards;
`applying_eq` puts this together into one test of the policies in the order in which they are
consulted.
-/

namespace CatalogAccess

/-! ### Matching -/

/-- The item names the user, a group of the user or a role that the user holds. -/
def Policy.Item.Names (i : Policy.Item) (s : Subjects) (user : String) : Prop :=
  user ∈ i.users ∨ (∃ g ∈ i.groups, g ∈ s.groupsFor user) ∨ ∃ r ∈ i.roles, s.Holds user r

/-- The criteria hold for the target, which for a relationship means for both ends. -/
def Criteria.HoldFor (c : Criteria) : Target → Prop
  | .entity e => ∃ tree, c.entity = some tree ∧ tree.evaluate e = true
  | .relationship r => ∃ one two, c.endOne = some one ∧ c.endTwo = some two ∧
      one.evaluate r.endOne = true ∧ two.evaluate r.endTwo = true

/-- A policy of a collection is about the target: by its criteria in the collection of conditions,
and by every dimension that it declares in the others. -/
def Policy.Concerns (p : Policy) (service : Policy.Service) (user : String) (t : Target) : Prop :=
  match service with
  | .condition => ∃ c, Criteria.ofPolicy? p = some c ∧ c.HoldFor t
  | _ => ∀ d values, p.resource? d = some values → t.Admits user d values

/-- A policy of a collection speaks about the action of a user on a target, with an effect. -/
structure Policy.Matches (p : Policy) (service : Policy.Service) (s : Subjects)
    (user action : String) (t : Target) (effect : Effect) : Prop where
  /-- The policy is in force. -/
  enabled : p.enabled = true
  /-- The policy is about targets of this category. -/
  category : p.category = t.category
  /-- The first item of the effect lists the action and names the user. -/
  item : ∃ i, p.firstItem? effect = some i ∧ action ∈ i.accesses ∧ i.Names s user
  /-- The policy is about the target. -/
  target : p.Concerns service user t

theorem Policy.Item.includesSubject_iff {i : Policy.Item} {s : Subjects} {user : String} :
    i.includesSubject user (s.resolve user).groups (s.resolve user).roles = true ↔
      i.Names s user := by
  simp only [includesSubject, Subjects.resolve, Bool.or_eq_true, List.contains_iff_mem,
    List.any_eq_true, NameSet.contains_iff, Subjects.mem_rolesFor_iff, Names, or_assoc]

theorem Criteria.holdFor_iff {c : Criteria} {t : Target} : c.holdFor t = true ↔ c.HoldFor t := by
  cases t with
  | entity e =>
    rw [holdFor, HoldFor, Option.any_eq_true]
  | relationship r =>
    unfold holdFor HoldFor
    cases h1 : c.endOne <;> cases h2 : c.endTwo <;> simp

theorem Policy.appliesTo_iff {p : Policy} {service : Policy.Service} {user : String} {t : Target} :
    p.appliesTo service user t = true ↔ p.Concerns service user t := by
  cases service with
  | condition =>
    show ((Criteria.ofPolicy? p).any fun c => c.holdFor t) = true ↔ _
    rw [Option.any_eq_true]
    simp only [Criteria.holdFor_iff, Concerns]
  | resource | tag | data => exact covers_iff

namespace AccessView

variable {v : AccessView} {user action : String} {t : Target}

/-- The query for the policies of a service that are relevant to a request. -/
def relevance (v : AccessView) (user action : String) (t : Target) (effect : Effect)
    (service : Policy.Service) : PolicyQuery :=
  { service, effect, actions := [action], subject := some (v.subjects.resolve user)
    category := some t.category }

/-- The tests that find the policies that apply are those of a match. -/
theorem relevance_iff_matches {service : Policy.Service} {effect : Effect} {p : Policy} :
    ((v.relevance user action t effect service).admits p && p.appliesTo service user t) = true ↔
      p.Matches service v.subjects user action t effect := by
  -- The subject and the action are tested apart, but on the same item.
  have hitem : ((p.firstItem? effect).any fun i => i.includesSubject user
        (v.subjects.resolve user).groups (v.subjects.resolve user).roles) = true ∧
      ((p.firstItem? effect).any fun i => i.grantsAny [action]) = true ↔
      ∃ i, p.firstItem? effect = some i ∧ action ∈ i.accesses ∧ i.Names v.subjects user := by
    cases p.firstItem? effect with
    | none => simp
    | some i =>
      simp [Policy.Item.grantsAny, Policy.Item.includesSubject_iff, and_comm]
  rw [Bool.and_eq_true, Policy.appliesTo_iff]
  unfold relevance PolicyQuery.admits PolicyQuery.admitsSubject PolicyQuery.admitsActions
  simp only [Bool.and_eq_true, Option.all_some, Option.all_none, List.isEmpty_cons, Bool.false_or,
    beq_iff_eq, and_true, and_assoc]
  constructor
  · rintro ⟨henabled, hcategory, hsubject, haction, htarget⟩
    exact ⟨henabled, hcategory, hitem.1 ⟨hsubject, haction⟩, htarget⟩
  · rintro ⟨henabled, hcategory, hmatch, htarget⟩
    obtain ⟨hsubject, haction⟩ := hitem.2 hmatch
    exact ⟨henabled, hcategory, hsubject, haction, htarget⟩

/-! ### The order of consultation -/

/-- The policies with their collections, in the order in which decisions consult them. -/
def consulted (v : AccessView) : List (Policy.Service × Policy) :=
  v.policies.condition.map (.condition, ·) ++ v.policies.resource.map (.resource, ·) ++
    v.policies.tag.map (.tag, ·)

/-- The policies that apply are those consulted that pass the tests, in order. -/
theorem applying_eq (v : AccessView) (user action : String) (t : Target) (effect : Effect) :
    v.applying user action t effect =
      (v.consulted.filter fun c => (v.relevance user action t effect c.1).admits c.2 &&
        c.2.appliesTo c.1 user t).map Prod.snd := by
  -- In one collection, relevant policies that apply are those that pass both tests.
  have hcollection : ∀ service, ((v.policies.collection service).map (service, ·)).filter
        (fun c => (v.relevance user action t effect c.1).admits c.2 && c.2.appliesTo c.1 user t) =
      ((v.relevant (some (v.subjects.resolve user)) action effect t.category service).filter
        (·.appliesTo service user t)).map (service, ·) := by
    intro service
    rw [List.filter_map, relevant, PolicySnapshot.relevant, List.filter_filter]
    congr 1
    refine List.filter_congr fun p _ => ?_
    exact Bool.and_comm _ _
  have hcondition := hcollection .condition
  have hresource := hcollection .resource
  have htag := hcollection .tag
  unfold PolicySnapshot.collection at hcondition hresource htag
  unfold applying consulted serviceOrder
  simp only [List.filter_append, hcondition, hresource, htag, List.map_append, List.map_map,
    Function.comp_def, List.map_id', List.flatMap_cons, List.flatMap_nil, List.append_nil,
    List.append_assoc]

/-- The policy is the first of those consulted that matches with the effect. -/
def IsFirstMatch (v : AccessView) (user action : String) (t : Target) (effect : Effect)
    (p : Policy) : Prop :=
  ∃ before service after, v.consulted = before ++ (service, p) :: after ∧
    p.Matches service v.subjects user action t effect ∧
    ∀ c ∈ before, ¬ c.2.Matches c.1 v.subjects user action t effect

/-- Some policy matches with the effect. -/
def HasMatch (v : AccessView) (user action : String) (t : Target) (effect : Effect) : Prop :=
  ∃ c ∈ v.consulted, c.2.Matches c.1 v.subjects user action t effect

/-- The first policy that applies is the first that matches. -/
theorem head?_applying_iff {effect : Effect} {p : Policy} :
    (v.applying user action t effect).head? = some p ↔
      v.IsFirstMatch user action t effect p := by
  rw [applying_eq, List.head?_map, List.head?_filter, Option.map_eq_some_iff]
  simp only [List.find?_eq_some_iff_append, relevance_iff_matches, Bool.not_eq_true',
    ← Bool.not_eq_true, IsFirstMatch]
  constructor
  · rintro ⟨⟨service, q⟩, ⟨hmatch, before, after, hsplit, hbefore⟩, rfl⟩
    exact ⟨before, service, after, hsplit, hmatch, hbefore⟩
  · rintro ⟨before, service, after, hsplit, hmatch, hbefore⟩
    exact ⟨(service, p), ⟨hmatch, before, after, hsplit, hbefore⟩, rfl⟩

/-- No policy applies when none matches. -/
theorem applying_eq_nil_iff {effect : Effect} :
    v.applying user action t effect = [] ↔ ¬ v.HasMatch user action t effect := by
  rw [applying_eq, List.map_eq_nil_iff, List.filter_eq_nil_iff]
  simp only [relevance_iff_matches, HasMatch, not_exists, not_and]

/-- The policies that apply are the relevant ones of each service that apply to the target. -/
theorem mem_applying_iff {effect : Effect} {p : Policy} :
    p ∈ v.applying user action t effect ↔
      ∃ service ∈ serviceOrder,
        p ∈ v.relevant (some (v.subjects.resolve user)) action effect t.category service ∧
          p.appliesTo service user t = true := by
  simp only [applying, List.mem_flatMap, List.mem_filter]

/-! ### Decisions -/

/-- An action is allowed when a policy grants it and none denies it. -/
theorem decide_allowed_iff :
    (v.decide user action t).allowed = true ↔
      v.applying user action t .allow ≠ [] ∧ v.applying user action t .deny = [] := by
  unfold decide
  cases v.applying user action t .deny with
  | cons p ps => simp [Decision.ofMatches, Decision.denial]
  | nil =>
    cases v.applying user action t .allow with
    | nil => simp [Decision.ofMatches, Decision.denial]
    | cons p ps => simp [Decision.ofMatches, Decision.grant]

/-- Where a policy matches, one is the first that does. -/
theorem exists_isFirstMatch {effect : Effect} (h : v.HasMatch user action t effect) :
    ∃ p, v.IsFirstMatch user action t effect p := by
  have hne : v.applying user action t effect ≠ [] := fun hnil => applying_eq_nil_iff.1 hnil h
  obtain ⟨p, ps, hp⟩ := List.exists_cons_of_ne_nil hne
  exact ⟨p, head?_applying_iff.1 (by rw [hp]; rfl)⟩

/-- The policy that a decision names is the first match of the deciding effect: of denials, or of
grants where nothing denies. -/
theorem decide_policyId_iff {id : String} :
    (v.decide user action t).policyId = some id ↔
      ∃ p, (v.IsFirstMatch user action t .deny p ∨
        ¬ v.HasMatch user action t .deny ∧ v.IsFirstMatch user action t .allow p) ∧
        p.displayId = id := by
  simp only [← head?_applying_iff, ← applying_eq_nil_iff]
  unfold decide
  cases v.applying user action t .deny with
  | cons p ps => simp [Decision.ofMatches, Decision.denial]
  | nil =>
    cases v.applying user action t .allow with
    | nil => simp [Decision.ofMatches, Decision.denial]
    | cons p ps => simp [Decision.ofMatches, Decision.grant]

/-- A decision names no policy exactly when nothing matches. -/
theorem decide_policyId_eq_none_iff :
    (v.decide user action t).policyId = none ↔ ∀ effect, ¬ v.HasMatch user action t effect := by
  constructor
  · intro hnone effect hmatch
    -- A match of either effect would have a first one, and that would be named.
    have hsome : ∀ p, ¬ (v.IsFirstMatch user action t .deny p ∨
        ¬ v.HasMatch user action t .deny ∧ v.IsFirstMatch user action t .allow p) := by
      intro p hp
      have hid := decide_policyId_iff.2 ⟨p, hp, rfl⟩
      rw [hnone] at hid
      exact Option.some_ne_none _ hid.symm
    have hdeny : ¬ v.HasMatch user action t .deny := by
      intro hd
      obtain ⟨p, hp⟩ := exists_isFirstMatch hd
      exact hsome p (.inl hp)
    cases effect with
    | deny => exact hdeny hmatch
    | allow =>
      obtain ⟨p, hp⟩ := exists_isFirstMatch hmatch
      exact hsome p (.inr ⟨hdeny, hp⟩)
  · intro hnone
    have hdeny := applying_eq_nil_iff.2 (hnone .deny)
    have hallow := applying_eq_nil_iff.2 (hnone .allow)
    unfold decide
    rw [hdeny, hallow]
    rfl

/-- The policies consulted are those of the list, each in the collection of its service. -/
theorem mem_consulted_ofPolicies {policies : List Policy} {c : Policy.Service × Policy} :
    c ∈ ({ v with policies := .ofPolicies policies } : AccessView).consulted ↔
      c.2 ∈ policies ∧ c.2.service = c.1 ∧ c.1 ≠ .data := by
  obtain ⟨service, p⟩ := c
  unfold consulted
  simp only [PolicySnapshot.ofPolicies, List.mem_append, List.mem_map, List.mem_filter, beq_iff_eq,
    Prod.mk.injEq, exists_eq_right_right]
  cases service <;> simp

/-- Whether some policy matches does not depend on the order of the policies. -/
theorem hasMatch_perm {policies policies' : List Policy} (h : policies.Perm policies')
    (effect : Effect) :
    ({ v with policies := .ofPolicies policies } : AccessView).HasMatch user action t effect ↔
      ({ v with policies := .ofPolicies policies' } : AccessView).HasMatch user action t effect := by
  unfold HasMatch
  simp only [mem_consulted_ofPolicies, h.mem_iff]

/-- A request is allowed exactly when a policy that matches grants it and none that matches denies
it. The policy named is the first match of the deciding effect, and none is named exactly when
nothing matches. The order of the policies does not change whether the request is allowed. -/
theorem decide_spec (v : AccessView) (user action : String) (t : Target) :
    ((v.decide user action t).allowed = true ↔
      v.HasMatch user action t .allow ∧ ¬ v.HasMatch user action t .deny) ∧
    (∀ id, (v.decide user action t).policyId = some id ↔
      ∃ p, (v.IsFirstMatch user action t .deny p ∨
        ¬ v.HasMatch user action t .deny ∧ v.IsFirstMatch user action t .allow p) ∧
        p.displayId = id) ∧
    ((v.decide user action t).policyId = none ↔ ∀ effect, ¬ v.HasMatch user action t effect) ∧
    ∀ policies policies' : List Policy, policies.Perm policies' →
      (({ v with policies := .ofPolicies policies } : AccessView).decide user action t).allowed =
        (({ v with policies := .ofPolicies policies' } : AccessView).decide
          user action t).allowed := by
  have hallowed : ∀ w : AccessView, (w.decide user action t).allowed = true ↔
      w.HasMatch user action t .allow ∧ ¬ w.HasMatch user action t .deny := by
    intro w
    rw [decide_allowed_iff, applying_eq_nil_iff, ne_eq, applying_eq_nil_iff, Classical.not_not]
  -- Another order of the policies gives the same matches.
  refine ⟨hallowed v, fun id => decide_policyId_iff, decide_policyId_eq_none_iff, ?_⟩
  intro policies policies' hperm
  rw [Bool.eq_iff_iff, hallowed, hallowed, hasMatch_perm hperm .allow, hasMatch_perm hperm .deny]

end AccessView

end CatalogAccess
