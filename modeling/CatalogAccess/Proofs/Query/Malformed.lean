import CatalogAccess.Accessors
import CatalogAccess.Proofs.Query.Ends
import CatalogAccess.Proofs.Query.Prefilter

/-!
# A malformed policy contributes nothing

A condition policy without criteria (`Policy.LacksCriteria`) is skipped wherever criteria are read:
it applies to no target and has no clause. `malformed_contributes_nothing` says that it may be put
anywhere among other policies without changing a decision, a report of accessors or a query.

The relevant policies of a request are the same but for the malformed one (`relevant_insert`). Where
each of them is used on its own, that is enough. The clauses for entities are made of a map by
display identifier; there the malformed policy has its key to itself, so that without it the map
lacks this key and nothing else (`filterMap_entityPolicies_insert`).
-/

namespace CatalogAccess

/-! ### Policies without criteria -/

/-- There are no criteria, or their text is blank or cannot be read. -/
def Policy.LacksCriteria (p : Policy) : Prop :=
  p.criteria = none ∨
    ∃ text, p.criteria = some text ∧ (Text.isBlank text = true ∨ Criteria.parse? text = none)

theorem Policy.lacksCriteria_iff {p : Policy} : p.LacksCriteria ↔ Criteria.ofPolicy? p = none := by
  unfold LacksCriteria Criteria.ofPolicy?
  cases p.criteria with
  | none => simp
  | some text => by_cases hblank : Text.isBlank text = true <;> simp [hblank]

variable {p : Policy}

namespace AccessView

/-- Without criteria no target is concerned. -/
theorem appliesTo_condition_of_lacks (hlacks : p.LacksCriteria) (user : String) (t : Target) :
    p.appliesTo .condition user t = false := by
  have hnone := Policy.lacksCriteria_iff.1 hlacks
  simp only [Policy.appliesTo, hnone, Option.any_none]

/-- Without criteria there is no clause for entities. -/
theorem entityClause?_of_lacks (hservice : p.service = .condition) (hlacks : p.LacksCriteria)
    (user : String) : entityClause? p user = none := by
  have hnone := Policy.lacksCriteria_iff.1 hlacks
  simp only [entityClause?, hservice, hnone, Option.bind_none, Option.map_none]

/-- Without criteria there is no clause for either end of a relationship. -/
theorem endClauses_of_lacks (hservice : p.service = .condition) (hlacks : p.LacksCriteria)
    (user : String) (effect : Effect) : endClauses p user effect = [] := by
  have hclause : ∀ x, endClause? p user x = none := by
    intro x
    rw [endClause?_condition hservice, Policy.lacksCriteria_iff.1 hlacks, Option.bind_none]
  simp only [endClauses, List.filterMap_cons, hclause, Option.map_none, List.filterMap_nil]

end AccessView

/-! ### Lists with one element more -/

section

variable {α β : Type} {x : α} {l m : List α}

/-- The lists are equal, or the second has one element more. -/
def SameButFor (x : α) (l m : List α) : Prop :=
  m = l ∨ ∃ before after, l = before ++ after ∧ m = before ++ x :: after

theorem SameButFor.filter (h : SameButFor x l m) (test : α → Bool) :
    SameButFor x (l.filter test) (m.filter test) := by
  obtain rfl | ⟨before, after, rfl, rfl⟩ := h
  · exact .inl rfl
  · cases hx : test x with
    | true => exact .inr ⟨before.filter test, after.filter test, by simp, by simp [hx]⟩
    | false => exact .inl (by simp [hx])

theorem SameButFor.filter_eq (h : SameButFor x l m) {test : α → Bool} (hx : test x = false) :
    m.filter test = l.filter test := by
  obtain rfl | ⟨before, after, rfl, rfl⟩ := h
  · rfl
  · simp [hx]

theorem SameButFor.flatMap_eq (h : SameButFor x l m) {f : α → List β} (hx : f x = []) :
    m.flatMap f = l.flatMap f := by
  obtain rfl | ⟨before, after, rfl, rfl⟩ := h
  · rfl
  · simp [hx]

end

namespace AccessView

/-- The view with the policies of a list. -/
def withPolicies (v : AccessView) (policies : List Policy) : AccessView :=
  { v with policies := .ofPolicies policies }

variable {before after : List Policy} {v : AccessView}

/-- A policy that is put into a list is in no collection but that of its service. -/
theorem collection_insert (hservice : p.service = .condition) (service : Policy.Service) :
    SameButFor p ((PolicySnapshot.ofPolicies (before ++ after)).collection service)
      ((PolicySnapshot.ofPolicies (before ++ p :: after)).collection service) ∧
    (service ≠ .condition →
      (PolicySnapshot.ofPolicies (before ++ p :: after)).collection service =
        (PolicySnapshot.ofPolicies (before ++ after)).collection service) := by
  have hinsert : SameButFor p (before ++ after) (before ++ p :: after) :=
    .inr ⟨before, after, rfl, rfl⟩
  have hother : ∀ other, other ≠ Policy.Service.condition → (p.service == other) = false :=
    fun other hne => beq_eq_false_iff_ne.2 (hservice ▸ hne.symm)
  cases service with
  | condition => exact ⟨hinsert.filter _, fun hne => absurd rfl hne⟩
  | resource => exact ⟨hinsert.filter _, fun hne => hinsert.filter_eq (hother .resource hne)⟩
  | tag => exact ⟨hinsert.filter _, fun hne => hinsert.filter_eq (hother .tag hne)⟩
  | data => exact ⟨.inl rfl, fun _ => rfl⟩

/-- The relevant policies are the same but for the one that is put in. -/
theorem relevant_insert (hservice : p.service = .condition) (subject : Option Subject)
    (action : String) (effect : Effect) (category : Policy.Category) (service : Policy.Service) :
    SameButFor p ((v.withPolicies (before ++ after)).relevant subject action effect category service)
      ((v.withPolicies (before ++ p :: after)).relevant subject action effect category service) :=
  (collection_insert hservice service).1.filter _

/-- The relevant policies that apply to a target are the same. -/
theorem filter_appliesTo_insert (hservice : p.service = .condition) (hlacks : p.LacksCriteria)
    (subject : Option Subject) (action : String) (effect : Effect) (category : Policy.Category)
    (service : Policy.Service) (user : String) (t : Target) :
    ((v.withPolicies (before ++ p :: after)).relevant subject action effect category service).filter
        (·.appliesTo service user t) =
      ((v.withPolicies (before ++ after)).relevant subject action effect category service).filter
        (·.appliesTo service user t) := by
  by_cases hcondition : service = .condition
  · subst hcondition
    exact (relevant_insert hservice subject action effect category .condition).filter_eq
      (appliesTo_condition_of_lacks hlacks user t)
  · have hrelevant : (v.withPolicies (before ++ p :: after)).relevant subject action effect category
          service =
        (v.withPolicies (before ++ after)).relevant subject action effect category service :=
      congrArg (List.filter _) ((collection_insert hservice service).2 hcondition)
    rw [hrelevant]

/-! ### Decisions and accessors -/

theorem decide_insert (hservice : p.service = .condition) (hlacks : p.LacksCriteria)
    (user action : String) (t : Target) :
    (v.withPolicies (before ++ p :: after)).decide user action t =
      (v.withPolicies (before ++ after)).decide user action t := by
  have happlying : ∀ effect, (v.withPolicies (before ++ p :: after)).applying user action t effect =
      (v.withPolicies (before ++ after)).applying user action t effect := by
    intro effect
    unfold applying
    simp only [filter_appliesTo_insert hservice hlacks]
    rfl
  rw [decide, decide, happlying, happlying]

theorem accessors_insert (hservice : p.service = .condition) (hlacks : p.LacksCriteria)
    (action : String) (t : Target) :
    (v.withPolicies (before ++ p :: after)).accessors action t =
      (v.withPolicies (before ++ after)).accessors action t := by
  have hitems : ∀ effect, (v.withPolicies (before ++ p :: after)).accessItems action t effect =
      (v.withPolicies (before ++ after)).accessItems action t effect := by
    intro effect
    simp only [accessItems, filter_appliesTo_insert hservice hlacks]
  simp only [accessors, hitems]

/-! ### Queries -/

theorem relationshipCheckQuery_insert (hservice : p.service = .condition)
    (hlacks : p.LacksCriteria) (user action relationshipType guidOne guidTwo : String) :
    (v.withPolicies (before ++ p :: after)).relationshipCheckQuery user action relationshipType
        guidOne guidTwo =
      (v.withPolicies (before ++ after)).relationshipCheckQuery user action relationshipType guidOne
        guidTwo := by
  have hclauses : ∀ effect,
      ((v.withPolicies (before ++ p :: after)).relationshipPolicies user action relationshipType
        effect).flatMap (endClauses · user effect) =
      ((v.withPolicies (before ++ after)).relationshipPolicies user action relationshipType
        effect).flatMap (endClauses · user effect) := by
    intro effect
    unfold relationshipPolicies
    simp only [List.filter_flatMap, List.flatMap_assoc]
    refine congrArg serviceOrder.flatMap (funext fun service => ?_)
    exact ((relevant_insert hservice _ action effect .relationship service).filter _).flatMap_eq
      (endClauses_of_lacks hservice hlacks user effect)
  unfold relationshipCheckQuery
  simp only [hclauses]
  rfl

/-- The policies relevant to some actions on entities, each as often as it is relevant. -/
def foundPolicies (v : AccessView) (user : String) (actions : List String) (effect : Effect)
    (service : Policy.Service) : List Policy :=
  actions.flatMap fun action =>
    v.relevant (some (v.subjects.resolve user)) action effect .entity service

theorem mem_of_mem_foundPolicies {policies : List Policy} {user : String} {actions : List String}
    {effect : Effect} {service : Policy.Service} {q : Policy}
    (h : q ∈ (v.withPolicies policies).foundPolicies user actions effect service) : q ∈ policies := by
  obtain ⟨action, -, hq⟩ := List.mem_flatMap.1 h
  exact (mem_policies_of_relevant rfl hq).1

/-- Without the display identifier of the policy that is put in, what is found is what was found
before. -/
theorem foundPolicies_insert (hservice : p.service = .condition)
    (hid : ∀ q ∈ before ++ after, q.displayId ≠ p.displayId) (user : String) (actions : List String)
    (effect : Effect) (service : Policy.Service) :
    ((v.withPolicies (before ++ p :: after)).foundPolicies user actions effect service).filter
        (·.displayId ≠ p.displayId) =
      (v.withPolicies (before ++ after)).foundPolicies user actions effect service := by
  unfold foundPolicies
  rw [List.filter_flatMap]
  refine congrArg actions.flatMap (funext fun action => ?_)
  have hsame : SameButFor p
      ((v.withPolicies (before ++ after)).relevant (some (v.subjects.resolve user)) action effect
        .entity service)
      ((v.withPolicies (before ++ p :: after)).relevant (some (v.subjects.resolve user)) action effect
        .entity service) := relevant_insert hservice _ action effect .entity service
  refine (hsame.filter_eq (by simp)).trans (List.filter_eq_self.2 fun q hq => ?_)
  exact decide_eq_true (hid q (mem_policies_of_relevant rfl hq).1)

/-- What the policies to be made clauses of give is the same, where the policy that is put in gives
nothing. -/
theorem filterMap_entityPolicies_insert {β : Type} (hservice : p.service = .condition)
    (hid : ∀ q ∈ before ++ after, q.displayId ≠ p.displayId) (user : String) (actions : List String)
    (effect : Effect) (service : Policy.Service) {f : Policy → Option β} (hf : f p = none) :
    ((v.withPolicies (before ++ p :: after)).entityPolicies user actions effect service).filterMap f =
      ((v.withPolicies (before ++ after)).entityPolicies user actions effect service).filterMap f := by
  let entries (found : List Policy) := found.reverse.map fun q => (q.displayId, q)
  let found := (v.withPolicies (before ++ p :: after)).foundPolicies user actions effect service
  have herase : (NameMap.ofList (entries found)).erase p.displayId =
      NameMap.ofList (entries
        ((v.withPolicies (before ++ after)).foundPolicies user actions effect service)) := by
    rw [NameMap.erase_ofList, ← foundPolicies_insert hservice hid]
    simp only [entries, List.filter_map, List.filter_reverse]
    rfl
  -- Nobody else has the key of the policy that is put in.
  have hkey : ∀ q, (NameMap.ofList (entries found)).get? p.displayId = some q → f q = none := by
    intro q hget
    have hentry := NameMap.mem_of_mem_ofList (NameMap.get?_eq_some_iff.1 hget)
    obtain ⟨r, hr, heq⟩ := List.mem_map.1 hentry
    obtain ⟨hdisplay, rfl⟩ := Prod.mk.inj heq
    have hmem : r ∈ before ++ p :: after := mem_of_mem_foundPolicies (List.mem_reverse.1 hr)
    have hcases : r = p ∨ r ∈ before ++ after := by
      simp only [List.mem_append, List.mem_cons] at hmem ⊢
      tauto
    obtain rfl | hother := hcases
    · exact hf
    · exact absurd hdisplay (hid r hother)
  calc ((v.withPolicies (before ++ p :: after)).entityPolicies user actions effect service).filterMap f
      = (NameMap.ofList (entries found)).values.filterMap f := rfl
    _ = ((NameMap.ofList (entries found)).erase p.displayId).values.filterMap f :=
        (NameMap.filterMap_values_erase hkey).symm
    _ = ((v.withPolicies (before ++ after)).entityPolicies user actions effect service).filterMap f := by
        rw [herase]
        rfl

theorem entityClauses_insert (hservice : p.service = .condition) (hlacks : p.LacksCriteria)
    (hid : ∀ q ∈ before ++ after, q.displayId ≠ p.displayId) (user : String) (actions : List String)
    (effect : Effect) :
    (v.withPolicies (before ++ p :: after)).entityClauses user actions effect =
      (v.withPolicies (before ++ after)).entityClauses user actions effect := by
  unfold entityClauses
  refine congrArg serviceOrder.flatMap (funext fun service => ?_)
  refine filterMap_entityPolicies_insert hservice hid user actions effect service ?_
  rw [entityClause?_of_lacks hservice hlacks, Option.map_none]

/-- A condition policy whose criteria are missing, blank or malformed, and whose display identifier
no other policy has, makes no difference: wherever it stands among the policies, all decisions, all
reports of accessors and all queries are what they are without it. -/
theorem malformed_contributes_nothing (v : AccessView) (before after : List Policy) (p : Policy)
    (hservice : p.service = .condition) (hlacks : p.LacksCriteria)
    (hid : ∀ q ∈ before ++ after, q.displayId ≠ p.displayId) :
    let plain := v.withPolicies (before ++ after)
    let padded := v.withPolicies (before ++ p :: after)
    (∀ user action t, padded.decide user action t = plain.decide user action t) ∧
    (∀ action t, padded.accessors action t = plain.accessors action t) ∧
    (∀ user actions, padded.prefilter user actions = plain.prefilter user actions) ∧
    (∀ user guid action,
      padded.entityCheckQuery user guid action = plain.entityCheckQuery user guid action) ∧
    ∀ user action relationshipType guidOne guidTwo,
      padded.relationshipCheckQuery user action relationshipType guidOne guidTwo =
        plain.relationshipCheckQuery user action relationshipType guidOne guidTwo := by
  have hclauses := entityClauses_insert (v := v) hservice hlacks hid
  refine ⟨fun _ _ _ => decide_insert hservice hlacks _ _ _,
    fun _ _ => accessors_insert hservice hlacks _ _, fun user actions => ?_,
    fun user guid action => ?_,
    fun _ _ _ _ _ => relationshipCheckQuery_insert hservice hlacks _ _ _ _ _⟩
  · simp only [prefilter, hclauses]
    rfl
  · simp only [entityCheckQuery, hclauses]
    rfl

/-- A denial whose criteria are not a document, put between two grants. -/
theorem malformed_contributes_nothing_oops :
    let analyst : Policy.Item := { accesses := NameSet.ofList ["entity-read"], roles := ["analysts"] }
    let tables : Policy :=
      { name := "tables", service := .resource, allowItems := [analyst]
        resources := NameMap.ofList [("entity-type", ["Table"])] }
    let broken : Policy :=
      { name := "broken", service := .condition, denyItems := [analyst], criteria := some "\x7boops" }
    let columns : Policy :=
      { name := "columns", service := .resource, allowItems := [analyst]
        resources := NameMap.ofList [("entity-type", ["Column"])] }
    let v : AccessView := { subjects := { roles := [{ name := "analysts", users := ["alice"] }] } }
    let table : Target := .entity { typeName := "Table" }
    (broken.service = .condition ∧ broken.LacksCriteria ∧
      ∀ q ∈ [tables] ++ [columns], q.displayId ≠ broken.displayId) ∧
    (v.withPolicies [tables, broken, columns]).decide "alice" "entity-read" table = .grant "tables" ∧
    (v.withPolicies [tables, broken, columns]).prefilter "alice" ["entity-read"] =
      (v.withPolicies [tables, columns]).prefilter "alice" ["entity-read"] := by
  intro analyst tables broken columns v table
  have hlacks : broken.LacksCriteria := .inr ⟨"\x7boops", rfl, .inr (by decide +kernel)⟩
  have hid : ∀ q ∈ [tables] ++ [columns], q.displayId ≠ broken.displayId := by decide +kernel
  have hsame := malformed_contributes_nothing v [tables] [columns] broken rfl hlacks hid
  have hgrant : (v.withPolicies [tables, columns]).decide "alice" "entity-read" table =
      .grant "tables" := by
    decide +kernel
  exact ⟨⟨rfl, hlacks, hid⟩, (hsame.1 "alice" "entity-read" table).trans hgrant,
    hsame.2.2.1 "alice" ["entity-read"]⟩

end AccessView

end CatalogAccess
