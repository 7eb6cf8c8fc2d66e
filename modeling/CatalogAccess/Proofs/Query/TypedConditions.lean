import CatalogAccess.Proofs.Query.RelationshipCheck

/-!
# Condition policies that declare a relationship type

A condition policy on relationships decides by its criteria, but it may declare patterns for the type of
a relationship as well. Searches ask a policy only if it admits the type, whatever collection it belongs
to (`AccessView.mem_relationshipPolicies_condition`). Decisions read the type of a resource or tag policy
and not that of a condition policy (`AccessView.mem_applying_condition`).

`Request.checkRelationshipBySearch_condition` says what follows where such a policy is the only one: the
check by search is the decision if the type is admitted and a denial without a policy otherwise, so the
two agree on a target exactly when every effect with which the policy applies is one for which it is
asked.
-/

namespace CatalogAccess

open AccessView (End endClause?)

/-! ### Decisions resting on one policy -/

theorem Decision.RestsOn.congr {d : Decision} {found found' : String → Effect → Prop}
    (h : d.RestsOn found) (hiff : ∀ id effect, found id effect ↔ found' id effect) :
    d.RestsOn found' := by
  obtain rfl : found = found' := funext₂ fun id effect => propext (hiff id effect)
  exact h

/-- Decisions that rest on the same finds are equal, if only one policy was found. -/
theorem Decision.RestsOn.unique {d d' : Decision} {found : String → Effect → Prop}
    (h : d.RestsOn found) (h' : d'.RestsOn found)
    (hone : ∀ id effect id' effect', found id effect → found id' effect' → id = id') : d = d' := by
  have hallowed : d.allowed = d'.allowed := by
    rw [Bool.eq_iff_iff, h.allowed_iff, h'.allowed_iff]
  have hpolicy : d.policyId = d'.policyId := by
    cases hd : d.policyId with
    | none =>
      cases hd' : d'.policyId with
      | none => rfl
      | some b => exact absurd (h'.named b hd') (h.unnamed hd b _)
    | some a =>
      cases hd' : d'.policyId with
      | none => exact absurd (h.named a hd) (h'.unnamed hd' a _)
      | some b => rw [hone a _ b _ (h.named a hd) (h'.named b hd')]
  calc d = ⟨d.allowed, d.policyId⟩ := rfl
    _ = ⟨d'.allowed, d'.policyId⟩ := by rw [hallowed, hpolicy]
    _ = d' := rfl

/-- A decision that rests on nothing is a denial without a policy. -/
theorem Decision.RestsOn.eq_denial {d : Decision} {found : String → Effect → Prop}
    (h : d.RestsOn found) (hnone : ∀ id effect, ¬ found id effect) : d = .denial none := by
  have hempty : (denial none).RestsOn found := by
    refine ⟨?_, fun id hid => absurd hid.symm (Option.some_ne_none id), fun _ => hnone⟩
    simp only [denial, Bool.false_eq_true, false_iff, not_and]
    exact fun hgranted => absurd hgranted (not_exists.2 fun id => hnone id .allow)
  exact h.unique hempty fun id effect _ _ hid => absurd hid (hnone id effect)

namespace AccessView

variable {policies : List Policy} {v : AccessView} {user action relationshipType : String}
  {p : Policy} {effect : Effect}

/-- A decision rests on the policies that apply. -/
theorem decide_restsOn (v : AccessView) (user action : String) (t : Target) :
    (v.decide user action t).RestsOn fun id effect =>
      ∃ q ∈ v.applying user action t effect, q.displayId = id := by
  have hfinds : ∀ effect, Finds ((v.applying user action t effect).head?.map Policy.displayId)
      fun id => ∃ q ∈ v.applying user action t effect, q.displayId = id := by
    intro effect
    constructor
    · intro id h
      obtain ⟨q, hq, rfl⟩ := Option.map_eq_some_iff.1 h
      exact ⟨q, List.mem_of_mem_head? hq, rfl⟩
    · rintro h id ⟨q, hq, -⟩
      rw [List.head?_eq_none_iff.1 (Option.map_eq_none_iff.1 h)] at hq
      exact List.not_mem_nil hq
  exact Decision.ofMatches_restsOn (hfinds .deny) fun _ => hfinds .allow

/-! ### Where the type is read -/

/-- The policy is among those that decisions test against relationships by their criteria: it is in
force and its first item of the effect lists the action and names the user. -/
def TestsCriteria (v : AccessView) (user action : String) (effect : Effect) (p : Policy) : Prop :=
  p ∈ v.relevant (some (v.subjects.resolve user)) action effect .relationship .condition

/-- A condition policy is asked if it is tested and admits the type. -/
theorem mem_relationshipPolicies_condition (hv : v.policies = .ofPolicies policies)
    (hs : p.service = .condition) :
    p ∈ v.relationshipPolicies user action relationshipType effect ↔
      v.TestsCriteria user action effect p ∧ p.admitsType user relationshipType = true := by
  rw [mem_relationshipPolicies]
  constructor
  · rintro ⟨service, -, hrelevant, htype⟩
    obtain ⟨-, rfl⟩ := mem_policies_of_relevant hv hrelevant
    rw [hs] at hrelevant
    exact ⟨hrelevant, htype⟩
  · rintro ⟨htested, htype⟩
    exact ⟨.condition, by decide, htested, htype⟩

/-- A condition policy applies to a relationship if it is tested and its criteria hold for both ends,
whatever the type. -/
theorem mem_applying_condition (hv : v.policies = .ofPolicies policies) (hs : p.service = .condition)
    {r : Relationship} :
    p ∈ v.applying user action (.relationship r) effect ↔
      v.TestsCriteria user action effect p ∧
        ∃ c, Criteria.ofPolicy? p = some c ∧ c.HoldFor (.relationship r) := by
  rw [mem_applying_iff]
  constructor
  · rintro ⟨service, -, hrelevant, happlies⟩
    obtain ⟨-, rfl⟩ := mem_policies_of_relevant hv hrelevant
    rw [hs] at hrelevant happlies
    exact ⟨hrelevant, Policy.appliesTo_iff.1 happlies⟩
  · rintro ⟨htested, hholds⟩
    exact ⟨.condition, by decide, htested, Policy.appliesTo_iff.2 hholds⟩

/-- The criteria hold for both ends exactly when the clauses of both ends match. -/
theorem holdFor_iff_endClauses (user : String) (hp : p.HasSearchableEnds)
    (hs : p.service = .condition) {r : Relationship} :
    (∃ c, Criteria.ofPolicy? p = some c ∧ c.HoldFor (.relationship r)) ↔
      (endClause? p user .one).any (Query.selects r.endOne) = true ∧
        (endClause? p user .two).any (Query.selects r.endTwo) = true := by
  rw [endClause_selects_condition hp hs, endClause_selects_condition hp hs]
  cases Criteria.ofPolicy? p with
  | none => simp
  | some c =>
    simp only [Option.some.injEq, exists_eq_left', Option.any_some, Option.any_eq_true,
      Criteria.HoldFor, Criteria.atEnd]
    constructor
    · rintro ⟨one, two, hone, htwo, hholdsOne, hholdsTwo⟩
      exact ⟨⟨one, hone, hholdsOne⟩, ⟨two, htwo, hholdsTwo⟩⟩
    · rintro ⟨⟨one, hone, hholdsOne⟩, ⟨two, htwo, hholdsTwo⟩⟩
      exact ⟨one, two, hone, htwo, hholdsOne, hholdsTwo⟩

/-- Where a condition policy is the only one, both its clauses match for an effect if it applies with
this effect and is asked for it. -/
theorem endMatched_singleton (hv : v.policies = .ofPolicies [p]) (hp : p.HasSearchableEnds)
    (hs : p.service = .condition) {r : Relationship} {id : String} :
    (v.EndMatched user action r.relationshipType r.endOne .one id effect ∧
        v.EndMatched user action r.relationshipType r.endTwo .two id effect) ↔
      (p ∈ v.applying user action (.relationship r) effect ∧
        p ∈ v.relationshipPolicies user action r.relationshipType effect) ∧ p.displayId = id := by
  have honly : ∀ q ∈ v.relationshipPolicies user action r.relationshipType effect, q = p :=
    fun q hq => List.mem_singleton.1 (mem_policies_of_relationshipPolicies hv hq).1
  rw [mem_applying_condition hv hs, holdFor_iff_endClauses user hp hs]
  constructor
  · rintro ⟨⟨q, hq, hone, hid⟩, ⟨q', hq', htwo, -⟩⟩
    obtain rfl := honly q hq
    obtain rfl := honly q' hq'
    exact ⟨⟨⟨((mem_relationshipPolicies_condition hv hs).1 hq).1, hone, htwo⟩, hq⟩, hid⟩
  · rintro ⟨⟨⟨-, hone, htwo⟩, hq⟩, hid⟩
    exact ⟨⟨p, hq, hone, hid⟩, ⟨p, hq, htwo, hid⟩⟩

/-- Where a policy is the only one, a decision rests on it for the effects with which it applies. -/
theorem decide_restsOn_singleton (hv : v.policies = .ofPolicies [p]) (user action : String)
    (t : Target) : (v.decide user action t).RestsOn fun id effect =>
      p ∈ v.applying user action t effect ∧ p.displayId = id := by
  refine (v.decide_restsOn user action t).congr fun id effect => ?_
  constructor
  · rintro ⟨q, hq, hid⟩
    obtain rfl := List.mem_singleton.1 (matches_of_mem_applying hv hq).1
    exact ⟨hq, hid⟩
  · rintro ⟨hp, hid⟩
    exact ⟨p, hp, hid⟩

end AccessView

/-! ### Checks -/

/-- Where a condition policy is the only one, a check by search rests on it for the effects with which
it applies and for which it is asked. -/
theorem Request.checkRelationshipBySearch_restsOn_singleton {p : Policy} (hs : p.service = .condition)
    (hid : ClauseName.isDenial p.displayId = false) (hp : p.HasSearchableEnds)
    {d : Deployment} (hd : d.policies = .ofPolicies [p])
    (hguids : d.index.Pairwise fun a b => a.guid ≠ b.guid)
    (hcall : d.checkCall "relationship access search" "search" "" = .ok ())
    (user action : String) {r : Relationship} (hone : r.endOne ∈ d.index)
    (htwo : r.endTwo ∈ d.index) :
    ∃ decision d', runOn (checkRelationshipBySearch user action r.relationshipType r.endOne.guid
        r.endTwo.guid) d = (.ok decision, d') ∧
      decision.RestsOn fun id effect =>
        (p ∈ d.view.applying user action (.relationship r) effect ∧
          p ∈ d.view.relationshipPolicies user action r.relationshipType effect) ∧
        p.displayId = id := by
  have hsilent : Policy.HaveSilentEnds [p] := by
    intro q hq user x c hc e
    obtain rfl := List.mem_singleton.1 hq
    exact AccessView.endClause_silent hp user x c hc
  have hids : ∀ q ∈ [p], ClauseName.isDenial q.displayId = false := by simpa using hid
  obtain ⟨decision, hrun, hrests⟩ := checkRelationshipBySearch_restsOn hsilent hids hd hguids hcall
    user action r.relationshipType hone htwo
  simp only [AccessView.endMatched_singleton (v := d.view) hd hp hs] at hrests
  exact ⟨decision, _, hrun, hrests⟩

/-- Let a condition policy be the only policy. A search asks it for the effects with which it is tested,
if it admits the type; in a decision it applies with the effects with which it is tested, if its criteria
hold, whatever the type. So the check by search of two indexed ends agrees with the decision exactly when
the policy is asked for every effect with which it applies, which it is whenever the type is admitted;
where the type is not admitted, the check is a denial without a policy. This is for an index with each
identifier once, comparisons that can be searched for, and an identifier of the policy that does not end
like the names of denying clauses. -/
theorem Request.checkRelationshipBySearch_condition (p : Policy) (hs : p.service = .condition)
    (d : Deployment) (hd : d.policies = .ofPolicies [p]) (user action relationshipType : String)
    (one two : Entity) :
    let target := Target.relationship ⟨relationshipType, one, two⟩
    (∀ effect, p ∈ d.view.relationshipPolicies user action relationshipType effect ↔
      d.view.TestsCriteria user action effect p ∧ p.admitsType user relationshipType = true) ∧
    (∀ effect, p ∈ d.view.applying user action target effect ↔
      d.view.TestsCriteria user action effect p ∧
        ∃ c, Criteria.ofPolicy? p = some c ∧ c.HoldFor target) ∧
    (ClauseName.isDenial p.displayId = false → p.HasSearchableEnds →
      (d.index.Pairwise fun a b => a.guid ≠ b.guid) → one ∈ d.index → two ∈ d.index →
      d.checkCall "relationship access search" "search" "" = .ok () →
      ∃ decision d',
        runOn (checkRelationshipBySearch user action relationshipType one.guid two.guid) d =
          (.ok decision, d') ∧
        (decision = d.view.decide user action target ↔
          ∀ effect, p ∈ d.view.applying user action target effect →
            p ∈ d.view.relationshipPolicies user action relationshipType effect) ∧
        (p.admitsType user relationshipType = true → decision = d.view.decide user action target) ∧
        (p.admitsType user relationshipType = false → decision = .denial none)) := by
  intro target
  have hasked : ∀ effect, p ∈ d.view.relationshipPolicies user action relationshipType effect ↔
      d.view.TestsCriteria user action effect p ∧ p.admitsType user relationshipType = true :=
    fun effect => AccessView.mem_relationshipPolicies_condition (v := d.view) hd hs
  have happlies : ∀ effect, p ∈ d.view.applying user action target effect ↔
      d.view.TestsCriteria user action effect p ∧
        ∃ c, Criteria.ofPolicy? p = some c ∧ c.HoldFor target :=
    fun effect => AccessView.mem_applying_condition (v := d.view) hd hs
  refine ⟨hasked, happlies, fun hid hp hguids hone htwo hcall => ?_⟩
  obtain ⟨decision, d', hrun, hrests⟩ := checkRelationshipBySearch_restsOn_singleton hs hid hp hd hguids
    hcall user action (r := ⟨relationshipType, one, two⟩) hone htwo
  have hdecide := AccessView.decide_restsOn_singleton (v := d.view) hd user action target
  have hagree : (∀ effect, p ∈ d.view.applying user action target effect →
      p ∈ d.view.relationshipPolicies user action relationshipType effect) →
      decision = d.view.decide user action target := by
    intro hall
    have hboth : ∀ effect, (p ∈ d.view.applying user action target effect ∧
        p ∈ d.view.relationshipPolicies user action relationshipType effect) ↔
        p ∈ d.view.applying user action target effect :=
      fun effect => and_iff_left_of_imp (hall effect)
    have hrests' := hrests.congr fun id effect => and_congr_left' (hboth effect)
    exact hrests'.unique hdecide fun _ _ _ _ h h' => h.2.symm.trans h'.2
  have hdeny : p.admitsType user relationshipType = false → decision = .denial none := by
    intro htype
    refine hrests.eq_denial fun id effect h => ?_
    have hyes := ((hasked effect).1 h.1.2).2
    rw [htype] at hyes
    exact Bool.false_ne_true hyes
  have htyped : p.admitsType user relationshipType = true → ∀ effect,
      p ∈ d.view.applying user action target effect →
        p ∈ d.view.relationshipPolicies user action relationshipType effect :=
    fun htype effect h => (hasked effect).2 ⟨((happlies effect).1 h).1, htype⟩
  refine ⟨decision, d', hrun, ⟨fun heq effect happly => ?_, hagree⟩,
    fun htype => hagree (htyped htype), hdeny⟩
  cases htype : p.admitsType user relationshipType with
  | true => exact htyped htype effect happly
  | false =>
    -- The decision names the policy, and the denial names none.
    have hnone : (d.view.decide user action target).policyId = none := by
      rw [← heq, hdeny htype]
      rfl
    exact absurd ⟨happly, rfl⟩ (hdecide.unnamed hnone p.displayId effect)

/-- A grant on lineage that starts at a table and ends in a database, with criteria in list form, asked
about lineage in either direction. -/
theorem Request.checkRelationshipBySearch_condition_lineage :
    let p : Policy :=
      { name := "lineage", service := .condition, category := .relationship
        resources := NameMap.ofList [("relationship-type", ["Lin*"])]
        allowItems := [{ accesses := NameSet.ofList ["add-relationship"], users := ["ann"] }]
        criteria := some ("[null, [\"AND\", [[\"__typeName\", \"EQUALS\", \"Table\"]]], " ++
          "[\"OR\", [[\"qualifiedName\", \"STARTS_WITH\", \"db/\"]]]]") }
    let raw : Entity := { guid := "t-1", typeName := "Table" }
    let clean : Entity :=
      { guid := "t-2", typeName := "View"
        attributes := NameMap.ofList [("qualifiedName", .str "db/clean")] }
    let d : Deployment := { policies := .ofPolicies [p], index := [raw, clean] }
    (p.service = .condition ∧ ClauseName.isDenial p.displayId = false ∧ p.HasSearchableEnds ∧
      d.checkCall "relationship access search" "search" "" = .ok ()) ∧
    (∃ d', runOn (checkRelationshipBySearch "ann" "add-relationship" "Lineage" "t-1" "t-2") d =
      (.ok (.grant "lineage"), d')) ∧
    ∃ d', runOn (checkRelationshipBySearch "ann" "add-relationship" "Lineage" "t-2" "t-1") d =
      (.ok (.denial none), d') := by
  intro p raw clean d
  have htype : p.admitsType "ann" "Lineage" = true := by decide
  -- The criteria are read from their text once.
  obtain ⟨hp, hthere, hback⟩ : p.HasSearchableEnds ∧
      d.view.decide "ann" "add-relationship" (.relationship ⟨"Lineage", raw, clean⟩) =
        .grant "lineage" ∧
      d.view.decide "ann" "add-relationship" (.relationship ⟨"Lineage", clean, raw⟩) =
        .denial none := by decide +kernel
  have hraw : raw ∈ d.index := by simp [d]
  have hclean : clean ∈ d.index := by simp [d]
  have hcheck := fun one two hone htwo => (checkRelationshipBySearch_condition p rfl d rfl "ann"
    "add-relationship" "Lineage" one two).2.2 (by decide) hp (by decide) hone htwo rfl
  refine ⟨⟨rfl, by decide, hp, rfl⟩, ?_, ?_⟩
  · obtain ⟨decision, d', hrun, -, htyped, -⟩ := hcheck raw clean hraw hclean
    obtain rfl := (htyped htype).trans hthere
    exact ⟨d', hrun⟩
  · obtain ⟨decision, d', hrun, -, htyped, -⟩ := hcheck clean raw hclean hraw
    obtain rfl := (htyped htype).trans hback
    exact ⟨d', hrun⟩

/-- A grant on lineage by criteria lets a decision allow any other relationship between the same
tables, which the check by search denies. -/
theorem Request.type_ignored_by_decisions :
    let p : Policy :=
      { name := "lineage", service := .condition, category := .relationship
        resources := NameMap.ofList [("relationship-type", ["Lineage"])]
        allowItems := [{ accesses := NameSet.ofList ["add-relationship"], users := ["ann"] }]
        criteria := some ("[null, [\"AND\", [[\"__typeName\", \"EQUALS\", \"Table\"]]], " ++
          "[\"AND\", [[\"__typeName\", \"EQUALS\", \"Table\"]]]]") }
    let table : Entity := { guid := "t-1", typeName := "Table" }
    let d : Deployment := { policies := .ofPolicies [p], index := [table] }
    p ∉ d.view.relationshipPolicies "ann" "add-relationship" "Usage" .allow ∧
      p ∈ d.view.applying "ann" "add-relationship" (.relationship ⟨"Usage", table, table⟩) .allow ∧
      (runOn (checkRelationshipBySearch "ann" "add-relationship" "Usage" "t-1" "t-1") d).1.toOption =
        some (.denial none) ∧
      d.view.decide "ann" "add-relationship" (.relationship ⟨"Usage", table, table⟩) =
        .grant "lineage" := by
  decide +kernel

end CatalogAccess
