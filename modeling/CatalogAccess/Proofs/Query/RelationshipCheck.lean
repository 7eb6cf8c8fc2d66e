import CatalogAccess.Proofs.Query.Ends
import CatalogAccess.Proofs.Query.EntityCheck

/-!
# Checks of relationships by search agree with decisions

`Request.checkRelationshipBySearch` searches for both ends of a relationship and looks for a policy
whose clause for the first end matched one hit and whose clause for the second end matched the other.
`checkRelationshipBySearch_agrees` shows that this allows what `AccessView.decide` allows on the
relationship, also when both ends are one entity.

The name of a clause tells its policy, its effect and its end, so a name of the first end has its
counterpart among the names of the second exactly when both clauses of one policy matched
(`policyOfBothEnds_finds`). For the hits to have the right names it is enough that the clauses of the
ends are accepted and name nothing themselves (`Policy.HaveSilentEnds`); what the clauses match is
another matter, for which more is needed of the policies (`Policy.HaveIndexableEnds`).
-/

namespace CatalogAccess

open AccessView (End endClause?)

variable {e : Entity}

/-- Policies on relationships that the index can serve. -/
structure Policy.HaveIndexableEnds (policies : List Policy) : Prop where
  /-- Each policy by itself is indexable. -/
  each : ∀ p ∈ policies, p.HasIndexableEnds
  /-- A policy is known by its display identifier. -/
  distinct : ∀ p ∈ policies, ∀ q ∈ policies, p.displayId = q.displayId → p = q
  /-- No display identifier ends like the names of denying clauses. -/
  unsuffixed : ∀ p ∈ policies, ClauseName.isDenial p.displayId = false

/-- The clauses of the ends are accepted on every entity and name nothing. -/
def Policy.HaveSilentEnds (policies : List Policy) : Prop :=
  ∀ p ∈ policies, ∀ user x, ∀ c ∈ endClause? p user x, ∀ e, Query.Silent e c

theorem Policy.HaveIndexableEnds.silent {policies : List Policy}
    (h : Policy.HaveIndexableEnds policies) : Policy.HaveSilentEnds policies :=
  fun p hp user x c hc _ => AccessView.endClause_silent (h.each p hp).searchable user x c hc

namespace AccessView

variable {policies : List Policy} {v : AccessView} {user action relationshipType : String}

/-! ### Clauses -/

/-- The policies asked are those relevant to relationships that admit the type. -/
theorem mem_relationshipPolicies {effect : Effect} {p : Policy} :
    p ∈ v.relationshipPolicies user action relationshipType effect ↔
      ∃ service ∈ serviceOrder,
        p ∈ v.relevant (some (v.subjects.resolve user)) action effect .relationship service ∧
          p.admitsType user relationshipType = true := by
  unfold relationshipPolicies
  simp only [List.mem_filter, List.mem_flatMap, Policy.admitsType]
  constructor
  · rintro ⟨⟨service, hservice, hrelevant⟩, htype⟩
    exact ⟨service, hservice, hrelevant, htype⟩
  · rintro ⟨service, hservice, hrelevant, htype⟩
    exact ⟨⟨service, hservice, hrelevant⟩, htype⟩

/-- The clauses of both effects for the ends of relationships of a type. -/
def relationshipClauses (v : AccessView) (user action relationshipType : String) : List Json :=
  [Effect.allow, Effect.deny].flatMap fun effect =>
    (v.relationshipPolicies user action relationshipType effect).flatMap fun p =>
      endClauses p user effect

/-- The clauses are those of the policies asked, under the names of end, policy and effect. -/
theorem mem_relationshipClauses {c : Json} :
    c ∈ v.relationshipClauses user action relationshipType ↔
      ∃ effect, ∃ p ∈ v.relationshipPolicies user action relationshipType effect,
        ∃ x clause, endClause? p user x = some clause ∧
          Query.named (ClauseName.ofPolicy (x.stem ++ p.displayId) effect) clause = c := by
  have heffect : ∀ effect, effect ∈ [Effect.allow, Effect.deny] := by
    intro effect
    cases effect <;> decide
  have hend : ∀ x, x ∈ [End.one, End.two] := by
    intro x
    cases x <;> decide
  unfold relationshipClauses endClauses
  simp only [List.mem_flatMap, List.mem_filterMap, Option.map_eq_some_iff]
  constructor
  · rintro ⟨effect, -, p, hp, x, -, clause, hclause⟩
    exact ⟨effect, p, hp, x, clause, hclause⟩
  · rintro ⟨effect, p, hp, x, clause, hclause⟩
    exact ⟨effect, heffect effect, p, hp, x, hend x, clause, hclause⟩

/-- A policy asked is one of the policies, and none of the data policies. -/
theorem mem_policies_of_relationshipPolicies (hv : v.policies = .ofPolicies policies)
    {effect : Effect} {p : Policy}
    (h : p ∈ v.relationshipPolicies user action relationshipType effect) :
    p ∈ policies ∧ p.service ≠ .data := by
  obtain ⟨service, hservice, hrelevant, -⟩ := mem_relationshipPolicies.1 h
  obtain ⟨hmem, rfl⟩ := mem_policies_of_relevant hv hrelevant
  exact ⟨hmem, ne_data_of_mem_serviceOrder hservice⟩

/-- The clauses are accepted on every entity and name only matches. -/
theorem labelled_relationshipClauses (hv : v.policies = .ofPolicies policies)
    (h : Policy.HaveSilentEnds policies) :
    ∀ c ∈ v.relationshipClauses user action relationshipType, Query.Labelled e c := by
  intro c hc
  obtain ⟨effect, p, hp, x, clause, hclause, rfl⟩ := mem_relationshipClauses.1 hc
  obtain ⟨hmem, -⟩ := mem_policies_of_relationshipPolicies hv hp
  exact Query.labelled_named (h p hmem user x clause hclause e) _

/-- A policy asked for an effect has the identifier, and its clause for the end matches the entity. -/
def EndMatched (v : AccessView) (user action relationshipType : String) (e : Entity) (x : End)
    (id : String) (effect : Effect) : Prop :=
  ∃ p ∈ v.relationshipPolicies user action relationshipType effect,
    (endClause? p user x).any (Query.selects e) = true ∧ p.displayId = id

/-- What the clauses name on an entity: an end, a policy and an effect where the clause of the policy
for that end matches. -/
theorem mem_names_relationshipClauses (hv : v.policies = .ofPolicies policies)
    (h : Policy.HaveSilentEnds policies) {n : String} :
    (∃ c ∈ v.relationshipClauses user action relationshipType, n ∈ (Query.outcome e c).names) ↔
      ∃ x effect id, v.EndMatched user action relationshipType e x id effect ∧
        n = x.stem ++ ClauseName.ofPolicy id effect := by
  constructor
  · rintro ⟨c, hc, hn⟩
    obtain ⟨effect, p, hp, x, clause, hclause, rfl⟩ := mem_relationshipClauses.1 hc
    obtain ⟨hmem, -⟩ := mem_policies_of_relationshipPolicies hv hp
    obtain ⟨hs, rfl⟩ := (Query.mem_names_named (h p hmem user x clause hclause e)).1 hn
    have hany : (endClause? p user x).any (Query.selects e) = true := by
      rw [hclause, Option.any_some, hs]
    exact ⟨x, effect, p.displayId, ⟨p, hp, hany, rfl⟩, ClauseName.ofPolicy_stem x _ effect⟩
  · rintro ⟨x, effect, id, ⟨p, hp, hany, rfl⟩, rfl⟩
    obtain ⟨clause, hclause, hs⟩ := (Option.any_eq_true _ _).1 hany
    obtain ⟨hmem, -⟩ := mem_policies_of_relationshipPolicies hv hp
    exact ⟨_, mem_relationshipClauses.2 ⟨effect, p, hp, x, clause, hclause, rfl⟩,
      (Query.mem_names_named (h p hmem user x clause hclause e)).2
        ⟨hs, (ClauseName.ofPolicy_stem x _ effect).symm⟩⟩

/-- A check query with silent clauses is accepted on every entity; it finds only the entities asked for,
with the names of the clauses. -/
theorem relationshipCheckQuery_reports (hv : v.policies = .ofPolicies policies)
    (h : Policy.HaveSilentEnds policies) (user action relationshipType guidOne guidTwo : String)
    (e : Entity) :
    let q := v.relationshipCheckQuery user action relationshipType guidOne guidTwo
    Query.Accepted e q ∧
      (Query.selects e q = true → e.guid ∈ [guidOne, guidTwo]) ∧
      ∀ n, (Query.selects e q = true ∧ n ∈ (Query.outcome e q).names) ↔
        e.guid ∈ [guidOne, guidTwo] ∧
          ∃ c ∈ v.relationshipClauses user action relationshipType, n ∈ (Query.outcome e c).names := by
  intro q
  have hquery : q = v.checkQuery (v.relationshipClauses user action relationshipType)
      (Query.terms Query.guidField [guidOne, guidTwo]) := rfl
  have hlabelled : ∀ c ∈ v.relationshipClauses user action relationshipType,
      Query.Labelled e c := labelled_relationshipClauses hv h
  -- The ends are picked by their identifiers.
  have hterms : Query.run e (Query.terms Query.guidField [guidOne, guidTwo]) =
      .ok ⟨(e.attributeValues Query.guidField).any [guidOne, guidTwo].contains, []⟩ :=
    Query.run_terms (by decide) _
  have hpick : Query.selects e (Query.terms Query.guidField [guidOne, guidTwo]) = true ↔
      e.guid ∈ [guidOne, guidTwo] := by
    rw [Query.selects_of_run hterms, Entity.attributeValues_guid, List.any_cons, List.any_nil,
      Bool.or_false, List.contains_iff_mem]
  have hsilent : Query.Silent e (Query.terms Query.guidField [guidOne, guidTwo]) :=
    Query.silent_of_run hterms
  have hrun := v.run_checkQuery (fun c hc => (hlabelled c hc).accepted) hsilent
  rw [hquery]
  refine ⟨Query.accepted_of_run hrun, ?_, fun n => ?_⟩
  · rw [Query.selects_of_run hrun, Bool.and_eq_true]
    exact fun hs => hpick.1 hs.2
  · rw [v.mem_names_check hlabelled hsilent, hpick]

/-- A check query is accepted on every entity; it finds only the entities asked for, with the names of
the clauses. -/
theorem relationshipCheckQuery_spec (hv : v.policies = .ofPolicies policies)
    (h : Policy.HaveIndexableEnds policies) (user action relationshipType guidOne guidTwo : String)
    (e : Entity) :
    let q := v.relationshipCheckQuery user action relationshipType guidOne guidTwo
    Query.Accepted e q ∧
      (Query.selects e q = true → e.guid ∈ [guidOne, guidTwo]) ∧
      ∀ n, (Query.selects e q = true ∧ n ∈ (Query.outcome e q).names) ↔
        e.guid ∈ [guidOne, guidTwo] ∧
          ∃ c ∈ v.relationshipClauses user action relationshipType, n ∈ (Query.outcome e c).names :=
  relationshipCheckQuery_reports hv h.silent user action relationshipType guidOne guidTwo e

end AccessView

/-! ### Policies of both ends -/

/-- A policy of both ends is that of a name of the first end which has its counterpart among the names
of the second. -/
theorem policyOfBothEnds_spec (one two : NameSet) (denies : Bool) :
    Finds (policyOfBothEnds one two denies) fun id =>
      ∃ name, End.one.stem ++ name ∈ one ∧ End.two.stem ++ name ∈ two ∧
        ClauseName.isDenial name = denies ∧ ClauseName.policyId name = id := by
  unfold policyOfBothEnds
  constructor
  · intro id h
    obtain ⟨name, hfind, rfl⟩ := Option.map_eq_some_iff.1 h
    obtain ⟨hmem, hdenies⟩ := List.mem_filter.1 (List.mem_of_find?_eq_some hfind)
    obtain ⟨n, hn, hdrop⟩ := List.mem_filterMap.1 hmem
    obtain rfl := Text.dropStart?_eq_some_iff.1 hdrop
    have htwo := List.find?_some hfind
    exact ⟨name, hn, NameSet.contains_iff.1 htwo, beq_iff_eq.1 hdenies, rfl⟩
  · rintro hnone id ⟨name, hone, htwo, hdenies, -⟩
    rw [Option.map_eq_none_iff, List.find?_eq_none] at hnone
    have hmem : name ∈ one.toList.filterMap fun n => Text.dropStart? n Dimension.endOne :=
      List.mem_filterMap.2 ⟨_, hone, Text.dropStart?_eq_some_iff.2 rfl⟩
    exact hnone name (List.mem_filter.2 ⟨hmem, beq_iff_eq.2 hdenies⟩) (NameSet.contains_iff.2 htwo)

/-- Where the names of each end are those of policies whose identifiers do not end like the names of
denying clauses, a policy of both ends is one that has its name at the first end and at the second, for
the effect asked for. -/
theorem policyOfBothEnds_finds {one two : NameSet} {atOne atTwo : End → String → Effect → Prop}
    (hone : ∀ n, n ∈ one ↔
      ∃ x effect id, atOne x id effect ∧ n = x.stem ++ ClauseName.ofPolicy id effect)
    (htwo : ∀ n, n ∈ two ↔
      ∃ x effect id, atTwo x id effect ∧ n = x.stem ++ ClauseName.ofPolicy id effect)
    (hidsOne : ∀ x effect id, atOne x id effect → ClauseName.isDenial id = false)
    (hidsTwo : ∀ x effect id, atTwo x id effect → ClauseName.isDenial id = false)
    (effect : Effect) :
    Finds (policyOfBothEnds one two (effect == .deny)) fun id =>
      atOne .one id effect ∧ atTwo .two id effect := by
  obtain ⟨hsound, hcomplete⟩ := policyOfBothEnds_spec one two (effect == .deny)
  constructor
  · intro id h
    obtain ⟨name, hn, hn', hdenies, rfl⟩ := hsound id h
    obtain ⟨x, effectOne, idOne, hmatchOne, hnameOne⟩ := (hone _).1 hn
    obtain ⟨y, effectTwo, idTwo, hmatchTwo, hnameTwo⟩ := (htwo _).1 hn'
    obtain ⟨rfl, rfl⟩ := AccessView.End.stem_append_inj hnameOne
    obtain ⟨rfl, hsame⟩ := AccessView.End.stem_append_inj hnameTwo
    have hidOne := hidsOne _ _ _ hmatchOne
    -- Both names are those of one policy, for the effect asked for.
    obtain ⟨rfl, rfl⟩ := ClauseName.ofPolicy_inj hidOne (hidsTwo _ _ _ hmatchTwo) hsame
    obtain rfl : effectOne = effect := by
      rw [Bool.eq_iff_iff, ClauseName.isDenial_ofPolicy hidOne, beq_iff_eq] at hdenies
      cases effectOne <;> cases effect <;> simp_all
    rw [ClauseName.policyId_ofPolicy hidOne]
    exact ⟨hmatchOne, hmatchTwo⟩
  · rintro hnone id ⟨hmatchOne, hmatchTwo⟩
    refine hcomplete hnone _ ⟨ClauseName.ofPolicy id effect, (hone _).2 ⟨_, _, _, hmatchOne, rfl⟩,
      (htwo _).2 ⟨_, _, _, hmatchTwo, rfl⟩, ?_, rfl⟩
    rw [Bool.eq_iff_iff, ClauseName.isDenial_ofPolicy (hidsOne _ _ _ hmatchOne), beq_iff_eq]

/-- A policy of both ends is found for an effect exactly when a policy of that effect applies to the
relationship. -/
theorem isSome_policyOfBothEnds_iff_applying {policies : List Policy} {v : AccessView}
    (hv : v.policies = .ofPolicies policies) (h : Policy.HaveIndexableEnds policies)
    {user action : String} (hu : '*' ∉ user.toList) {r : Relationship}
    (hone : r.endOne.HasTextName) (htwo : r.endTwo.HasTextName) {one two : NameSet}
    (hnamesOne : ∀ n, n ∈ one ↔ ∃ c ∈ v.relationshipClauses user action r.relationshipType,
      n ∈ (Query.outcome r.endOne c).names)
    (hnamesTwo : ∀ n, n ∈ two ↔ ∃ c ∈ v.relationshipClauses user action r.relationshipType,
      n ∈ (Query.outcome r.endTwo c).names) (effect : Effect) :
    (policyOfBothEnds one two (effect == .deny)).isSome ↔
      v.applying user action (.relationship r) effect ≠ [] := by
  have happlies : ∀ p ∈ policies, p.service ≠ .data →
      p.appliesTo p.service user (.relationship r) =
        (p.admitsType user r.relationshipType &&
          (endClause? p user .one).any (Query.selects r.endOne) &&
          (endClause? p user .two).any (Query.selects r.endTwo)) := fun p hp hs =>
    AccessView.appliesTo_eq_endClauses (h.each p hp) hs hone htwo hu
  have hids : ∀ e x effect id, v.EndMatched user action r.relationshipType e x id effect →
      ClauseName.isDenial id = false := by
    rintro e x effect id ⟨p, hp, -, rfl⟩
    exact h.unsuffixed p (AccessView.mem_policies_of_relationshipPolicies hv hp).1
  have hfinds := policyOfBothEnds_finds
    (fun n => (hnamesOne n).trans (AccessView.mem_names_relationshipClauses hv h.silent))
    (fun n => (hnamesTwo n).trans (AccessView.mem_names_relationshipClauses hv h.silent))
    (hids r.endOne) (hids r.endTwo) effect
  rw [hfinds.isSome_iff]
  constructor
  · rintro ⟨id, ⟨p, hp, hclauseOne, hpid⟩, ⟨q, hq, hclauseTwo, hqid⟩⟩
    obtain ⟨hpmem, hpdata⟩ := AccessView.mem_policies_of_relationshipPolicies hv hp
    obtain ⟨hqmem, -⟩ := AccessView.mem_policies_of_relationshipPolicies hv hq
    -- The identifier is that of one policy.
    obtain rfl := h.distinct p hpmem q hqmem (hpid.trans hqid.symm)
    obtain ⟨service, hservice, hrelevant, htype⟩ := AccessView.mem_relationshipPolicies.1 hp
    obtain ⟨-, rfl⟩ := AccessView.mem_policies_of_relevant hv hrelevant
    have hboth : p.appliesTo p.service user (.relationship r) = true := by
      rw [happlies p hpmem hpdata, htype, hclauseOne, hclauseTwo]
      rfl
    exact List.ne_nil_of_mem (AccessView.mem_applying_iff.2 ⟨p.service, hservice, hrelevant, hboth⟩)
  · intro hne
    obtain ⟨p, hp⟩ := List.exists_mem_of_ne_nil _ hne
    obtain ⟨service, hservice, hrelevant, hboth⟩ := AccessView.mem_applying_iff.1 hp
    obtain ⟨hmem, rfl⟩ := AccessView.mem_policies_of_relevant hv hrelevant
    rw [happlies p hmem (AccessView.ne_data_of_mem_serviceOrder hservice), Bool.and_eq_true,
      Bool.and_eq_true] at hboth
    obtain ⟨⟨htype, hclauseOne⟩, hclauseTwo⟩ := hboth
    have hasked := AccessView.mem_relationshipPolicies.2 ⟨p.service, hservice, hrelevant, htype⟩
    exact ⟨p.displayId, ⟨p, hasked, hclauseOne, rfl⟩, ⟨p, hasked, hclauseTwo, rfl⟩⟩

/-! ### Checks -/

/-- Where nothing denies, a grant allows. -/
theorem Decision.allowed_ofMatches {denying granting : Option String} :
    (ofMatches denying granting).allowed = true ↔ granting.isSome ∧ ¬ denying.isSome := by
  cases denying <;> cases granting <;> simp [ofMatches, denial, grant]

/-- Where each identifier is indexed once, a check by search of two indexed ends rests on the policies
asked whose clause for each end matches the entity at that end. -/
theorem Request.checkRelationshipBySearch_restsOn {policies : List Policy}
    (h : Policy.HaveSilentEnds policies)
    (hids : ∀ p ∈ policies, ClauseName.isDenial p.displayId = false)
    {d : Deployment} (hd : d.policies = .ofPolicies policies)
    (hguids : d.index.Pairwise fun a b => a.guid ≠ b.guid)
    (hcall : d.checkCall "relationship access search" "search" "" = .ok ())
    (user action relationshipType : String) {one two : Entity} (hone : one ∈ d.index)
    (htwo : two ∈ d.index) :
    ∃ decision, runOn (checkRelationshipBySearch user action relationshipType one.guid two.guid) d =
        (.ok decision, d.record user action
          (relationshipType ++ "(" ++ one.guid ++ " -> " ++ two.guid ++ ")") decision) ∧
      decision.RestsOn fun id effect =>
        d.view.EndMatched user action relationshipType one .one id effect ∧
          d.view.EndMatched user action relationshipType two .two id effect := by
  have hquery := AccessView.relationshipCheckQuery_reports (v := d.view) hd h user action
    relationshipType one.guid two.guid
  have hsearch := searchDocuments_all hguids (fun e _ => (hquery e).1) [one.guid, two.guid]
    (fun e _ => (hquery e).2.1) (Nat.le_refl 2)
  rw [← Deployment.searchWithin_of_checkCall hcall] at hsearch
  refine ⟨_, runOn_check (fun d => d.searchWithin "relationship access search"
      (d.view.relationshipCheckQuery user action relationshipType one.guid two.guid) 2)
    (Decision.ofRelationshipHits one.guid two.guid) user action _ hsearch, ?_⟩
  -- The hits of an end report the names of the clauses that its entity matches.
  have hnames : ∀ e ∈ d.index, e.guid ∈ [one.guid, two.guid] → ∀ n,
      n ∈ namesOfHits e.guid (Query.hits (d.view.relationshipCheckQuery user action
          relationshipType one.guid two.guid) d.index) ↔
        ∃ x effect id, d.view.EndMatched user action relationshipType e x id effect ∧
          n = x.stem ++ ClauseName.ofPolicy id effect := by
    intro e he hpicked n
    rw [mem_namesOfHits, ← AccessView.mem_names_relationshipClauses (v := d.view) hd h]
    constructor
    · rintro ⟨e', he', hguid, hfound⟩
      obtain rfl := eq_of_guid_eq hguids he' he hguid
      exact (((hquery e').2.2 n).1 hfound).2
    · intro hclause
      exact ⟨e, he, rfl, ((hquery e).2.2 n).2 ⟨hpicked, hclause⟩⟩
  have hunsuffixed : ∀ e x effect id, d.view.EndMatched user action relationshipType e x id effect →
      ClauseName.isDenial id = false := by
    rintro e x effect id ⟨p, hp, -, rfl⟩
    exact hids p (AccessView.mem_policies_of_relationshipPolicies (v := d.view) hd hp).1
  have hfinds := policyOfBothEnds_finds (hnames one hone (by simp)) (hnames two htwo (by simp))
    (hunsuffixed one) (hunsuffixed two)
  exact Decision.ofMatches_restsOn (hfinds .deny) fun _ => hfinds .allow

/-- Where each identifier is indexed once, a check by search of two indexed ends allows an action
exactly when the decision on the relationship does. -/
theorem Request.checkRelationshipBySearch_agrees (policies : List Policy)
    (h : Policy.HaveIndexableEnds policies)
    (d : Deployment) (hd : d.policies = .ofPolicies policies)
    (hguids : d.index.Pairwise fun a b => a.guid ≠ b.guid)
    (hcall : d.checkCall "relationship access search" "search" "" = .ok ())
    (user : String) (hu : '*' ∉ user.toList) (action relationshipType : String)
    (one two : Entity) (hone : one ∈ d.index) (htwo : two ∈ d.index)
    (hnameOne : one.HasTextName) (hnameTwo : two.HasTextName) :
    ∃ decision d',
      runOn (checkRelationshipBySearch user action relationshipType one.guid two.guid) d =
        (.ok decision, d') ∧
      decision.allowed =
        (d.view.decide user action (.relationship ⟨relationshipType, one, two⟩)).allowed := by
  have hquery := AccessView.relationshipCheckQuery_spec (v := d.view) hd h user action
    relationshipType one.guid two.guid
  have hsearch := searchDocuments_all hguids (fun e _ => (hquery e).1) [one.guid, two.guid]
    (fun e _ => (hquery e).2.1) (Nat.le_refl 2)
  rw [← Deployment.searchWithin_of_checkCall hcall] at hsearch
  have hrun := runOn_check (fun d => d.searchWithin "relationship access search"
      (d.view.relationshipCheckQuery user action relationshipType one.guid two.guid) 2)
    (Decision.ofRelationshipHits one.guid two.guid) user action
    (relationshipType ++ "(" ++ one.guid ++ " -> " ++ two.guid ++ ")") hsearch
  refine ⟨_, _, hrun, ?_⟩
  -- The hits of an end report the names of the clauses that its entity matches.
  have hnames : ∀ e ∈ d.index, e.guid ∈ [one.guid, two.guid] → ∀ n,
      n ∈ namesOfHits e.guid (Query.hits (d.view.relationshipCheckQuery user action
          relationshipType one.guid two.guid) d.index) ↔
        ∃ c ∈ d.view.relationshipClauses user action relationshipType,
          n ∈ (Query.outcome e c).names := by
    intro e he hpicked n
    rw [mem_namesOfHits]
    constructor
    · rintro ⟨e', he', hguid, hfound⟩
      obtain rfl := eq_of_guid_eq hguids he' he hguid
      exact (((hquery e').2.2 n).1 hfound).2
    · intro hclause
      exact ⟨e, he, rfl, ((hquery e).2.2 n).2 ⟨hpicked, hclause⟩⟩
  -- A policy of both ends is found for the effects of the policies that apply.
  have hfound : ∀ effect, (policyOfBothEnds _ _ (effect == .deny)).isSome ↔
      d.view.applying user action (.relationship ⟨relationshipType, one, two⟩) effect ≠ [] :=
    isSome_policyOfBothEnds_iff_applying (v := d.view) hd h hu hnameOne hnameTwo
      (hnames one hone (by simp)) (hnames two htwo (by simp))
  have hdeny := not_congr (hfound .deny)
  rw [ne_eq, Decidable.not_not] at hdeny
  rw [Bool.eq_iff_iff, AccessView.decide_allowed_iff, ← hfound .allow, ← hdeny]
  exact Decision.allowed_ofMatches

/-- A grant on relationships that start at a table of the requesting user and a denial where the second
end has a classification, for a table related to itself and for two tables in either order. -/
theorem Request.checkRelationshipBySearch_agrees_own_tables :
    let policies : List Policy :=
      [{ name := "own-first", service := .resource, category := .relationship
         resources := NameMap.ofList [("relationship-type", ["Lineage"]),
           ("end-one-entity", ["db/\x7bUSER\x7d/*"]), ("end-two-entity-type", ["Table"])]
         allowItems := [{ accesses := NameSet.ofList ["add-relationship"], users := ["ann"] }] },
       { name := "no-pii-second", service := .tag, category := .relationship
         resources := NameMap.ofList [("end-two-entity-classification", ["PII*"])]
         denyItems := [{ accesses := NameSet.ofList ["add-relationship"], users := ["ann"] }] }]
    let plain : Entity :=
      { guid := "t-1", typeName := "Table"
        attributes := NameMap.ofList [("qualifiedName", .str "db/ann/t")] }
    let tagged : Entity := { plain with guid := "t-2", classifications := [⟨"PII-email", none⟩] }
    let d : Deployment :=
      { clauseLimit := 1, policies := .ofPolicies policies, index := [tagged, plain] }
    let check := fun one two =>
      runOn (checkRelationshipBySearch "ann" "add-relationship" "Lineage" one two) d
    Policy.HaveIndexableEnds policies ∧
      (∃ decision d', check "t-1" "t-1" = (.ok decision, d') ∧ decision.allowed = true) ∧
      (∃ decision d', check "t-2" "t-1" = (.ok decision, d') ∧ decision.allowed = true) ∧
      ∃ decision d', check "t-1" "t-2" = (.ok decision, d') ∧ decision.allowed = false := by
  intro policies plain tagged d check
  have h : Policy.HaveIndexableEnds policies := by
    constructor
    · intro p hp
      simp only [policies, List.mem_cons, List.not_mem_nil, or_false] at hp
      rcases hp with rfl | rfl
      · exact ⟨by decide, by decide, fun x => by cases x <;> decide, fun c x t hc =>
          absurd hc (Option.some_ne_none c).symm⟩
      · exact ⟨by decide, by decide, fun x => by cases x <;> decide, fun c x t hc =>
          absurd hc (Option.some_ne_none c).symm⟩
    · decide
    · decide
  have hname : ∀ v, plain.attributes.get? Entity.qualifiedNameAttribute = some v →
      ∃ s, v = .str s := by
    intro v hv
    exact ⟨"db/ann/t", (Option.some.inj hv).symm⟩
  have hindexed : ∀ e ∈ d.index, e.HasTextName := by
    intro e he
    simp only [d, List.mem_cons, List.not_mem_nil, or_false] at he
    rcases he with rfl | rfl
    · exact hname
    · exact hname
  have hagrees := fun one two hone htwo => checkRelationshipBySearch_agrees policies h d rfl
    (by decide) rfl "ann" (by decide) "add-relationship" "Lineage" one two hone htwo
    (hindexed one hone) (hindexed two htwo)
  have hplain : plain ∈ d.index := by simp [d]
  have htagged : tagged ∈ d.index := by simp [d]
  refine ⟨h, ?_, ?_, ?_⟩
  · obtain ⟨decision, d', hrun, hallowed⟩ := hagrees plain plain hplain hplain
    exact ⟨decision, d', hrun, hallowed.trans (by decide)⟩
  · obtain ⟨decision, d', hrun, hallowed⟩ := hagrees tagged plain htagged hplain
    exact ⟨decision, d', hrun, hallowed.trans (by decide)⟩
  · obtain ⟨decision, d', hrun, hallowed⟩ := hagrees plain tagged hplain htagged
    exact ⟨decision, d', hrun, hallowed.trans (by decide)⟩

end CatalogAccess
