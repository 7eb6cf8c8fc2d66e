import CatalogAccess.Proofs.Query.RelationshipCheck

/-!
# What the names of clauses tell

The name of a clause carries the effect of its policy as a suffix of the policy's identifier, and for
relationships the end as a prefix. Both decisions by search read the effect and the identifier off the
names again. They take the first name with the suffix for a denial and drop the suffix as often as it
stands there, so an identifier that itself ends with the suffix is misread, whatever its effect.

`ClauseName.told_iff` says that this is the only way to go wrong: names tell of the policies that they
were made for, on either decoder, exactly for identifiers that do not end with the suffix.
-/

namespace CatalogAccess

open AccessView (End)

/-- A decision tells of the policies found: it denies exactly when one was found to deny, and the
policy that it names was found for the effect that it takes. -/
def Decision.Tells (d : Decision) (found : String → Effect → Prop) : Prop :=
  (d.allowed = false ↔ ∃ id, found id .deny) ∧ ∃ id, d.policyId = some id ∧ found id d.effect

/-- A decision that rests on policies found, of which there are some, tells of them. -/
theorem Decision.RestsOn.tells {d : Decision} {found : String → Effect → Prop}
    (h : d.RestsOn found) (hfound : ∃ id effect, found id effect) : d.Tells found := by
  constructor
  · rw [← Bool.not_eq_true, h.allowed_iff, not_and, not_not]
    constructor
    · intro hdeny
      obtain ⟨id, effect, hid⟩ := hfound
      cases effect with
      | allow => exact hdeny ⟨id, hid⟩
      | deny => exact ⟨id, hid⟩
    · exact fun hdeny _ => hdeny
  · obtain ⟨id, effect, hid⟩ := hfound
    cases hnamed : d.policyId with
    | none => exact absurd hid (h.unnamed hnamed id effect)
    | some id' => exact ⟨id', rfl, h.named id' hnamed⟩

/-- A clause for an end of a relationship, by what its name is made of. -/
structure EndClause where
  /-- The end. -/
  side : End
  /-- The identifier of the policy. -/
  policyId : String
  /-- The effect of the policy. -/
  effect : Effect

/-- The name of a clause for an end. -/
def EndClause.name (c : EndClause) : String :=
  ClauseName.ofPolicy (c.side.stem ++ c.policyId) c.effect

/-- The hit of an entity that matched some clauses. -/
def SearchHit.ofClauses (report : String × List EndClause) : SearchHit :=
  ⟨report.1, report.2.map EndClause.name⟩

/-- An entity of the identifier is reported with the clause of a policy for an end. -/
def ReportedAt (reports : List (String × List EndClause)) (guid : String) (x : End) (id : String)
    (effect : Effect) : Prop :=
  ∃ r ∈ reports, r.1 = guid ∧ ⟨x, id, effect⟩ ∈ r.2

/-- The clauses of a policy for both ends are reported, each with the entity at its end. -/
def ReportedAtBothEnds (reports : List (String × List EndClause)) (guidOne guidTwo id : String)
    (effect : Effect) : Prop :=
  ReportedAt reports guidOne .one id effect ∧ ReportedAt reports guidTwo .two id effect

/-- The names of the hits of an identifier are those of the clauses reported with it. -/
theorem mem_namesOfHits_ofClauses (reports : List (String × List EndClause)) (guid n : String) :
    n ∈ namesOfHits guid (reports.map SearchHit.ofClauses) ↔
      ∃ x effect id, ReportedAt reports guid x id effect ∧
        n = x.stem ++ ClauseName.ofPolicy id effect := by
  simp only [namesOfHits, NameSet.mem_ofList, List.mem_flatMap, List.mem_filter, List.mem_map,
    beq_iff_eq]
  constructor
  · rintro ⟨_, ⟨⟨r, hr, rfl⟩, hguid⟩, hn⟩
    obtain ⟨⟨x, id, effect⟩, hc, rfl⟩ := List.mem_map.1 hn
    exact ⟨x, effect, id, ⟨r, hr, hguid, hc⟩, ClauseName.ofPolicy_stem x id effect⟩
  · rintro ⟨x, effect, id, ⟨r, hr, hguid, hc⟩, rfl⟩
    exact ⟨SearchHit.ofClauses r, ⟨⟨r, hr, rfl⟩, hguid⟩,
      List.mem_map.2 ⟨_, hc, ClauseName.ofPolicy_stem x id effect⟩⟩

/-- Where no identifier ends like the names of denying clauses, a decision by the hits of both ends
rests on the policies reported at both. -/
theorem Decision.ofRelationshipHits_restsOn {reports : List (String × List EndClause)}
    (hids : ∀ r ∈ reports, ∀ c ∈ r.2, ClauseName.isDenial c.policyId = false)
    (guidOne guidTwo : String) :
    (ofRelationshipHits guidOne guidTwo (reports.map SearchHit.ofClauses)).RestsOn
      (ReportedAtBothEnds reports guidOne guidTwo) := by
  have hreported : ∀ guid x effect id, ReportedAt reports guid x id effect →
      ClauseName.isDenial id = false := by
    rintro guid x effect id ⟨r, hr, -, hc⟩
    exact hids r hr _ hc
  have hfinds := policyOfBothEnds_finds (mem_namesOfHits_ofClauses reports guidOne)
    (mem_namesOfHits_ofClauses reports guidTwo) (hreported guidOne) (hreported guidTwo)
  exact ofMatches_restsOn (hfinds .deny) fun _ => hfinds .allow

namespace ClauseName

/-- The name of a grant whose identifier ends with the suffix is taken for a denial. -/
theorem not_tells_of_isDenial {id : String} (h : isDenial id = true) :
    ¬ (Decision.ofNames [ofPolicy id .allow]).Tells fun id' effect => (id', effect) ∈ [(id, .allow)] := by
  intro htells
  have hdenied : (Decision.ofNames [ofPolicy id .allow]).allowed = false := by
    have hfind : [ofPolicy id .allow].find? isDenial = some id := List.find?_cons_of_pos h
    rw [Decision.ofNames_eq_ofMatches, hfind]
    rfl
  obtain ⟨id', hid'⟩ := htells.1.1 hdenied
  simp at hid'

/-- The same holds of the names for both ends of a relationship. -/
theorem not_tells_of_isDenial_ends {id : String} (h : isDenial id = true) (guid : String) :
    let reports := [(guid, [EndClause.mk .one id .allow, EndClause.mk .two id .allow])]
    ¬ (Decision.ofRelationshipHits guid guid (reports.map SearchHit.ofClauses)).Tells
      (ReportedAtBothEnds reports guid guid) := by
  intro reports htells
  have hreported : ∀ x : End, x.stem ++ id ∈ namesOfHits guid (reports.map SearchHit.ofClauses) := by
    intro x
    refine (mem_namesOfHits_ofClauses _ _ _).2 ⟨x, .allow, id, ⟨_, List.mem_singleton_self _, rfl, ?_⟩, rfl⟩
    cases x <;> simp
  have hsome : (policyOfBothEnds (namesOfHits guid (reports.map SearchHit.ofClauses))
      (namesOfHits guid (reports.map SearchHit.ofClauses)) true).isSome :=
    (policyOfBothEnds_spec _ _ _).isSome_iff.2 ⟨_, id, hreported .one, hreported .two, h, rfl⟩
  have hdenied : (Decision.ofRelationshipHits guid guid
      (reports.map SearchHit.ofClauses)).allowed = false := by
    obtain ⟨id', hid'⟩ := Option.isSome_iff_exists.1 hsome
    unfold Decision.ofRelationshipHits
    dsimp only
    rw [hid']
    rfl
  obtain ⟨id', ⟨r, hr, -, hc⟩, -⟩ := htells.1.1 hdenied
  obtain rfl := List.mem_singleton.1 hr
  simp at hc

/-- The names of clauses for policies with certain identifiers tell of these policies and their
effects, whatever they are and however many, exactly when none of the identifiers ends like the names
of denying clauses. So it is for the names that a check of an entity reads, and for those that a check
of a relationship reads off the hits of both ends. -/
theorem told_iff (ids : String → Prop) :
    ((∀ pairs : List (String × Effect), pairs ≠ [] → (∀ p ∈ pairs, ids p.1) →
        (Decision.ofNames (pairs.map fun p => ofPolicy p.1 p.2)).Tells
          fun id effect => (id, effect) ∈ pairs) ↔
      ∀ id, ids id → isDenial id = false) ∧
    ((∀ (reports : List (String × List EndClause)) guidOne guidTwo,
        (∃ id effect, ReportedAtBothEnds reports guidOne guidTwo id effect) →
        (∀ r ∈ reports, ∀ c ∈ r.2, ids c.policyId) →
        (Decision.ofRelationshipHits guidOne guidTwo (reports.map SearchHit.ofClauses)).Tells
          (ReportedAtBothEnds reports guidOne guidTwo)) ↔
      ∀ id, ids id → isDenial id = false) := by
  refine ⟨⟨fun htells id hid => ?_, fun hids pairs hne hpairs => ?_⟩,
    ⟨fun htells id hid => ?_, fun hids reports guidOne guidTwo hfound hreports => ?_⟩⟩
  · by_contra hdenial
    rw [Bool.not_eq_false] at hdenial
    exact not_tells_of_isDenial hdenial (htells [(id, .allow)] (List.cons_ne_nil _ _) (by simpa))
  · refine (Decision.ofNames_restsOn (fun n => ?_) fun effect id hp => hids id (hpairs _ hp)).tells ?_
    · simp only [List.mem_map, Prod.exists]
      constructor
      · rintro ⟨id, effect, hp, rfl⟩
        exact ⟨effect, id, hp, rfl⟩
      · rintro ⟨effect, id, hp, rfl⟩
        exact ⟨id, effect, hp, rfl⟩
    · obtain ⟨⟨id, effect⟩, hp⟩ := List.exists_mem_of_ne_nil _ hne
      exact ⟨id, effect, hp⟩
  · by_contra hdenial
    rw [Bool.not_eq_false] at hdenial
    refine not_tells_of_isDenial_ends hdenial "" (htells _ "" "" ⟨id, .allow, ?_, ?_⟩ ?_)
    · exact ⟨_, List.mem_singleton_self _, rfl, by simp⟩
    · exact ⟨_, List.mem_singleton_self _, rfl, by simp⟩
    · simpa
  · exact (Decision.ofRelationshipHits_restsOn (fun r hr c hc => hids _ (hreports r hr c hc))
      guidOne guidTwo).tells hfound

/-- The names of a policy whose identifier ends with the suffix are read as those of a denial by
another policy, whatever its effect, alone and for both ends of a relationship. -/
theorem suffixed_misread :
    Decision.ofNames [ofPolicy "audit_deny" .allow] = .denial (some "audit") ∧
    Decision.ofNames [ofPolicy "audit_deny" .deny] = .denial (some "audit") ∧
    ∀ effect, Decision.ofRelationshipHits "g1" "g2" ([("g1", [EndClause.mk .one "audit_deny" effect]),
      ("g2", [EndClause.mk .two "audit_deny" effect])].map SearchHit.ofClauses) =
        .denial (some "audit") := by
  refine ⟨by decide, by decide, fun effect => ?_⟩
  cases effect <;> decide

end ClauseName

end CatalogAccess
