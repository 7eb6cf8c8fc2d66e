import CatalogAccess.Proofs.Query.Hits

/-!
# Checks of entities by search agree with decisions

`Request.checkBySearch` searches for an entity by its identifier and reads the decision off the names
of the clauses that it matched. `checkBySearch_agrees` shows that this is the decision that
`AccessView.decide` takes on the entity, whatever else is indexed, and that the policy named is one
that matches with the deciding effect.

The names of the hit are those of the policies that apply, of both effects (`mem_names_entityClauses`),
and a decision depends on nothing else (`Decision.ofNames_spec`). Which of several policies is named
may differ: names are reported in their own order.
-/

namespace CatalogAccess

variable {e : Entity}

/-! ### Decisions by names -/

/-- The effect of the policies that a decision rests on. -/
def Decision.effect (d : Decision) : Effect := if d.allowed then .allow else .deny

/-- A decision rests on the policies found for each effect: it allows when one was found to grant and
none to deny, the policy that it names was found for its own effect, and it names none only where
nothing was found. -/
structure Decision.RestsOn (d : Decision) (found : String → Effect → Prop) : Prop where
  /-- A grant is needed, and no denial may stand against it. -/
  allowed_iff : d.allowed = true ↔ (∃ id, found id .allow) ∧ ¬ ∃ id, found id .deny
  /-- The policy named was found for the effect of the decision. -/
  named : ∀ id, d.policyId = some id → found id d.effect
  /-- Where a policy was found, one is named. -/
  unnamed : d.policyId = none → ∀ id effect, ¬ found id effect

/-- A search finds an identifier when there is one: what it finds satisfies the predicate, and it finds
nothing only where nothing does. -/
structure Finds (o : Option String) (wanted : String → Prop) : Prop where
  /-- What is found is wanted. -/
  sound : ∀ id, o = some id → wanted id
  /-- What is wanted is found. -/
  complete : o = none → ∀ id, ¬ wanted id

theorem Finds.isSome_iff {o : Option String} {wanted : String → Prop} (h : Finds o wanted) :
    o.isSome ↔ ∃ id, wanted id := by
  cases ho : o with
  | some id => simpa using ⟨id, h.sound id ho⟩
  | none => simpa using h.complete ho

/-- A decision by the first to deny and the first to grant rests on what denies and grants. What grants
has to be found only where nothing denies. -/
theorem Decision.ofMatches_restsOn {denying granting : Option String}
    {found : String → Effect → Prop} (hdeny : Finds denying (found · .deny))
    (hallow : denying = none → Finds granting (found · .allow)) :
    (ofMatches denying granting).RestsOn found := by
  cases denying with
  | some id =>
    have hid : found id .deny := hdeny.sound id rfl
    refine ⟨?_, fun id' h => ?_, fun h => absurd h (Option.some_ne_none id)⟩
    · simp only [ofMatches, denial, Bool.false_eq_true, false_iff, not_and, not_not]
      exact fun _ => ⟨id, hid⟩
    · obtain rfl : id = id' := Option.some.inj h
      exact hid
  | none =>
    have hnone : ∀ id, ¬ found id .deny := hdeny.complete rfl
    cases granting with
    | some id =>
      have hid : found id .allow := (hallow rfl).sound id rfl
      refine ⟨?_, fun id' h => ?_, fun h => absurd h (Option.some_ne_none id)⟩
      · simp only [ofMatches, grant, true_iff]
        exact ⟨⟨id, hid⟩, not_exists.2 hnone⟩
      · obtain rfl : id = id' := Option.some.inj h
        exact hid
    | none =>
      have hnone' : ∀ id, ¬ found id .allow := (hallow rfl).complete rfl
      refine ⟨?_, fun id h => absurd h.symm (Option.some_ne_none id), fun _ id effect => ?_⟩
      · simp only [ofMatches, denial, Bool.false_eq_true, false_iff, not_and]
        exact fun hgranted => absurd hgranted (not_exists.2 hnone')
      · cases effect with
        | allow => exact hnone' id
        | deny => exact hnone id

/-- The names are told apart by their suffix, and the first of each sort counts. -/
theorem Decision.ofNames_eq_ofMatches (names : List String) :
    ofNames names =
      ofMatches ((names.find? ClauseName.isDenial).map ClauseName.policyId) names.head? := by
  unfold ofNames
  cases names.find? ClauseName.isDenial <;> cases names.head? <;> rfl

/-- Where the names are those of policies whose identifiers do not end like the names of denying
clauses, the decision rests on these policies. -/
theorem Decision.ofNames_restsOn {names : List String} {found : String → Effect → Prop}
    (hnames : ∀ n, n ∈ names ↔ ∃ effect id, found id effect ∧ n = ClauseName.ofPolicy id effect)
    (hids : ∀ effect id, found id effect → ClauseName.isDenial id = false) :
    (ofNames names).RestsOn found := by
  rw [ofNames_eq_ofMatches]
  refine ofMatches_restsOn ⟨?_, ?_⟩ fun hnone => ⟨?_, ?_⟩
  · intro id h
    obtain ⟨n, hfind, rfl⟩ := Option.map_eq_some_iff.1 h
    obtain ⟨effect, id, hfound, rfl⟩ := (hnames n).1 (List.mem_of_find?_eq_some hfind)
    have hid := hids effect id hfound
    obtain rfl := (ClauseName.isDenial_ofPolicy hid effect).1 (List.find?_some hfind)
    rw [ClauseName.policyId_ofPolicy hid]
    exact hfound
  · intro hnone id hfound
    have hdenial := (ClauseName.isDenial_ofPolicy (hids .deny id hfound) .deny).2 rfl
    rw [Option.map_eq_none_iff, List.find?_eq_none] at hnone
    exact hnone _ ((hnames _).2 ⟨.deny, id, hfound, rfl⟩) hdenial
  · intro n hhead
    rw [Option.map_eq_none_iff, List.find?_eq_none] at hnone
    -- No name is that of a denying clause, so the first is the identifier of a grant.
    have hmem : n ∈ names := List.mem_of_mem_head? hhead
    obtain ⟨effect, id, hfound, rfl⟩ := (hnames n).1 hmem
    cases effect with
    | allow => exact hfound
    | deny =>
      have hdenial := (ClauseName.isDenial_ofPolicy (hids .deny id hfound) .deny).2 rfl
      exact absurd hdenial (hnone _ hmem)
  · intro hhead id hfound
    have hmem := (hnames _).2 ⟨.allow, id, hfound, rfl⟩
    rw [List.head?_eq_none_iff.1 hhead] at hmem
    exact List.not_mem_nil hmem

/-- Where the names are those of the policies that apply, a denial rests on one that denies, and
without one a grant rests on one that grants. -/
theorem Decision.ofNames_spec {names : List String} {applying : Effect → List Policy}
    (hnames : ∀ n, n ∈ names ↔
      ∃ effect, ∃ p ∈ applying effect, n = ClauseName.ofPolicy p.displayId effect)
    (hids : ∀ effect, ∀ p ∈ applying effect, ClauseName.isDenial p.displayId = false) :
    ((ofNames names).allowed = true ↔ applying .allow ≠ [] ∧ applying .deny = []) ∧
      ∀ id, (ofNames names).policyId = some id →
        ∃ p ∈ applying (ofNames names).effect, p.displayId = id := by
  have hrests : (ofNames names).RestsOn fun id effect => ∃ p ∈ applying effect, p.displayId = id := by
    refine ofNames_restsOn (fun n => ?_) ?_
    · rw [hnames]
      constructor
      · rintro ⟨effect, p, hp, rfl⟩
        exact ⟨effect, p.displayId, ⟨p, hp, rfl⟩, rfl⟩
      · rintro ⟨effect, id, ⟨p, hp, rfl⟩, rfl⟩
        exact ⟨effect, p, hp, rfl⟩
    · rintro effect id ⟨p, hp, rfl⟩
      exact hids effect p hp
  have hfound : ∀ effect, (∃ id, ∃ p ∈ applying effect, p.displayId = id) ↔ applying effect ≠ [] := by
    intro effect
    constructor
    · rintro ⟨id, p, hp, -⟩
      exact List.ne_nil_of_mem hp
    · intro hne
      obtain ⟨p, hp⟩ := List.exists_mem_of_ne_nil _ hne
      exact ⟨p.displayId, p, hp, rfl⟩
  refine ⟨?_, hrests.named⟩
  rw [hrests.allowed_iff, hfound, hfound, not_not]

namespace AccessView

variable {policies : List Policy}

/-! ### Clauses -/

/-- The clauses of an effect are accepted on every entity and name only matches. -/
theorem labelled_entityClauses {v : AccessView} (hv : v.policies = .ofPolicies policies)
    (h : Policy.AreIndexable policies) (user : String) (actions : List String) (effect : Effect) :
    ∀ c ∈ v.entityClauses user actions effect, Query.Labelled e c := by
  intro c hc
  obtain ⟨service, -, p, ⟨_, -, hrelevant⟩, clause, hclause, rfl⟩ := (mem_entityClauses hv h).1 hc
  obtain ⟨hmem, -⟩ := mem_policies_of_relevant hv hrelevant
  exact Query.labelled_named (entityClause_silent (h.each p hmem) user clause hclause) _

/-- The clauses of an effect name the policies of that effect that apply. -/
theorem mem_names_entityClauses {v : AccessView} (hv : v.policies = .ofPolicies policies)
    (h : Policy.AreIndexable policies) (he : e.HasTextName) {user : String}
    (hu : '*' ∉ user.toList) {action : String} {effect : Effect} {n : String} :
    (∃ c ∈ v.entityClauses user [action] effect, n ∈ (Query.outcome e c).names) ↔
      ∃ p ∈ v.applying user action (.entity e) effect,
        n = ClauseName.ofPolicy p.displayId effect := by
  constructor
  · rintro ⟨c, hc, hn⟩
    obtain ⟨service, hservice, p, ⟨action', haction, hrelevant⟩, clause, hclause, rfl⟩ :=
      (mem_entityClauses hv h).1 hc
    obtain rfl := List.mem_singleton.1 haction
    obtain ⟨hmem, rfl⟩ := mem_policies_of_relevant hv hrelevant
    have hsilent : Query.Silent e clause := entityClause_silent (h.each p hmem) user clause hclause
    obtain ⟨hs, rfl⟩ := (Query.mem_names_named hsilent).1 hn
    have happlies := entityClause_selects (h.each p hmem) (ne_data_of_mem_serviceOrder hservice) he hu
    rw [hclause, Option.any_some, hs] at happlies
    exact ⟨p, mem_applying_iff.2 ⟨p.service, hservice, hrelevant, happlies.symm⟩, rfl⟩
  · rintro ⟨p, hp, rfl⟩
    obtain ⟨service, hservice, hrelevant, happlies⟩ := mem_applying_iff.1 hp
    obtain ⟨hmem, rfl⟩ := mem_policies_of_relevant hv hrelevant
    rw [← entityClause_selects (h.each p hmem) (ne_data_of_mem_serviceOrder hservice) he hu,
      Option.any_eq_true] at happlies
    obtain ⟨clause, hclause, hs⟩ := happlies
    have hsilent : Query.Silent e clause := entityClause_silent (h.each p hmem) user clause hclause
    exact ⟨_, (mem_entityClauses hv h).2
      ⟨p.service, hservice, p, ⟨action, List.mem_singleton_self _, hrelevant⟩, clause, hclause, rfl⟩,
      (Query.mem_names_named hsilent).2 ⟨hs, rfl⟩⟩

/-- A check query is accepted on every entity; it finds only the entity asked for, with the names of
the clauses of both effects. -/
theorem entityCheckQuery_spec {v : AccessView} (hv : v.policies = .ofPolicies policies)
    (h : Policy.AreIndexable policies) (user guid action : String) (e : Entity) :
    Query.Accepted e (v.entityCheckQuery user guid action) ∧
      (Query.selects e (v.entityCheckQuery user guid action) = true → e.guid = guid) ∧
      ∀ n, (Query.selects e (v.entityCheckQuery user guid action) = true ∧
          n ∈ (Query.outcome e (v.entityCheckQuery user guid action)).names) ↔
        e.guid = guid ∧ ∃ effect, ∃ c ∈ v.entityClauses user [action] effect,
          n ∈ (Query.outcome e c).names := by
  have hquery : v.entityCheckQuery user guid action =
      v.checkQuery (v.entityClauses user [action] .allow ++ v.entityClauses user [action] .deny)
        (Query.term Query.guidField guid) := rfl
  have hlabelled : ∀ c ∈ v.entityClauses user [action] .allow ++
      v.entityClauses user [action] .deny, Query.Labelled e c := by
    intro c hc
    rcases List.mem_append.1 hc with hc | hc
    · exact labelled_entityClauses hv h user [action] .allow c hc
    · exact labelled_entityClauses hv h user [action] .deny c hc
  -- The entity is picked by its identifier.
  have hterm : Query.run e (Query.term Query.guidField guid) =
      .ok ⟨(e.attributeValues Query.guidField).contains guid, []⟩ :=
    Query.run_term (by decide) guid
  have hpick : Query.selects e (Query.term Query.guidField guid) = true ↔ e.guid = guid := by
    rw [Query.selects_of_run hterm, Entity.attributeValues_guid, List.contains_iff_mem,
      List.mem_singleton, eq_comm]
  have hsilent : Query.Silent e (Query.term Query.guidField guid) := Query.silent_of_run hterm
  have hrun := v.run_checkQuery (fun c hc => (hlabelled c hc).accepted) hsilent
  rw [hquery]
  refine ⟨Query.accepted_of_run hrun, ?_, fun n => ?_⟩
  · rw [Query.selects_of_run hrun, Bool.and_eq_true]
    exact fun hs => hpick.1 hs.2
  · rw [v.mem_names_check hlabelled hsilent, hpick]
    refine and_congr_right fun _ => ?_
    constructor
    · rintro ⟨c, hc, hn⟩
      rcases List.mem_append.1 hc with hc | hc
      · exact ⟨.allow, c, hc, hn⟩
      · exact ⟨.deny, c, hc, hn⟩
    · rintro ⟨effect, c, hc, hn⟩
      refine ⟨c, List.mem_append.2 ?_, hn⟩
      cases effect with
      | allow => exact .inl hc
      | deny => exact .inr hc

/-- What applies is one of the policies, and matches. -/
theorem matches_of_mem_applying {v : AccessView} (hv : v.policies = .ofPolicies policies)
    {user action : String} {t : Target} {effect : Effect} {p : Policy}
    (h : p ∈ v.applying user action t effect) :
    p ∈ policies ∧ p.Matches p.service v.subjects user action t effect := by
  obtain ⟨service, -, hrelevant, happlies⟩ := mem_applying_iff.1 h
  obtain ⟨hmem, rfl⟩ := mem_policies_of_relevant hv hrelevant
  have hadmits : (v.relevance user action t effect p.service).admits p = true :=
    (List.mem_filter.1 hrelevant).2
  exact ⟨hmem, relevance_iff_matches.1 (by rw [hadmits, happlies]; rfl)⟩

end AccessView

/-! ### Checks -/

/-- The names that the first hit of an identifier reports. -/
def namesOfFirstHit (guid : String) (hits : List SearchHit) : List String :=
  ((hits.find? (·.guid == guid)).map SearchHit.matchedQueries).getD []

/-- The first hit of an identifier reports the names of the indexed entity selected. -/
theorem mem_namesOfFirstHit {index : List Entity}
    (hguids : index.Pairwise fun a b => a.guid ≠ b.guid) {q : Json} {guid n : String} :
    n ∈ namesOfFirstHit guid (Query.hits q index) ↔
      ∃ d ∈ index, d.guid = guid ∧ Query.selects d q = true ∧ n ∈ (Query.outcome d q).names := by
  rw [namesOfFirstHit, Query.hits, List.find?_map]
  cases hfind : (index.filter (Query.selects · q)).find?
      ((fun hit => hit.guid == guid) ∘ SearchHit.of q) with
  | none =>
    simp only [Option.map_none, Option.getD_none, List.not_mem_nil, false_iff]
    rintro ⟨d, hd, hguid, hs, -⟩
    have hmiss := List.find?_eq_none.1 hfind d (List.mem_filter.2 ⟨hd, hs⟩)
    exact hmiss (beq_iff_eq.2 hguid)
  | some d =>
    obtain ⟨hd, hs⟩ := List.mem_filter.1 (List.mem_of_find?_eq_some hfind)
    have hfound := List.find?_some hfind
    have hguid : d.guid = guid := beq_iff_eq.1 hfound
    have hnames : n ∈ (SearchHit.of q d).matchedQueries ↔ n ∈ (Query.outcome d q).names :=
      NameSet.mem_ofList
    simp only [Option.map_some, Option.getD_some, hnames]
    constructor
    · intro hn
      exact ⟨d, hd, hguid, hs, hn⟩
    · rintro ⟨d', hd', hguid', -, hn⟩
      obtain rfl := eq_of_guid_eq hguids hd' hd (hguid'.trans hguid.symm)
      exact hn

/-- Where each identifier is indexed once, a check by search of an indexed entity allows an action
exactly when the decision on the entity does, and the policy that it names matches the entity with
the effect of the outcome. An entity that is not indexed is denied without a policy. -/
theorem Request.checkBySearch_agrees (policies : List Policy) (h : Policy.AreIndexable policies)
    (hids : ∀ p ∈ policies, ClauseName.isDenial p.displayId = false)
    (d : Deployment) (hd : d.policies = .ofPolicies policies)
    (hguids : d.index.Pairwise fun a b => a.guid ≠ b.guid)
    (hcall : d.checkCall "access search" "search" "" = .ok ())
    (user : String) (hu : '*' ∉ user.toList) (guid action : String) :
    ∃ decision, runOn (checkBySearch user guid action) d =
        (.ok decision, d.record user action guid decision) ∧
      (∀ e ∈ d.index, e.guid = guid → e.HasTextName →
        decision.allowed = (d.view.decide user action (.entity e)).allowed ∧
        ∀ id, decision.policyId = some id → ∃ p ∈ policies, p.displayId = id ∧
          p.Matches p.service d.subjects user action (.entity e) decision.effect) ∧
      ((∀ e ∈ d.index, e.guid ≠ guid) → decision = .denial none) := by
  have hquery := AccessView.entityCheckQuery_spec (v := d.view) hd h user guid action
  have hsearch := searchDocuments_all hguids (fun e _ => (hquery e).1) [guid]
    (fun e _ hs => List.mem_singleton.2 ((hquery e).2.1 hs)) (Nat.le_refl 1)
  rw [← Deployment.searchWithin_of_checkCall hcall] at hsearch
  have hrun := runOn_check
    (fun d => d.searchWithin "access search" (d.view.entityCheckQuery user guid action) 1)
    (Decision.ofEntityHits guid) user action guid hsearch
  refine ⟨_, hrun, ?_, ?_⟩
  · rintro e he rfl hname
    -- The names of the hit are those of the policies that apply.
    have hnames : ∀ n, n ∈ namesOfFirstHit e.guid
          (Query.hits (d.view.entityCheckQuery user e.guid action) d.index) ↔
        ∃ effect, ∃ p ∈ d.view.applying user action (.entity e) effect,
          n = ClauseName.ofPolicy p.displayId effect := by
      intro n
      rw [mem_namesOfFirstHit hguids]
      constructor
      · rintro ⟨e', he', hguid, hfound⟩
        obtain rfl := eq_of_guid_eq hguids he' he hguid
        obtain ⟨-, effect, hclause⟩ := ((hquery e').2.2 n).1 hfound
        exact ⟨effect, (AccessView.mem_names_entityClauses hd h hname hu).1 hclause⟩
      · rintro ⟨effect, happlies⟩
        exact ⟨e, he, rfl, ((hquery e).2.2 n).2
          ⟨rfl, effect, (AccessView.mem_names_entityClauses hd h hname hu).2 happlies⟩⟩
    have happlying : ∀ effect, ∀ p ∈ d.view.applying user action (.entity e) effect,
        p ∈ policies ∧ p.Matches p.service d.subjects user action (.entity e) effect :=
      fun effect p hp => AccessView.matches_of_mem_applying hd hp
    obtain ⟨hallowed, hid⟩ := Decision.ofNames_spec hnames fun effect p hp =>
      hids p (happlying effect p hp).1
    constructor
    · rw [Bool.eq_iff_iff, AccessView.decide_allowed_iff]
      exact hallowed
    · intro id hpolicy
      obtain ⟨p, hp, hdisplay⟩ := hid id hpolicy
      exact ⟨p, (happlying _ p hp).1, hdisplay, (happlying _ p hp).2⟩
  · intro hnone
    -- No hit has the identifier, so there are no names to decide by.
    have hnil : namesOfFirstHit guid
        (Query.hits (d.view.entityCheckQuery user guid action) d.index) = [] := by
      refine List.eq_nil_iff_forall_not_mem.2 fun n hn => ?_
      obtain ⟨e, he, hguid, -⟩ := (mem_namesOfFirstHit hguids).1 hn
      exact hnone e he hguid
    exact congrArg Decision.ofNames hnil

/-- A grant on the tables of the requesting user and a denial by classification, for a table without
classifications, one with, and one that is not indexed. -/
theorem Request.checkBySearch_agrees_own_tables :
    let policies : List Policy :=
      [{ name := "own", service := .resource
         resources := NameMap.ofList [("entity", ["db/\x7bUSER\x7d/*"]), ("entity-type", ["Table"])]
         allowItems := [{ accesses := NameSet.ofList ["entity-read"], users := ["ann"] }] },
       { name := "no-pii", service := .tag, resources := NameMap.ofList [("tag", ["PII*"])]
         denyItems := [{ accesses := NameSet.ofList ["entity-read"], users := ["ann"] }] }]
    let plain : Entity :=
      { guid := "t-1", typeName := "Table"
        attributes := NameMap.ofList [("qualifiedName", .str "db/ann/t")] }
    let tagged : Entity := { plain with guid := "t-2", classifications := [⟨"PII-email", none⟩] }
    let d : Deployment :=
      { clauseLimit := 1, policies := .ofPolicies policies, index := [plain, tagged] }
    Policy.AreIndexable policies ∧
      (∃ decision d', runOn (checkBySearch "ann" "t-1" "entity-read") d = (.ok decision, d') ∧
        decision.allowed = true) ∧
      (∃ decision d', runOn (checkBySearch "ann" "t-2" "entity-read") d = (.ok decision, d') ∧
        decision.allowed = false) ∧
      ∃ d', runOn (checkBySearch "ann" "t-3" "entity-read") d = (.ok (.denial none), d') := by
  intro policies plain tagged d
  have h : Policy.AreIndexable policies := by
    constructor
    · intro p hp
      simp only [policies, List.mem_cons, List.not_mem_nil, or_false] at hp
      rcases hp with rfl | rfl
      · exact ⟨by unfold Query.PlaceholdersInNames; decide, by decide, by decide, fun c t hc =>
          absurd hc (Option.some_ne_none c).symm⟩
      · exact ⟨by unfold Query.PlaceholdersInNames; decide, by decide, by decide, fun c t hc =>
          absurd hc (Option.some_ne_none c).symm⟩
    · decide
  have hname : ∀ v, plain.attributes.get? Entity.qualifiedNameAttribute = some v →
      ∃ s, v = .str s := by
    intro v hv
    exact ⟨"db/ann/t", (Option.some.inj hv).symm⟩
  have hagrees := fun guid => checkBySearch_agrees policies h (by decide) d rfl (by decide) rfl
    "ann" (by decide) guid "entity-read"
  refine ⟨h, ?_, ?_, ?_⟩
  · obtain ⟨decision, hrun, hindexed, -⟩ := hagrees "t-1"
    have hallowed := (hindexed plain (by simp [d]) rfl hname).1
    exact ⟨decision, _, hrun, hallowed.trans (by decide)⟩
  · obtain ⟨decision, hrun, hindexed, -⟩ := hagrees "t-2"
    have hallowed := (hindexed tagged (by simp [d]) rfl hname).1
    exact ⟨decision, _, hrun, hallowed.trans (by decide)⟩
  · obtain ⟨decision, hrun, -, hunknown⟩ := hagrees "t-3"
    obtain rfl := hunknown (by decide)
    exact ⟨_, hrun⟩

end CatalogAccess
