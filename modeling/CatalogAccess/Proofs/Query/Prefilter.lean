import CatalogAccess.Proofs.Decision.Outcome
import CatalogAccess.Proofs.NameMap
import CatalogAccess.Proofs.Query.Coverage
import CatalogAccess.Proofs.Query.Criteria

/-!
# The search restriction agrees with decisions

`AccessView.prefilter` restricts a search to the entities on which a user may take one of some
actions. `run_prefilter` shows that the restriction is accepted and matches an entity exactly when a
policy grants one of the actions on it and no policy denies one, the policies being those that
`AccessView.applying` finds. For a single action these are the entities on which
`AccessView.decide` allows the action.

The way from the query back to the policies has three steps: grouping changes neither what a choice
of clauses accepts nor what it matches (`selects_choice`), the clauses are those of the relevant
policies (`mem_entityPolicies`), and the clause of a policy matches what the policy applies to
(`entityClause_selects`). `IsIndexable` holds what the index needs of the policies.
-/

namespace CatalogAccess

variable {e : Entity}

/-! ### Grouping -/

namespace Query

/-- Pieces put together again give the list. -/
theorem flatten_pieces {α : Type} (length : Nat) (l : List α) : (pieces length l).flatten = l := by
  fun_induction pieces length l with
  | case1 => rfl
  | case2 x xs ih => rw [List.flatten_cons, ih, List.cons_append, List.take_append_drop]

/-- What stands in a piece stands in the list. -/
theorem mem_of_mem_piece {α : Type} {length : Nat} {l piece : List α} {x : α}
    (hp : piece ∈ pieces length l) (hx : x ∈ piece) : x ∈ l := by
  rw [← flatten_pieces length l]
  exact List.mem_flatten.2 ⟨piece, hp, hx⟩

/-- Grouping keeps what the clauses are and what a choice of them matches. -/
theorem chunked_answers {cs : List Json} (h : ∀ c ∈ cs, Accepted e c) (limit : Nat) :
    (∀ c ∈ chunked limit cs, Accepted e c) ∧
      (chunked limit cs).any (selects e) = cs.any (selects e) := by
  unfold chunked
  split
  · exact ⟨h, rfl⟩
  · have hpiece : ∀ piece ∈ pieces limit cs, ∀ c ∈ piece, Accepted e c :=
      fun piece hp c hc => h c (mem_of_mem_piece hp hc)
    constructor
    · intro c hc
      obtain ⟨piece, hp, rfl⟩ := List.mem_map.1 hc
      exact accepted_of_run (run_any (hpiece piece hp))
    · have hselects : ∀ piece ∈ pieces limit cs,
          selects e (any piece) = piece.any (selects e) :=
        fun piece hp => selects_of_run (run_any (hpiece piece hp))
      calc ((pieces limit cs).map any).any (selects e)
          = (pieces limit cs).any fun piece => piece.any (selects e) := by
            rw [List.any_map, Bool.eq_iff_iff]
            simp only [List.any_eq_true, Function.comp_def]
            constructor
            · rintro ⟨piece, hp, hs⟩
              exact ⟨piece, hp, List.any_eq_true.1 (by rw [← hselects piece hp]; exact hs)⟩
            · rintro ⟨piece, hp, hs⟩
              exact ⟨piece, hp, by rw [hselects piece hp]; exact List.any_eq_true.2 hs⟩
        _ = (pieces limit cs).flatten.any (selects e) := by rw [List.any_flatten]
        _ = cs.any (selects e) := by rw [flatten_pieces]

end Query

/-- A choice of clauses matches what one of the clauses matches, however they are grouped. -/
theorem AccessView.selects_choice (v : AccessView) {cs : List Json}
    (h : ∀ c ∈ cs, Query.Accepted e c) :
    Query.Accepted e (v.choice cs) ∧
      Query.selects e (v.choice cs) = cs.any (Query.selects e) := by
  obtain ⟨haccepted, hany⟩ := Query.chunked_answers h v.effectiveLimit
  have hrun := Query.run_any haccepted
  exact ⟨Query.accepted_of_run hrun, (Query.selects_of_run hrun).trans hany⟩

/-! ### Clauses of policies -/

/-- What the index needs of a policy. -/
structure Policy.IsIndexable (p : Policy) : Prop where
  /-- Placeholders stand for the user nowhere but in qualified names. -/
  placeholders : Query.PlaceholdersInNames p.resources
  /-- A tag policy is about tags and nothing else. -/
  tag_only : p.service = .tag → p.resources.keys = [Dimension.tag]
  /-- A resource policy leaves the business metadata open. -/
  open_metadata : p.service = .resource → ∀ values,
    p.resource? Dimension.entityBusinessMetadata = some values → wildcard ∈ values
  /-- No comparison on entities is on the field that names clauses. -/
  searchable : ∀ c t, Criteria.ofPolicy? p = some c → c.entity = some t →
    ∀ l ∈ t.leaves, l.IsSearchable

namespace AccessView

/-- A tag policy covers the entities whose classifications its tags admit. -/
theorem coversEntity_of_tag_only {p : Policy} (h : p.resources.keys = [Dimension.tag])
    (user : String) :
    p.coversEntity user e =
      e.isAdmitted user Dimension.tag ((p.resource? Dimension.tag).getD []) := by
  obtain ⟨⟨d, values⟩, hentries, hd⟩ := List.map_eq_singleton_iff.1 h
  obtain rfl : d = Dimension.tag := hd
  have hget : p.resources.get? Dimension.tag = some values := by
    rw [NameMap.get?_eq_some_iff, hentries]
    exact List.mem_singleton_self _
  rw [Policy.resource?, hget, Bool.eq_iff_iff, Policy.coversEntity_iff]
  constructor
  · intro hc
    exact hc _ _ hget
  · intro hadmit d' values' hv
    rw [Policy.resource?, NameMap.get?_eq_some_iff, hentries, List.mem_singleton,
      Prod.mk.injEq] at hv
    obtain ⟨rfl, rfl⟩ := hv
    exact hadmit

/-- The clause of a policy that is not read for its criteria is accepted on every entity and names
nothing, whatever patterns the policy holds. -/
theorem entityClause_silent_of_ne_condition {p : Policy} (hs : p.service ≠ .condition)
    (user : String) : ∀ c ∈ entityClause? p user, Query.Silent e c := by
  intro c hc
  rw [Option.mem_def] at hc
  unfold entityClause? at hc
  cases hservice : p.service with
  | data => simp [hservice] at hc
  | condition => exact absurd hservice hs
  | resource =>
    obtain rfl : Query.resourceClause p.resources user = c := by simpa [hservice] using hc
    exact Query.resourceClause_silent p.resources user
  | tag =>
    obtain rfl : Query.tagClause ((p.resource? Dimension.tag).getD []) = c := by
      simpa [hservice] using hc
    exact Query.tagClause_silent _

/-- The clause of a policy is accepted on every entity and names nothing. -/
theorem entityClause_silent {p : Policy} (hp : p.IsIndexable) (user : String) :
    ∀ c ∈ entityClause? p user, Query.Silent e c := by
  by_cases hservice : p.service = .condition
  · intro c hc
    rw [Option.mem_def, entityClause?, hservice, Option.map_eq_some_iff] at hc
    obtain ⟨t, hbind, rfl⟩ := hc
    obtain ⟨criteria, hcriteria, ht⟩ := Option.bind_eq_some_iff.1 hbind
    have hrun := Criteria.Node.run_toQuery (e := e) (.group t.condition t.children)
      (hp.searchable criteria t hcriteria ht)
    exact Query.silent_of_run hrun
  · exact entityClause_silent_of_ne_condition hservice user

/-- The clause of a policy matches what the policy applies to; a policy without a clause applies to
nothing. -/
theorem entityClause_selects {p : Policy} (hp : p.IsIndexable) (hs : p.service ≠ .data)
    (he : e.HasTextName) {user : String} (hu : '*' ∉ user.toList) :
    (entityClause? p user).any (Query.selects e) =
      p.appliesTo p.service user (.entity e) := by
  unfold entityClause? Policy.appliesTo
  cases hservice : p.service with
  | data => exact absurd hservice hs
  | condition =>
    cases hc : Criteria.ofPolicy? p with
    | none => simp
    | some c =>
      cases ht : c.entity with
      | none => simp [ht, Criteria.holdFor]
      | some t =>
        have hrun := Criteria.Node.run_toQuery (e := e) (.group t.condition t.children)
          (hp.searchable c t hc ht)
        have hquery : Query.run e t.toQuery = .ok ⟨t.evaluate e, []⟩ := hrun
        simp [ht, Criteria.holdFor, Query.selects_of_run hquery]
  | resource =>
    have hrun := Query.run_resourceClause_of_placeholders hp.placeholders he hu
    have hcovers := Policy.coversEntity_eq_indexed (e := e) user
      (hp.open_metadata hservice)
    simp [Policy.covers, hcovers, Query.selects_of_run hrun]
  | tag =>
    have hvalues : ∀ v ∈ (p.resource? Dimension.tag).getD [],
        Pattern.hasPlaceholder v.toList = false := by
      cases hv : p.resource? Dimension.tag with
      | none => simp
      | some values => exact hp.placeholders.of_get? hv (by decide)
    have hrun := Query.run_tagClause (e := e) ((p.resource? Dimension.tag).getD [])
    rw [Entity.isAdmitted_of_not_hasPlaceholder hvalues _ user] at hrun
    have hcovers := coversEntity_of_tag_only (e := e) (hp.tag_only hservice) user
    simp [Policy.covers, hcovers, Query.selects_of_run hrun]

end AccessView

/-! ### The restriction -/

/-- Policies that the index can serve. -/
structure Policy.AreIndexable (policies : List Policy) : Prop where
  /-- Each policy by itself is indexable. -/
  each : ∀ p ∈ policies, p.IsIndexable
  /-- Within a service a policy is known by its display identifier. -/
  distinct : ∀ p ∈ policies, ∀ q ∈ policies,
    p.service = q.service → p.displayId = q.displayId → p = q

namespace AccessView

variable {policies : List Policy} {subjects : Subjects} {limit : Nat}

/-- A relevant policy is one of the policies, and of the service asked for. -/
theorem mem_policies_of_relevant {v : AccessView} (hv : v.policies = .ofPolicies policies)
    {subject : Option Subject} {action : String} {effect : Effect} {category : Policy.Category}
    {service : Policy.Service} {p : Policy}
    (h : p ∈ v.relevant subject action effect category service) :
    p ∈ policies ∧ p.service = service := by
  have hmem : p ∈ v.policies.collection service := (List.mem_filter.1 h).1
  rw [hv] at hmem
  cases service with
  | data => exact absurd hmem List.not_mem_nil
  | resource | tag | condition =>
    obtain ⟨hp, hs⟩ := List.mem_filter.1 hmem
    exact ⟨hp, eq_of_beq hs⟩

/-- No policy relevant to one of the actions is lost by looking at each identifier once. -/
theorem mem_entityPolicies {v : AccessView} (hv : v.policies = .ofPolicies policies)
    (h : Policy.AreIndexable policies) {user : String} {actions : List String} {effect : Effect}
    {service : Policy.Service} {p : Policy} :
    p ∈ v.entityPolicies user actions effect service ↔
      ∃ action ∈ actions,
        p ∈ v.relevant (some (v.subjects.resolve user)) action effect .entity service := by
  unfold entityPolicies
  simp only
  rw [NameMap.mem_values_ofList, List.mem_reverse, List.mem_flatMap]
  intro q hq r hr hid
  simp only [List.mem_reverse, List.mem_flatMap] at hq hr
  obtain ⟨_, -, hq⟩ := hq
  obtain ⟨_, -, hr⟩ := hr
  obtain ⟨hqp, hqs⟩ := mem_policies_of_relevant hv hq
  obtain ⟨hrp, hrs⟩ := mem_policies_of_relevant hv hr
  exact h.distinct q hqp r hrp (hqs.trans hrs.symm) hid

/-- The clauses of an effect are those of the relevant policies that have one, under the names of the
policies. -/
theorem mem_entityClauses {v : AccessView} (hv : v.policies = .ofPolicies policies)
    (h : Policy.AreIndexable policies) {user : String} {actions : List String} {effect : Effect}
    {c : Json} :
    c ∈ v.entityClauses user actions effect ↔
      ∃ service ∈ serviceOrder, ∃ p,
        (∃ action ∈ actions,
          p ∈ v.relevant (some (v.subjects.resolve user)) action effect .entity service) ∧
        ∃ clause, entityClause? p user = some clause ∧
          Query.named (ClauseName.ofPolicy p.displayId effect) clause = c := by
  unfold entityClauses
  simp only [List.mem_flatMap, List.mem_filterMap, mem_entityPolicies hv h,
    Option.map_eq_some_iff]

/-- A policy of a service that decisions consult is no data policy. -/
theorem ne_data_of_mem_serviceOrder {service : Policy.Service} (h : service ∈ serviceOrder) :
    service ≠ .data := by
  rintro rfl
  exact absurd h (by decide)

/-- The clauses of an effect are accepted, and one of them matches exactly when a policy of that
effect applies. -/
theorem entityClauses_answers {v : AccessView} (hv : v.policies = .ofPolicies policies)
    (h : Policy.AreIndexable policies) (he : e.HasTextName) {user : String}
    (hu : '*' ∉ user.toList) (actions : List String) (effect : Effect) :
    (∀ c ∈ v.entityClauses user actions effect, Query.Accepted e c) ∧
      ((v.entityClauses user actions effect).any (Query.selects e) = true ↔
        ∃ action ∈ actions, v.applying user action (.entity e) effect ≠ []) := by
  -- The clause of a policy under its name matches what the policy applies to.
  have hnamed : ∀ p ∈ policies, ∀ clause, entityClause? p user = some clause → ∀ name,
      Query.Accepted e (Query.named name clause) ∧
        Query.selects e (Query.named name clause) = Query.selects e clause := by
    intro p hp clause hc name
    have hrun := Query.run_named_silent (e := e) name
      (entityClause_silent (h.each p hp) user clause hc)
    exact ⟨Query.accepted_of_run hrun, by rw [Query.selects_of_run hrun]⟩
  constructor
  · intro c hc
    obtain ⟨service, -, p, ⟨_, -, hrelevant⟩, clause, hclause, rfl⟩ := (mem_entityClauses hv h).1 hc
    obtain ⟨hmem, -⟩ := mem_policies_of_relevant hv hrelevant
    exact (hnamed p hmem clause hclause _).1
  · rw [List.any_eq_true]
    constructor
    · rintro ⟨c, hc, hs⟩
      obtain ⟨service, hservice, p, ⟨action, haction, hrelevant⟩, clause, hclause, rfl⟩ :=
        (mem_entityClauses hv h).1 hc
      obtain ⟨hmem, rfl⟩ := mem_policies_of_relevant hv hrelevant
      have happlies := entityClause_selects (h.each p hmem)
        (ne_data_of_mem_serviceOrder hservice) he hu
      rw [(hnamed p hmem clause hclause _).2] at hs
      rw [hclause, Option.any_some, hs] at happlies
      exact ⟨action, haction, List.ne_nil_of_mem
        (mem_applying_iff.2 ⟨p.service, hservice, hrelevant, happlies.symm⟩)⟩
    · rintro ⟨action, haction, hne⟩
      obtain ⟨p, hp⟩ := List.exists_mem_of_ne_nil _ hne
      obtain ⟨service, hservice, hrelevant, happlies⟩ := mem_applying_iff.1 hp
      obtain ⟨hmem, rfl⟩ := mem_policies_of_relevant hv hrelevant
      rw [← entityClause_selects (h.each p hmem) (ne_data_of_mem_serviceOrder hservice) he hu,
        Option.any_eq_true] at happlies
      obtain ⟨clause, hclause, hs⟩ := happlies
      refine ⟨_, (mem_entityClauses hv h).2 ⟨p.service, hservice, p, ⟨action, haction, hrelevant⟩,
        clause, hclause, rfl⟩, ?_⟩
      rw [(hnamed p hmem clause hclause _).2]
      exact hs

/-- A restriction of accepted clauses matches when one granting clause does and no denying one. -/
theorem run_restrict {v : AccessView} {granting denying : List Json}
    (hg : ∀ c ∈ granting, Query.Accepted e c) (hd : ∀ c ∈ denying, Query.Accepted e c) :
    ∃ names, Query.run e (.obj [("bool", .obj [("filter", v.choice granting),
        ("must_not", .arr (Query.chunked v.effectiveLimit denying))])]) =
      .ok ⟨granting.any (Query.selects e) && !denying.any (Query.selects e), names⟩ := by
  obtain ⟨hchoice, hselects⟩ := v.selects_choice hg
  obtain ⟨hpieces, hany⟩ := Query.chunked_answers hd v.effectiveLimit
  have hobj : ∀ items, v.choice granting ≠ .arr items := by
    intro items
    exact Json.noConfusion
  have ht : Query.runMembers e [("filter", v.choice granting),
      ("must_not", .arr (Query.chunked v.effectiveLimit denying))] {} =
      .ok { ok := granting.any (Query.selects e) && !denying.any (Query.selects e)
            names := (Query.outcome e (v.choice granting)).names } := by
    rw [Query.runMembers_single hobj rfl hchoice, Query.runMembers_list rfl hpieces,
      Query.foldl_add_prohibited, Query.runMembers, hany, ← hselects]
    simp [Query.Tally.add, Query.selects]
  refine ⟨(Query.outcome e (v.choice granting)).names, ?_⟩
  rw [Query.run_bool ht]
  simp [Query.Outcome.withName, Query.minimumShouldMatch, Query.minimumShouldMatch.defaultMinimum,
    Json.get?, Query.nameKey]

/-- The restriction of a search is accepted and matches an entity exactly when a policy grants one of
the actions on it and no policy denies one of them. For a single action this is the decision. -/
theorem run_prefilter (policies : List Policy) (subjects : Subjects) (limit : Nat)
    (h : Policy.AreIndexable policies) (user : String) (hu : '*' ∉ user.toList)
    (actions : List String) (e : Entity) (he : e.HasTextName) :
    let v : AccessView := ⟨.ofPolicies policies, subjects, limit⟩
    ∃ matched names, Query.run e (v.prefilter user actions) = .ok ⟨matched, names⟩ ∧
      (matched = true ↔
        (∃ action ∈ actions, v.applying user action (.entity e) .allow ≠ []) ∧
          ∀ action ∈ actions, v.applying user action (.entity e) .deny = []) ∧
      ∀ action, actions = [action] → matched = (v.decide user action (.entity e)).allowed := by
  intro v
  have hv : v.policies = .ofPolicies policies := rfl
  obtain ⟨hgranting, hallow⟩ := entityClauses_answers hv h he hu actions .allow
  obtain ⟨hdenying, hdeny⟩ := entityClauses_answers hv h he hu actions .deny
  have hrun : ∃ names, Query.run e (v.prefilter user actions) =
      .ok ⟨(v.entityClauses user actions .allow).any (Query.selects e) &&
        !(v.entityClauses user actions .deny).any (Query.selects e), names⟩ := by
    -- Without a grant the restriction matches nothing.
    simp only [prefilter]
    split
    · next hnil =>
      rw [List.isEmpty_iff.1 hnil, Query.run_matchNone]
      exact ⟨[], rfl⟩
    · exact run_restrict hgranting hdenying
  obtain ⟨names, hrun⟩ := hrun
  -- What the clauses match, in terms of policies.
  have hmatched : ((v.entityClauses user actions .allow).any (Query.selects e) &&
      !(v.entityClauses user actions .deny).any (Query.selects e)) = true ↔
      (∃ action ∈ actions, v.applying user action (.entity e) .allow ≠ []) ∧
        ∀ action ∈ actions, v.applying user action (.entity e) .deny = [] := by
    rw [Bool.and_eq_true, hallow, Bool.not_eq_true', ← Bool.not_eq_true, hdeny]
    simp only [not_exists, not_and, ne_eq, Decidable.not_not]
  refine ⟨_, names, hrun, hmatched, ?_⟩
  -- A single action is allowed when a policy grants it and none denies it.
  rintro action rfl
  rw [Bool.eq_iff_iff, hmatched, decide_allowed_iff]
  simp only [List.mem_singleton, exists_eq_left, forall_eq]

/-- A grant on the tables of the requesting user and a denial by classification, for a table without
classifications and for one with. -/
theorem run_prefilter_own_tables :
    let policies : List Policy :=
      [{ name := "own", service := .resource
         resources := NameMap.ofList [("entity", ["db/\x7bUSER\x7d/*"]), ("entity-type", ["Table"])]
         allowItems := [{ accesses := NameSet.ofList ["entity-read"], users := ["ann"] }] },
       { name := "no-pii", service := .tag, resources := NameMap.ofList [("tag", ["PII*"])]
         denyItems := [{ accesses := NameSet.ofList ["entity-read"], users := ["ann"] }] }]
    let v : AccessView := ⟨.ofPolicies policies, {}, 1⟩
    let plain : Entity :=
      { typeName := "Table", attributes := NameMap.ofList [("qualifiedName", .str "db/ann/t")] }
    let tagged : Entity := { plain with classifications := [⟨"PII-email", none⟩] }
    Policy.AreIndexable policies ∧
      (∃ names, Query.run plain (v.prefilter "ann" ["entity-read"]) = .ok ⟨true, names⟩) ∧
      ∃ names, Query.run tagged (v.prefilter "ann" ["entity-read"]) = .ok ⟨false, names⟩ := by
  intro policies v plain tagged
  have h : Policy.AreIndexable policies := by
    constructor
    · intro p hp
      simp only [policies, List.mem_cons, List.not_mem_nil, or_false] at hp
      rcases hp with rfl | rfl
      · exact ⟨by unfold Query.PlaceholdersInNames; decide, by decide, by decide, fun c t hc =>
          absurd hc (Option.some_ne_none c).symm⟩
      · exact ⟨by unfold Query.PlaceholdersInNames; decide, by decide, by decide, fun c t hc =>
          absurd hc (Option.some_ne_none c).symm⟩
    · decide
  have hname : ∀ v, plain.attributes.get? Entity.qualifiedNameAttribute = some v →
      ∃ s, v = .str s := by
    intro v hv
    exact ⟨"db/ann/t", (Option.some.inj hv).symm⟩
  obtain ⟨b, names, hrun, -, hb⟩ := run_prefilter policies {} 1 h "ann" (by decide)
    ["entity-read"] plain hname
  obtain ⟨c, names', hrun', -, hc⟩ := run_prefilter policies {} 1 h "ann" (by decide)
    ["entity-read"] tagged hname
  -- The restriction matches where the decision allows the action.
  have htrue : (v.decide "ann" "entity-read" (.entity plain)).allowed = true := by decide
  have hfalse : (v.decide "ann" "entity-read" (.entity tagged)).allowed = false := by decide
  rw [hb "entity-read" rfl, htrue] at hrun
  rw [hc "entity-read" rfl, hfalse] at hrun'
  exact ⟨h, ⟨names, hrun⟩, names', hrun'⟩

end AccessView

end CatalogAccess
