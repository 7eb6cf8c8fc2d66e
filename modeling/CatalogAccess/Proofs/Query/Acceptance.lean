import CatalogAccess.Proofs.Operation
import CatalogAccess.Proofs.Query.RelationshipCheck

/-!
# Which queries are accepted

A query is refused as a whole when a single clause is malformed, also in a place where the clause
could not change the outcome. `accepted_bool_iff` says so for one `bool` query, and the shapes that
queries are built from follow from it. A comparison of a field is refused exactly when the field is
the key of names, since nothing is left to compare then.

Going up from there, `Criteria.Tree.accepted_toQuery_iff` tells which condition trees make a query
that is accepted, and `AccessView.queries_accepted_iff` which policies do. A resource or tag policy
never spoils a query, whatever patterns it holds. A condition policy does exactly when one of its
comparisons is not `Criteria.Leaf.IsAnswerable`, and then it spoils the searches of every user it is
relevant to (`AccessView.queries_refused_by_name`).
-/

namespace CatalogAccess

open AccessView (End endClause? entityClause?)

variable {e : Entity}

namespace Query

/-! ### Clauses -/

theorem accepted_iff {q : Json} : Accepted e q ↔ ∃ o, run e q = .ok o :=
  ⟨fun h => ⟨_, h⟩, fun ⟨_, h⟩ => accepted_of_run h⟩

theorem accepted_iff_isOk {q : Json} : Accepted e q ↔ (run e q).isOk = true := by
  rw [accepted_iff]
  cases run e q <;> simp [Except.isOk, Except.toBool]

instance (e : Entity) (q : Json) : Decidable (Accepted e q) :=
  decidable_of_iff _ accepted_iff_isOk.symm

/-- The clauses under a key: those of a list, or a single one. -/
def clausesOf : Json → List Json
  | .arr items => items
  | clause => [clause]

/-- The clauses with a part to play in a `bool` query. -/
def playing (members : List (String × Json)) : List Json :=
  (members.filter fun m => (ClauseRole.ofKey? m.1).isSome).flatMap fun m => clausesOf m.2

/-- The clauses of a list are counted to the end when each of them is accepted. -/
theorem runItems_ok_iff (role : ClauseRole) (cs : List Json) (t : Tally) :
    (∃ t', runItems e role cs t = .ok t') ↔ ∀ c ∈ cs, Accepted e c := by
  constructor
  · induction cs generalizing t with
    | nil => simp
    | cons c cs ih =>
      rintro ⟨t', h⟩
      rw [runItems, Except.bind_eq_ok_iff] at h
      obtain ⟨o, ho, h⟩ := h
      exact List.forall_mem_cons.2 ⟨accepted_of_run ho, ih _ ⟨t', h⟩⟩
  · intro h
    exact ⟨_, runItems_eq h t⟩

/-- The clauses under a key are counted as a list of them is. -/
theorem runMembers_cons (key : String) (v : Json) (ms : List (String × Json)) (t : Tally) :
    runMembers e ((key, v) :: ms) t =
      (match ClauseRole.ofKey? key with
        | none => pure t
        | some role => runItems e role (clausesOf v) t) >>= runMembers e ms := by
  rw [runMembers.eq_def]
  cases hk : ClauseRole.ofKey? key with
  | none => cases v <;> simp only [hk]
  | some role =>
    cases v with
    | arr items => simp only [hk, clausesOf]
    | _ =>
      simp only [hk, clausesOf, runItems, bind_assoc, pure_bind]
      rfl

/-- The members of a `bool` query are counted to the end when its clauses are accepted. -/
theorem runMembers_ok_iff {ms : List (String × Json)} {t : Tally} :
    (∃ t', runMembers e ms t = .ok t') ↔ ∀ c ∈ playing ms, Accepted e c := by
  induction ms generalizing t with
  | nil => simp [runMembers, playing]
  | cons m ms ih =>
    obtain ⟨key, v⟩ := m
    simp only [runMembers_cons, Except.bind_eq_ok_iff]
    cases hk : ClauseRole.ofKey? key with
    | none =>
      have hplaying : playing ((key, v) :: ms) = playing ms := by simp [playing, hk]
      rw [hplaying, ← ih (t := t)]
      simp [pure, Except.pure]
    | some role =>
      have hplaying : playing ((key, v) :: ms) = clausesOf v ++ playing ms := by
        simp [playing, hk]
      rw [hplaying, List.forall_mem_append, ← runItems_ok_iff role (clausesOf v) t]
      constructor
      · rintro ⟨t', t'', hitems, hms⟩
        exact ⟨⟨t'', hitems⟩, ih.1 ⟨t', hms⟩⟩
      · rintro ⟨⟨t'', hitems⟩, hms⟩
        obtain ⟨t', hms⟩ := ih.2 hms
        exact ⟨t', t'', hitems, hms⟩

/-- A `bool` query is accepted exactly when its clauses are. -/
theorem accepted_bool_iff {members : List (String × Json)} :
    Accepted e (.obj [("bool", .obj members)]) ↔ ∀ c ∈ playing members, Accepted e c := by
  rw [← runMembers_ok_iff (t := {}), accepted_iff]
  constructor
  · rintro ⟨o, h⟩
    cases hms : runMembers e members {} with
    | ok t => exact ⟨t, rfl⟩
    | error err =>
      have herror : run e (.obj [("bool", .obj members)]) = .error err := by
        rw [run, runBool, hms]
        rfl
      rw [herror] at h
      cases h
  · rintro ⟨t, h⟩
    exact ⟨_, run_bool h⟩

/-! ### Shapes -/

theorem accepted_all_iff {cs : List Json} : Accepted e (all cs) ↔ ∀ c ∈ cs, Accepted e c := by
  have hplaying : playing [("filter", .arr cs)] = cs := List.append_nil cs
  rw [all, accepted_bool_iff, hplaying]

theorem accepted_any_iff {cs : List Json} : Accepted e (any cs) ↔ ∀ c ∈ cs, Accepted e c := by
  have hplaying : playing (anyMembers cs) = cs := List.append_nil cs
  rw [any, accepted_bool_iff, hplaying]

theorem accepted_not_iff {c : Json} : Accepted e (not c) ↔ Accepted e c := by
  have hplaying : playing [("must_not", .arr [c])] = [c] := rfl
  rw [not, accepted_bool_iff, hplaying, List.forall_mem_singleton]

theorem accepted_named_iff {name : String} {c : Json} :
    Accepted e (named name c) ↔ Accepted e c := by
  have hplaying : playing [(nameKey, .str name), ("filter", .arr [c])] = [c] := rfl
  rw [named, accepted_bool_iff, hplaying, List.forall_mem_singleton]

theorem accepted_anyOf_iff {cs : List Json} : Accepted e (anyOf cs) ↔ ∀ c ∈ cs, Accepted e c := by
  match cs with
  | [] => exact ⟨fun _ => by simp, fun _ => accepted_of_run run_matchNone⟩
  | [c] => rw [anyOf, List.forall_mem_singleton]
  | c :: d :: cs => exact accepted_any_iff

/-- Grouping changes nothing about what is accepted. -/
theorem accepted_chunked_iff {cs : List Json} {limit : Nat} :
    (∀ c ∈ chunked limit cs, Accepted e c) ↔ ∀ c ∈ cs, Accepted e c := by
  unfold chunked
  split
  · rfl
  · conv_rhs => rw [← flatten_pieces limit cs]
    simp only [List.forall_mem_map, accepted_any_iff, List.mem_flatten]
    exact ⟨fun h c ⟨piece, hp, hc⟩ => h piece hp c hc, fun h piece hp c hc => h c ⟨piece, hp, hc⟩⟩

/-! ### Comparisons of a field -/

/-- A comparison of the key of names has no field, whatever its kind. -/
theorem runField_nameKey (e : Entity) (kind : String) (v : Json) :
    ∃ text, runField e kind (.obj [(nameKey, v)]) = refuse text := by
  have hfield : singleField (.obj [(nameKey, v)]) =
      refuse ("expected one field in " ++ (Json.obj [(nameKey, v)]).render) := rfl
  unfold runField
  rw [hfield]
  split_ifs <;> exact ⟨_, rfl⟩

/-- A comparison of the key of names is refused. -/
theorem not_accepted_nameKey {kind : String} (hall : kind ≠ "match_all") (hbool : kind ≠ "bool")
    (v : Json) : ¬ Accepted e (.obj [(kind, .obj [(nameKey, v)])]) := by
  obtain ⟨text, hfield⟩ := runField_nameKey e kind v
  have hrun : run e (.obj [(kind, .obj [(nameKey, v)])]) = refuse text := by
    rw [run, if_neg hall, if_neg hbool, hfield]
    rfl
  rw [accepted_iff, hrun]
  rintro ⟨o, h⟩
  cases h

theorem accepted_term_iff {field value : String} :
    Accepted e (term field value) ↔ field ≠ nameKey := by
  refine ⟨?_, fun h => accepted_of_run (run_term h value)⟩
  rintro h rfl
  exact not_accepted_nameKey (by decide) (by decide) _ h

theorem accepted_terms_iff {field : String} {values : List String} :
    Accepted e (terms field values) ↔ field ≠ nameKey := by
  refine ⟨?_, fun h => accepted_of_run (run_terms h values)⟩
  rintro h rfl
  exact not_accepted_nameKey (by decide) (by decide) _ h

theorem accepted_wildcard_iff {field expression : String} :
    Accepted e (wildcard field expression) ↔ field ≠ nameKey := by
  refine ⟨?_, fun h => accepted_of_run (run_wildcard h expression)⟩
  rintro h rfl
  exact not_accepted_nameKey (by decide) (by decide) _ h

end Query

/-! ### Condition trees -/

namespace Criteria

/-- The index can answer the query of a comparison: the comparison is not on the field that names
clauses, or it asks for a start or an end among no values, which compares no field. -/
def Leaf.IsAnswerable (l : Leaf) : Prop :=
  l.field ≠ Query.nameKey ∨
    (l.operator = .startsWith ∨ l.operator = .endsWith) ∧ l.operand.values = []

instance (l : Leaf) : Decidable l.IsAnswerable := inferInstanceAs (Decidable (_ ∨ _))

/-- The index can answer the query of a condition tree. -/
def Tree.IsAnswerable (t : Tree) : Prop := ∀ l ∈ t.leaves, l.IsAnswerable

instance (t : Tree) : Decidable t.IsAnswerable := inferInstanceAs (Decidable (∀ l ∈ t.leaves, _))

theorem Leaf.accepted_equalityQuery_iff {l : Leaf} :
    Query.Accepted e l.equalityQuery ↔ l.field ≠ Query.nameKey := by
  unfold Leaf.equalityQuery
  split
  · exact Query.accepted_term_iff
  · exact Query.accepted_terms_iff

/-- Wildcard queries on a field are accepted unless the field names clauses; of no values there are
none. -/
theorem accepted_anyOf_wildcard_iff {field : String} {values : List String}
    {expression : String → String} :
    Query.Accepted e (Query.anyOf (values.map fun v => Query.wildcard field (expression v))) ↔
      field ≠ Query.nameKey ∨ values = [] := by
  rw [Query.accepted_anyOf_iff]
  simp only [List.forall_mem_map, Query.accepted_wildcard_iff]
  cases values with
  | nil => simp
  | cons v vs =>
    constructor
    · intro h
      exact .inl (h v List.mem_cons_self)
    · rintro (h | h)
      · exact fun _ _ => h
      · cases h

/-- The query of a comparison is accepted exactly when the index can answer it. -/
theorem Leaf.accepted_toQuery_iff {l : Leaf} : Query.Accepted e l.toQuery ↔ l.IsAnswerable := by
  unfold Leaf.toQuery Leaf.IsAnswerable
  cases l.operator with
  | equals => simp [accepted_equalityQuery_iff]
  | notEquals => simp [Query.accepted_not_iff, accepted_equalityQuery_iff]
  | startsWith => simp [accepted_anyOf_wildcard_iff]
  | endsWith => simp [accepted_anyOf_wildcard_iff]
  | oneOf => simp [Query.accepted_terms_iff]
  | noneOf => simp [Query.accepted_not_iff, Query.accepted_terms_iff]

/-- The query of a group is accepted exactly when the queries of its children are. -/
theorem Condition.accepted_joinQueries_iff {c : Condition} {queries : List Json} :
    Query.Accepted e (c.joinQueries queries) ↔ ∀ q ∈ queries, Query.Accepted e q := by
  cases queries with
  | nil => exact ⟨fun _ => by simp, fun _ => Query.accepted_of_run Query.run_matchNone⟩
  | cons q qs =>
    cases c with
    | and => exact Query.accepted_all_iff
    | or => exact Query.accepted_any_iff

mutual

theorem Node.accepted_toQuery_iff (n : Node) :
    Query.Accepted e n.toQuery ↔ ∀ l ∈ n.leaves, l.IsAnswerable := by
  match n with
  | .leaf l =>
    rw [Node.toQuery, Node.leaves, List.forall_mem_singleton]
    exact Leaf.accepted_toQuery_iff
  | .group c children =>
    rw [Node.toQuery, Node.leaves, Condition.accepted_joinQueries_iff]
    exact Node.accepted_toQueries_iff children

theorem Node.accepted_toQueries_iff (ns : List Node) :
    (∀ q ∈ Node.toQueries ns, Query.Accepted e q) ↔ ∀ l ∈ Node.leavesOf ns, l.IsAnswerable := by
  match ns with
  | [] => simp [Node.toQueries, Node.leavesOf]
  | n :: ns =>
    rw [Node.toQueries, Node.leavesOf, List.forall_mem_cons, List.forall_mem_append,
      Node.accepted_toQuery_iff n, Node.accepted_toQueries_iff ns]

end

/-- The query of a condition tree is accepted exactly when each comparison can be answered. -/
theorem Tree.accepted_toQuery_iff {t : Tree} : Query.Accepted e t.toQuery ↔ t.IsAnswerable :=
  Node.accepted_toQuery_iff (.group t.condition t.children)

end Criteria

/-! ### Policies -/

/-- The index can answer the query of a part of the criteria of a policy; only condition policies
are read for their criteria. -/
def Policy.IsAnswerable (p : Policy) (part : Criteria → Option Criteria.Tree) : Prop :=
  p.service = .condition → ∀ t ∈ (Criteria.ofPolicy? p).bind part, t.IsAnswerable

instance (p : Policy) (part : Criteria → Option Criteria.Tree) : Decidable (p.IsAnswerable part) :=
  inferInstanceAs (Decidable (_ → ∀ t ∈ (Criteria.ofPolicy? p).bind part, t.IsAnswerable))

namespace AccessView

/-- A clause that is made of a part of the criteria, where a policy is read for its criteria, is
accepted exactly when the index can answer that part. -/
theorem accepted_clause_iff {p : Policy} {part : Criteria → Option Criteria.Tree}
    {clause? : Option Json}
    (hcondition : p.service = .condition →
      clause? = ((Criteria.ofPolicy? p).bind part).map Criteria.Tree.toQuery)
    (hother : p.service ≠ .condition → ∀ c ∈ clause?, Query.Silent e c) :
    (∀ c ∈ clause?, Query.Accepted e c) ↔ p.IsAnswerable part := by
  unfold Policy.IsAnswerable
  by_cases hservice : p.service = .condition
  · rw [hcondition hservice, forall_prop_of_true hservice]
    cases (Criteria.ofPolicy? p).bind part with
    | none => simp
    | some t => simpa using Criteria.Tree.accepted_toQuery_iff
  · exact ⟨fun _ h => absurd h hservice, fun _ c hc => (hother hservice c hc).accepted⟩

/-- The clause of a policy for entities. -/
theorem accepted_entityClause_iff {p : Policy} {user : String} :
    (∀ c ∈ entityClause? p user, Query.Accepted e c) ↔ p.IsAnswerable Criteria.entity := by
  refine accepted_clause_iff (fun hservice => ?_) fun hservice =>
    entityClause_silent_of_ne_condition hservice user
  rw [entityClause?, hservice]

/-- The clause of a policy for an end of a relationship. -/
theorem accepted_endClause_iff {p : Policy} {user : String} {x : End} :
    (∀ c ∈ endClause? p user x, Query.Accepted e c) ↔ p.IsAnswerable fun c => c.atEnd x := by
  refine accepted_clause_iff (fun hservice => ?_) fun hservice =>
    endClause_silent_of_ne_condition hservice user x
  rw [endClause?_condition hservice, Option.map_bind]
  rfl

/-! ### Queries -/

variable {v : AccessView} {user : String}

/-- The index can answer the policies that a query on entities asks, for both effects. -/
def AnswersEntities (v : AccessView) (user : String) (actions : List String) : Prop :=
  ∀ effect, ∀ service ∈ serviceOrder, ∀ p ∈ v.entityPolicies user actions effect service,
    p.IsAnswerable Criteria.entity

/-- The index can answer the policies that a query on the ends of relationships asks, for both ends
and both effects. -/
def AnswersEnds (v : AccessView) (user action relationshipType : String) : Prop :=
  ∀ effect, ∀ p ∈ v.relationshipPolicies user action relationshipType effect, ∀ x : End,
    p.IsAnswerable fun c => c.atEnd x

/-- Where the index can answer every policy of a snapshot, it can answer those that a query on
entities asks. -/
theorem AnswersEntities.of_policies {policies : List Policy}
    (hv : v.policies = .ofPolicies policies) (h : ∀ p ∈ policies, p.IsAnswerable Criteria.entity)
    (actions : List String) : v.AnswersEntities user actions := by
  intro effect service _ p hp
  unfold entityPolicies at hp
  obtain ⟨⟨id, q⟩, hentry, rfl⟩ := List.mem_map.1 hp
  obtain ⟨q, hq, heq⟩ := List.mem_map.1 (NameMap.mem_of_mem_ofList hentry)
  cases heq
  obtain ⟨action, -, hrelevant⟩ := List.mem_flatMap.1 (List.mem_reverse.1 hq)
  exact h q (mem_policies_of_relevant hv hrelevant).1

/-- Where the index can answer both ends in every policy of a snapshot, it can answer those that a
query on the ends of relationships asks. -/
theorem AnswersEnds.of_policies {policies : List Policy}
    (hv : v.policies = .ofPolicies policies)
    (h : ∀ p ∈ policies, ∀ x : End, p.IsAnswerable fun c => c.atEnd x)
    (action relationshipType : String) : v.AnswersEnds user action relationshipType :=
  fun _ p hp => h p (mem_policies_of_relationshipPolicies hv hp).1

/-- A choice of clauses is accepted exactly when they all are. -/
theorem accepted_choice_iff {cs : List Json} :
    Query.Accepted e (v.choice cs) ↔ ∀ c ∈ cs, Query.Accepted e c := by
  rw [choice, Query.accepted_any_iff, Query.accepted_chunked_iff]

/-- The clauses of an effect are accepted exactly when the index can answer their policies. -/
theorem accepted_entityClauses_iff {actions : List String} {effect : Effect} :
    (∀ c ∈ v.entityClauses user actions effect, Query.Accepted e c) ↔
      ∀ service ∈ serviceOrder, ∀ p ∈ v.entityPolicies user actions effect service,
        p.IsAnswerable Criteria.entity := by
  unfold entityClauses
  simp only [List.mem_flatMap, List.mem_filterMap, Option.map_eq_some_iff]
  constructor
  · intro h service hservice p hp
    have hclause : ∀ c ∈ entityClause? p user, Query.Accepted e c := fun c hc =>
      Query.accepted_named_iff.1 (h _ ⟨service, hservice, p, hp, c, hc, rfl⟩)
    exact accepted_entityClause_iff.1 hclause
  · rintro h _ ⟨service, hservice, p, hp, c, hc, rfl⟩
    exact Query.accepted_named_iff.2 (accepted_entityClause_iff.2 (h service hservice p hp) c hc)

/-- The clauses of both effects are accepted exactly when the index can answer their policies. -/
theorem accepted_clauses_iff_answersEntities {actions : List String} :
    ((∀ c ∈ v.entityClauses user actions .allow, Query.Accepted e c) ∧
        ∀ c ∈ v.entityClauses user actions .deny, Query.Accepted e c) ↔
      v.AnswersEntities user actions := by
  rw [accepted_entityClauses_iff, accepted_entityClauses_iff]
  constructor
  · rintro ⟨hallow, hdeny⟩ (_ | _)
    · exact hallow
    · exact hdeny
  · intro h
    exact ⟨h .allow, h .deny⟩

/-- The clauses for the ends are accepted exactly when the index can answer their policies. -/
theorem accepted_relationshipClauses_iff {action relationshipType : String} :
    (∀ c ∈ v.relationshipClauses user action relationshipType, Query.Accepted e c) ↔
      v.AnswersEnds user action relationshipType := by
  simp only [mem_relationshipClauses]
  constructor
  · intro h effect p hp x
    have hclause : ∀ c ∈ endClause? p user x, Query.Accepted e c := fun c hc =>
      Query.accepted_named_iff.1 (h _ ⟨effect, p, hp, x, c, hc, rfl⟩)
    exact accepted_endClause_iff.1 hclause
  · rintro h _ ⟨effect, p, hp, x, c, hc, rfl⟩
    exact Query.accepted_named_iff.2 (accepted_endClause_iff.2 (h effect p hp x) c hc)

/-- The restriction of a search lists no clause when nothing grants, and otherwise the clauses of
both effects. -/
theorem accepted_prefilter_iff {actions : List String} :
    Query.Accepted e (v.prefilter user actions) ↔
      v.entityClauses user actions .allow = [] ∨ v.AnswersEntities user actions := by
  rw [← accepted_clauses_iff_answersEntities (e := e)]
  simp only [prefilter]
  split
  · next hnil =>
    exact ⟨fun _ => .inl (List.isEmpty_iff.1 hnil), fun _ =>
      Query.accepted_of_run Query.run_matchNone⟩
  · next hne =>
    have hplaying : Query.playing [("filter", v.choice (v.entityClauses user actions .allow)),
        ("must_not", .arr (Query.chunked v.effectiveLimit (v.entityClauses user actions .deny)))] =
        v.choice (v.entityClauses user actions .allow) ::
          Query.chunked v.effectiveLimit (v.entityClauses user actions .deny) := by
      exact congrArg (_ :: ·) (List.append_nil _)
    rw [Query.accepted_bool_iff, hplaying, List.forall_mem_cons, accepted_choice_iff,
      Query.accepted_chunked_iff, or_iff_right fun hnil => hne (List.isEmpty_iff.2 hnil)]

/-- A check query is accepted exactly when its clauses are. -/
theorem accepted_checkQuery_iff {cs : List Json} {pick : Json} (hpick : Query.Accepted e pick) :
    Query.Accepted e (v.checkQuery cs pick) ↔ ∀ c ∈ cs, Query.Accepted e c := by
  unfold checkQuery
  split
  · next hnil =>
    rw [List.isEmpty_iff.1 hnil]
    exact ⟨fun _ => by simp, fun _ => Query.accepted_of_run Query.run_matchNone⟩
  · rw [Query.accepted_all_iff, List.forall_mem_cons, List.forall_mem_singleton,
      accepted_choice_iff, and_iff_left hpick]

theorem accepted_entityCheckQuery_iff {guid action : String} :
    Query.Accepted e (v.entityCheckQuery user guid action) ↔ v.AnswersEntities user [action] := by
  have hquery : v.entityCheckQuery user guid action = v.checkQuery
      (v.entityClauses user [action] .allow ++ v.entityClauses user [action] .deny)
      (Query.term Query.guidField guid) := rfl
  rw [hquery, accepted_checkQuery_iff (Query.accepted_term_iff.2 (by decide)),
    List.forall_mem_append, accepted_clauses_iff_answersEntities]

theorem accepted_relationshipCheckQuery_iff {action relationshipType guidOne guidTwo : String} :
    Query.Accepted e (v.relationshipCheckQuery user action relationshipType guidOne guidTwo) ↔
      v.AnswersEnds user action relationshipType := by
  have hquery : v.relationshipCheckQuery user action relationshipType guidOne guidTwo =
      v.checkQuery (v.relationshipClauses user action relationshipType)
        (Query.terms Query.guidField [guidOne, guidTwo]) := rfl
  rw [hquery, accepted_checkQuery_iff (Query.accepted_terms_iff.2 (by decide)),
    accepted_relationshipClauses_iff]

/-- The restriction of a search and the two check queries are accepted, on one entity as on any
other, exactly when the index can answer each of the policies asked; a restriction is also accepted
when nothing grants. -/
theorem queries_accepted_iff (v : AccessView) (user : String) (e : Entity) :
    (∀ actions, Query.Accepted e (v.prefilter user actions) ↔
      v.entityClauses user actions .allow = [] ∨ v.AnswersEntities user actions) ∧
    (∀ guid action, Query.Accepted e (v.entityCheckQuery user guid action) ↔
      v.AnswersEntities user [action]) ∧
    ∀ action relationshipType guidOne guidTwo,
      Query.Accepted e (v.relationshipCheckQuery user action relationshipType guidOne guidTwo) ↔
        v.AnswersEnds user action relationshipType :=
  ⟨fun _ => accepted_prefilter_iff, fun _ _ => accepted_entityCheckQuery_iff,
    fun _ _ _ _ => accepted_relationshipCheckQuery_iff⟩

/-- A table that a policy lets a user read, and a second policy with criteria on an attribute that
is called like the key of names: the table is found with the first policy alone, and with both the
queries are refused. -/
theorem queries_refused_by_name :
    let reader : Policy.Item := { accesses := NameSet.ofList ["entity-read"], users := ["ann"] }
    let tables : Policy :=
      { name := "tables", service := .resource, allowItems := [reader]
        resources := NameMap.ofList [("entity-type", ["Table"])] }
    let named : Policy :=
      { name := "named", service := .condition, allowItems := [reader]
        criteria := some ("\x7b\"entity\": \x7b\"condition\": \"AND\", \"criterion\": [\x7b" ++
          "\"attributeName\": \"_name\", \"operator\": \"EQUALS\", " ++
          "\"attributeValue\": \"orders\"\x7d]\x7d\x7d") }
    let table : Entity := { guid := "t-1", typeName := "Table" }
    let alone : AccessView := ⟨.ofPolicies [tables], {}, 1024⟩
    let both : AccessView := ⟨.ofPolicies [tables, named], {}, 1024⟩
    ¬ named.IsAnswerable Criteria.entity ∧
      (both.decide "ann" "entity-read" (.entity table)).allowed = true ∧
      Query.selects table (alone.prefilter "ann" ["entity-read"]) = true ∧
      ¬ Query.Accepted table (both.prefilter "ann" ["entity-read"]) ∧
      ¬ Query.Accepted table (both.entityCheckQuery "ann" "t-1" "entity-read") := by
  decide +kernel

end AccessView

/-! ### Searches -/

/-- A search with a query that is accepted on all entities or on none: it is refused with the query
unless there is nothing to run the query on. -/
theorem searchDocuments_ok_iff {q : Json} {P : Prop} (h : ∀ e, Query.Accepted e q ↔ P) {size : Nat}
    {ds : List Entity} : (∃ hits, searchDocuments q size ds = .ok hits) ↔ ds = [] ∨ P := by
  cases ds with
  | nil => simp [searchDocuments]
  | cons d ds =>
    constructor
    · rintro ⟨hits, hsearch⟩
      rw [searchDocuments, Except.bind_eq_ok_iff] at hsearch
      obtain ⟨o, hrun, -⟩ := hsearch
      exact .inr ((h d).1 (Query.accepted_of_run hrun))
    · rintro (hnil | hP)
      · cases hnil
      · exact ⟨_, searchDocuments_eq (fun d _ => (h d).2 hP) size⟩

/-- A search within the restriction reports hits exactly when the restriction is accepted, or the
index is empty. -/
theorem AccessView.searchDocuments_prefilter_ok_iff {v : AccessView} {user : String}
    {actions : List String} {size : Nat} {ds : List Entity} :
    (∃ hits, searchDocuments (v.prefilter user actions) size ds = .ok hits) ↔
      ds = [] ∨ v.entityClauses user actions .allow = [] ∨ v.AnswersEntities user actions :=
  searchDocuments_ok_iff fun _ => accepted_prefilter_iff

end CatalogAccess
