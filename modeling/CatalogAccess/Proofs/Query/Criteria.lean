import CatalogAccess.Criteria.Compilation
import CatalogAccess.Proofs.Query.Outcome

/-!
# Criteria and their queries agree

A condition tree is read in two ways: `Criteria.Tree.evaluate` looks at an entity in memory, and
`Criteria.Tree.toQuery` makes a search query of it. `run_toQuery_eq_evaluate` shows that the query
is accepted, matches exactly the entities for which the tree holds, and names no clause. The only
trees left out are those with a leaf on the field `_name`, which in a query is the name of the
clause.

The proof goes along the tree. A leaf is a comparison of one field (`Leaf.run_toQuery`), where the
escaped text of a prefix or a suffix reads back as itself, and a group puts the answers of its
children together as its connective says (`Node.run_toQuery`).
-/

namespace CatalogAccess.Criteria

mutual

/-- The comparisons in a node. -/
def Node.leaves : Node → List Leaf
  | .group _ children => Node.leavesOf children
  | .leaf l => [l]

/-- The comparisons in a list of nodes. -/
def Node.leavesOf : List Node → List Leaf
  | [] => []
  | n :: ns => n.leaves ++ Node.leavesOf ns

end

/-- The comparisons in a condition tree. -/
def Tree.leaves (t : Tree) : List Leaf := Node.leavesOf t.children

/-- The comparison can be written as a query on its field. -/
def Leaf.IsSearchable (l : Leaf) : Prop := l.field ≠ Query.nameKey

/-! ### Comparisons -/

/-- Every character of an escaped value stands for itself. -/
theorem map_escapedToken (s : String) :
    s.toList.map (Query.escapedToken isExpressionChar) = Glob.ofText s.toList := by
  rw [Glob.ofText]
  refine List.map_congr_left fun c _ => ?_
  by_cases h : isExpressionChar c = true
  · rw [Query.escapedToken, if_pos h]
  · rw [Query.escapedToken, if_neg h]
    simp only [isExpressionChar, Bool.or_eq_true, beq_iff_eq, not_or] at h
    rw [if_neg h.1.1, if_neg h.1.2]

/-- The expression of a start matches exactly what starts with the text, whatever characters the
text holds. -/
theorem startExpression_matches (s v : String) :
    Query.expressionMatches (startExpression s) v = Text.startsWith v s := by
  rw [Query.expressionMatches, startExpression,
    Query.expressionTokens_escapeWhere isExpressionChar rfl, map_escapedToken]
  exact Glob.accepts_ofText_run s.toList v.toList

/-- The expression of an end matches exactly what ends with the text. -/
theorem endExpression_matches (s v : String) :
    Query.expressionMatches (endExpression s) v = Text.endsWith v s := by
  have ht : Query.expressionTokens (Query.escapeWhere isExpressionChar s).toList =
      Glob.ofText s.toList := by
    have h := Query.expressionTokens_escapeWhere isExpressionChar rfl s ""
    rw [String.append_empty, map_escapedToken] at h
    exact h.trans (List.append_nil _)
  rw [Query.expressionMatches, endExpression, String.toList_append]
  show Glob.accepts (Query.expressionTokens ('*' :: (Query.escapeWhere _ s).toList)) _ = _
  rw [Query.expressionTokens_cons (by decide), ht]
  exact Glob.accepts_run_ofText s.toList v.toList

variable {e : Entity}

/-- The query for equality asks for a value in common with those given. -/
theorem Leaf.run_equalityQuery {l : Leaf} (h : l.IsSearchable) :
    Query.run e l.equalityQuery =
      .ok ⟨sharesValue (e.attributeValues l.field) l.operand.values, []⟩ := by
  rw [Leaf.equalityQuery]
  split
  · next v hv =>
    have hone : (e.attributeValues l.field).contains v =
        sharesValue (e.attributeValues l.field) [v] := by
      rw [Bool.eq_iff_iff]
      simp [sharesValue]
    rw [Query.run_term h, hv, hone]
  · exact Query.run_terms h _

/-- A choice of wildcard queries, one for each value, asks for an attribute value that one of the
expressions matches. -/
theorem run_anyOf_wildcard {field : String} (h : field ≠ Query.nameKey) (values : List String)
    (expression : String → String) :
    Query.run e (Query.anyOf (values.map fun v => Query.wildcard field (expression v))) =
      .ok ⟨(e.attributeValues field).any fun a =>
        values.any fun v => Query.expressionMatches (expression v) a, []⟩ := by
  have hrun : ∀ v, Query.run e (Query.wildcard field (expression v)) = _ :=
    fun v => Query.run_wildcard h (expression v)
  have hsilent : ∀ c ∈ values.map fun v => Query.wildcard field (expression v),
      Query.Silent e c := by
    intro c hc
    obtain ⟨v, -, rfl⟩ := List.mem_map.1 hc
    exact Query.silent_of_run (hrun v)
  rw [Query.run_anyOf_silent hsilent, List.any_map]
  congr 2
  rw [Bool.eq_iff_iff]
  simp only [Function.comp_def, Query.selects_of_run (hrun _), List.any_eq_true]
  exact ⟨fun ⟨v, hv, a, ha, hm⟩ => ⟨a, ha, v, hv, hm⟩, fun ⟨a, ha, v, hv, hm⟩ => ⟨v, hv, a, ha, hm⟩⟩

/-- The query of a comparison says what the comparison says. -/
theorem Leaf.run_toQuery {l : Leaf} (h : l.IsSearchable) :
    Query.run e l.toQuery = .ok ⟨l.evaluate e, []⟩ := by
  have heq := Leaf.run_equalityQuery (e := e) h
  have hterms := Query.run_terms (e := e) h l.operand.values
  rw [Leaf.toQuery, Leaf.evaluate]
  cases l.operator with
  | equals => exact heq
  | notEquals =>
    have hnot := Query.run_not (Query.accepted_of_run heq)
    rwa [Query.selects_of_run heq] at hnot
  | startsWith =>
    have hstart := run_anyOf_wildcard (e := e) h l.operand.values startExpression
    simpa only [startExpression_matches] using hstart
  | endsWith =>
    have hend := run_anyOf_wildcard (e := e) h l.operand.values endExpression
    simpa only [endExpression_matches] using hend
  | oneOf => exact hterms
  | noneOf =>
    have hnot := Query.run_not (Query.accepted_of_run hterms)
    rwa [Query.selects_of_run hterms] at hnot

/-! ### Groups -/

/-- The queries have these answers and name no clause. -/
def Answers (e : Entity) (queries : List Json) (results : List Bool) : Prop :=
  (∀ q ∈ queries, Query.Silent e q) ∧ queries.map (Query.selects e) = results

/-- The queries of the children are put together as their results are. -/
theorem Condition.run_joinQueries (c : Condition) {queries : List Json} {results : List Bool}
    (h : Answers e queries results) :
    Query.run e (c.joinQueries queries) = .ok ⟨c.join results, []⟩ := by
  obtain ⟨hsilent, hsel⟩ := h
  -- The answers of the queries are the results of the children.
  have hall : queries.all (Query.selects e) = results.all id := by
    rw [← hsel, List.all_map]
    rfl
  have hany : queries.any (Query.selects e) = results.any id := by
    rw [← hsel, List.any_map]
    rfl
  cases queries with
  | nil =>
    -- An empty group holds for no entity, whatever its connective.
    obtain rfl : results = [] := hsel.symm
    exact Query.run_matchNone
  | cons q qs =>
    have hne : results.isEmpty = false := by
      rw [← hsel]
      rfl
    cases c with
    | and =>
      show Query.run e (Query.all (q :: qs)) = _
      rw [Query.run_all_silent hsilent, hall, Condition.join, hne]
      rfl
    | or =>
      show Query.run e (Query.any (q :: qs)) = _
      rw [Query.run_any_silent hsilent, hany, Condition.join, hne]
      rfl

mutual

/-- The query of a node says what the node says. -/
theorem Node.run_toQuery (n : Node) (h : ∀ l ∈ n.leaves, l.IsSearchable) :
    Query.run e n.toQuery = .ok ⟨n.evaluate e, []⟩ := by
  match n with
  | .leaf l =>
    rw [Node.toQuery, Node.evaluate]
    exact Leaf.run_toQuery (h l (by simp [Node.leaves]))
  | .group c children =>
    rw [Node.toQuery, Node.evaluate]
    exact c.run_joinQueries (Node.answers_toQueries children h)

/-- The queries of a list of nodes say what the nodes say. -/
theorem Node.answers_toQueries (ns : List Node) (h : ∀ l ∈ Node.leavesOf ns, l.IsSearchable) :
    Answers e (Node.toQueries ns) (Node.evaluateList e ns) := by
  match ns with
  | [] => exact ⟨by simp [Node.toQueries], by simp [Node.toQueries, Node.evaluateList]⟩
  | n :: ns =>
    have hn := Node.run_toQuery n fun l hl =>
      h l (by rw [Node.leavesOf]; exact List.mem_append_left _ hl)
    obtain ⟨hsilent, hsel⟩ := Node.answers_toQueries ns fun l hl =>
      h l (by rw [Node.leavesOf]; exact List.mem_append_right _ hl)
    rw [Node.toQueries, Node.evaluateList]
    constructor
    · intro q hq
      rcases List.mem_cons.1 hq with rfl | hq
      · exact Query.silent_of_run hn
      · exact hsilent q hq
    · rw [List.map_cons, hsel, Query.selects_of_run hn]

end

/-- The query of a condition tree is accepted, matches exactly the entities for which the tree holds,
and names no clause, unless a comparison is on the field that names clauses. -/
theorem Tree.run_toQuery_eq_evaluate (t : Tree) (e : Entity)
    (h : ∀ l ∈ t.leaves, l.field ≠ Query.nameKey) :
    Query.run e t.toQuery = .ok ⟨t.evaluate e, []⟩ :=
  Node.run_toQuery (.group t.condition t.children) h

/-- A nested tree with an escaped start, an empty list of values and an empty group. -/
theorem Tree.run_toQuery_eq_evaluate_nested :
    (∀ l ∈ (⟨.and, [.leaf ⟨"name", .startsWith, .multiple ["a*?\\", "b"]⟩,
        .group .or [.group .and [], .leaf ⟨"name.keyword", .noneOf, .multiple []⟩]]⟩ : Tree).leaves,
      l.field ≠ Query.nameKey) ∧
    Query.run { typeName := "Table", attributes := NameMap.ofList [("name", .str "a*?\\c")] }
      (⟨.and, [.leaf ⟨"name", .startsWith, .multiple ["a*?\\", "b"]⟩,
        .group .or [.group .and [], .leaf ⟨"name.keyword", .noneOf, .multiple []⟩]]⟩ : Tree).toQuery =
        .ok ⟨true, []⟩ :=
  ⟨by decide, Tree.run_toQuery_eq_evaluate _ _ (by decide)⟩

end CatalogAccess.Criteria
