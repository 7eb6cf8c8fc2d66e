import CatalogAccess.AccessQuery
import CatalogAccess.Proofs.Glob

/-!
# What the shapes of a query say

`Query.run` refuses malformed queries, so each statement here has two halves: the query is accepted
when its clauses are, and its outcome is put together from theirs. `Accepted` and `outcome` name
these halves. There is one lemma for each way of building a query, so that proofs about compiled
policies and criteria never look into `run`.
-/

namespace CatalogAccess.Query

/-- What a query says of an entity; nothing is matched when it is refused. -/
def outcome (e : Entity) (q : Json) : Outcome := (run e q).toOption.getD ⟨false, []⟩

/-- The query is run to its end. -/
def Accepted (e : Entity) (q : Json) : Prop := run e q = .ok (outcome e q)

/-- Whether a query matches an entity. -/
def selects (e : Entity) (q : Json) : Bool := (outcome e q).matched

/-- The query is run to its end and names no clause. -/
def Silent (e : Entity) (q : Json) : Prop := run e q = .ok ⟨selects e q, []⟩

variable {e : Entity}

theorem outcome_of_run {q : Json} {o : Outcome} (h : run e q = .ok o) : outcome e q = o := by
  rw [outcome, h]
  rfl

theorem accepted_of_run {q : Json} {o : Outcome} (h : run e q = .ok o) : Accepted e q := by
  rw [Accepted, outcome_of_run h, h]

theorem selects_of_run {q : Json} {o : Outcome} (h : run e q = .ok o) :
    selects e q = o.matched := by
  rw [selects, outcome_of_run h]

theorem silent_of_run {q : Json} {b : Bool} (h : run e q = .ok ⟨b, []⟩) : Silent e q := by
  rw [Silent, selects_of_run h, h]

theorem Silent.accepted {q : Json} (h : Silent e q) : Accepted e q := accepted_of_run h

/-- Clauses that name nothing bring no names together. -/
theorem names_of_silent {cs : List Json} (h : ∀ c ∈ cs, Silent e c) :
    cs.flatMap (fun c => (outcome e c).names) = [] :=
  List.flatMap_eq_nil_iff.2 fun c hc => by rw [outcome_of_run (h c hc)]

/-! ### Clauses of a list -/

/-- The clauses of a list are counted one after the other. -/
theorem runItems_eq {role : ClauseRole} {cs : List Json} (h : ∀ c ∈ cs, Accepted e c) (t : Tally) :
    runItems e role cs t = .ok (cs.foldl (fun t c => t.add role (outcome e c)) t) := by
  induction cs generalizing t with
  | nil => rw [runItems]; rfl
  | cons c cs ih =>
    rw [runItems, h c List.mem_cons_self]
    exact ih (fun c hc => h c (List.mem_cons_of_mem _ hc)) _

/-- Required clauses must all match. -/
theorem foldl_add_required (cs : List Json) (t : Tally) :
    cs.foldl (fun t c => t.add .required (outcome e c)) t =
      { t with ok := t.ok && cs.all (selects e)
               names := t.names ++ cs.flatMap fun c => (outcome e c).names } := by
  induction cs generalizing t with
  | nil => simp
  | cons c cs ih =>
    rw [List.foldl_cons, ih]
    simp [Tally.add, selects, Bool.and_assoc]

/-- Of prohibited clauses none may match. -/
theorem foldl_add_prohibited (cs : List Json) (t : Tally) :
    cs.foldl (fun t c => t.add .prohibited (outcome e c)) t =
      { t with ok := t.ok && !cs.any (selects e) } := by
  induction cs generalizing t with
  | nil => simp
  | cons c cs ih =>
    rw [List.foldl_cons, ih]
    simp [Tally.add, selects, Bool.and_assoc]

/-- Of optional clauses the matching ones are counted. -/
theorem foldl_add_optional (cs : List Json) (t : Tally) :
    cs.foldl (fun t c => t.add .optional (outcome e c)) t =
      { t with satisfied := t.satisfied + cs.countP (selects e)
               names := t.names ++ cs.flatMap fun c => (outcome e c).names } := by
  induction cs generalizing t with
  | nil => simp
  | cons c cs ih =>
    rw [List.foldl_cons, ih, List.countP_cons]
    simp only [Tally.add, selects, List.flatMap_cons, List.append_assoc]
    congr 1
    exact (Nat.add_right_comm _ _ _).trans (Nat.add_assoc _ _ _)

/-! ### Members of a `bool` query -/

/-- A key without a part to play is passed over. -/
theorem runMembers_other {key : String} {v : Json} (hv : ∀ items, v ≠ .arr items)
    (hk : ClauseRole.ofKey? key = none) (ms : List (String × Json)) (t : Tally) :
    runMembers e ((key, v) :: ms) t = runMembers e ms t := by
  rw [runMembers.eq_def]
  cases v with
  | arr items => exact absurd rfl (hv items)
  | _ => simp only [hk]; rfl

/-- The clauses under a key count in the part of the key. -/
theorem runMembers_list {key : String} {role : ClauseRole} {cs : List Json}
    (hk : ClauseRole.ofKey? key = some role) (h : ∀ c ∈ cs, Accepted e c)
    (ms : List (String × Json)) (t : Tally) :
    runMembers e ((key, .arr cs) :: ms) t =
      runMembers e ms (cs.foldl (fun t c => t.add role (outcome e c)) t) := by
  rw [runMembers]
  simp only [hk, runItems_eq h]
  rfl

/-- A single clause under a key counts in the part of the key. -/
theorem runMembers_single {key : String} {role : ClauseRole} {c : Json}
    (hc : ∀ items, c ≠ .arr items) (hk : ClauseRole.ofKey? key = some role) (h : Accepted e c)
    (ms : List (String × Json)) (t : Tally) :
    runMembers e ((key, c) :: ms) t = runMembers e ms (t.add role (outcome e c)) := by
  rw [runMembers.eq_def]
  have h' : run e c = .ok (outcome e c) := h
  cases c with
  | arr items => exact absurd rfl (hc items)
  | _ => simp only [hk, h']; rfl

/-- The outcome of a `bool` query once its clauses have been counted. -/
theorem run_bool {members : List (String × Json)} {t : Tally}
    (h : runMembers e members {} = .ok t) :
    run e (.obj [("bool", .obj members)]) = .ok (Outcome.withName
      ⟨t.ok && decide (minimumShouldMatch (.obj members) ≤ t.satisfied), t.names⟩
      (.obj members)) := by
  rw [run, runBool, h]
  rfl

/-! ### Groups of clauses -/

theorem run_matchAll : run e matchAll = .ok ⟨true, []⟩ := rfl

theorem run_matchNone : run e matchNone = .ok ⟨false, []⟩ := by
  have h : runMembers e [("must_not", matchAll)] {} = .ok { ok := false } := by
    rw [runMembers_single (by intro items; exact Json.noConfusion) rfl
      (accepted_of_run run_matchAll), outcome_of_run run_matchAll, runMembers]
    rfl
  rw [matchNone, run_bool h]
  rfl

/-- All clauses match, and the names of all of them are kept. -/
theorem run_all {cs : List Json} (h : ∀ c ∈ cs, Accepted e c) :
    run e (all cs) = .ok ⟨cs.all (selects e), cs.flatMap fun c => (outcome e c).names⟩ := by
  have ht : runMembers e [("filter", .arr cs)] {} =
      .ok { ok := cs.all (selects e), names := cs.flatMap fun c => (outcome e c).names } := by
    rw [runMembers_list rfl h, foldl_add_required, runMembers]
    rfl
  rw [all, run_bool ht]
  simp [Outcome.withName, minimumShouldMatch, minimumShouldMatch.defaultMinimum, Json.get?,
    nameKey]

/-- Some clause matches, and the names of all of them are kept. -/
theorem run_any {cs : List Json} (h : ∀ c ∈ cs, Accepted e c) :
    run e (any cs) = .ok ⟨cs.any (selects e), cs.flatMap fun c => (outcome e c).names⟩ := by
  have ht : runMembers e (anyMembers cs) {} =
      .ok { satisfied := cs.countP (selects e)
            names := cs.flatMap fun c => (outcome e c).names } := by
    rw [anyMembers, runMembers_other (by intro items; exact Json.noConfusion) rfl,
      runMembers_list rfl h, foldl_add_optional, runMembers]
    simp
  -- One match is asked for, which is there when the count of matches is positive.
  have hmin : minimumShouldMatch (.obj (anyMembers cs)) = 1 := rfl
  have hany : decide (1 ≤ cs.countP (selects e)) = cs.any (selects e) := by
    rw [Bool.eq_iff_iff, decide_eq_true_eq, List.any_eq_true]
    exact List.countP_pos_iff
  rw [any, run_bool ht, hmin, Bool.true_and, hany]
  simp [Outcome.withName, anyMembers, Json.get?, nameKey]

/-- The clause does not match; its names do not count. -/
theorem run_not {c : Json} (h : Accepted e c) : run e (not c) = .ok ⟨!selects e c, []⟩ := by
  have ht : runMembers e [("must_not", .arr [c])] {} = .ok { ok := !selects e c } := by
    rw [runMembers_list rfl (by simpa using h), foldl_add_prohibited, runMembers]
    simp
  rw [not, run_bool ht]
  simp [Outcome.withName, minimumShouldMatch, minimumShouldMatch.defaultMinimum, clauseCount,
    Json.get?, nameKey]

/-- However many clauses there are to choose from, one of them must match. -/
theorem run_anyOf {cs : List Json} (h : ∀ c ∈ cs, Accepted e c) :
    run e (anyOf cs) = .ok ⟨cs.any (selects e), cs.flatMap fun c => (outcome e c).names⟩ := by
  match cs with
  -- Without clauses nothing matches, and a single clause stands for itself.
  | [] => exact run_matchNone
  | [c] =>
    have hc : run e c = .ok (outcome e c) := h c List.mem_cons_self
    simp [anyOf, hc, selects]
  | c :: d :: cs => exact run_any h

/-- All clauses match, where none names a clause. -/
theorem run_all_silent {cs : List Json} (h : ∀ c ∈ cs, Silent e c) :
    run e (all cs) = .ok ⟨cs.all (selects e), []⟩ := by
  rw [run_all fun c hc => (h c hc).accepted, names_of_silent h]

/-- Some clause matches, where none names a clause. -/
theorem run_any_silent {cs : List Json} (h : ∀ c ∈ cs, Silent e c) :
    run e (any cs) = .ok ⟨cs.any (selects e), []⟩ := by
  rw [run_any fun c hc => (h c hc).accepted, names_of_silent h]

/-- One of the clauses to choose from matches, where none names a clause. -/
theorem run_anyOf_silent {cs : List Json} (h : ∀ c ∈ cs, Silent e c) :
    run e (anyOf cs) = .ok ⟨cs.any (selects e), []⟩ := by
  rw [run_anyOf fun c hc => (h c hc).accepted, names_of_silent h]

/-- A clause under a name adds its name when it matches. -/
theorem run_named {c : Json} (name : String) (h : Accepted e c) :
    run e (named name c) =
      .ok ⟨selects e c, (outcome e c).names ++ if selects e c then [name] else []⟩ := by
  -- The name is no clause, and is added to the outcome at the end.
  have ht : runMembers e [(nameKey, .str name), ("filter", .arr [c])] {} =
      .ok { ok := selects e c, names := (outcome e c).names } := by
    rw [runMembers_other (by intro items; exact Json.noConfusion) rfl,
      runMembers_list rfl (by simpa using h), foldl_add_required, runMembers]
    simp
  rw [named, run_bool ht]
  cases hs : selects e c <;>
    simp [Outcome.withName, minimumShouldMatch, minimumShouldMatch.defaultMinimum, Json.get?,
      nameKey]

/-- A clause under a name, which names nothing itself, names its name when it matches. -/
theorem run_named_silent {c : Json} (name : String) (h : Silent e c) :
    run e (named name c) = .ok ⟨selects e c, if selects e c then [name] else []⟩ := by
  rw [run_named name h.accepted, outcome_of_run h, List.nil_append]

/-! ### Comparisons of a field -/

/-- The field of a comparison is its only member, as long as it is not the key of names. -/
theorem singleField_obj {field : String} (h : field ≠ nameKey) (v : Json) :
    singleField (.obj [(field, v)]) = .ok (field, v) := by
  simp [singleField, h]

/-- A comparison adds no name. -/
theorem withName_field {field : String} (h : field ≠ nameKey) (v : Json) (o : Outcome) :
    o.withName (.obj [(field, v)]) = o := by
  cases hm : o.matched <;> simp [Outcome.withName, Json.get?, h, hm]

/-- The texts of a list of strings are read back. -/
theorem mapM_scalar_str (values : List String) : (values.map Json.str).mapM scalar = .ok values := by
  induction values with
  | nil => rfl
  | cons v vs ih =>
    rw [List.map_cons, List.mapM_cons, ih]
    rfl

theorem run_term {field : String} (h : field ≠ nameKey) (value : String) :
    run e (term field value) = .ok ⟨(e.attributeValues field).contains value, []⟩ := by
  have hf : runField e "term" (.obj [(field, .str value)]) =
      .ok ((e.attributeValues field).contains value) := by
    rw [runField, if_pos rfl, singleField_obj h]
    rfl
  rw [term, run]
  simp only [hf, bind, Except.bind, pure, Except.pure]
  exact congrArg Except.ok (withName_field h _ _)

theorem run_terms {field : String} (h : field ≠ nameKey) (values : List String) :
    run e (terms field values) = .ok ⟨(e.attributeValues field).any values.contains, []⟩ := by
  have hf : runField e "terms" (.obj [(field, Json.strings values)]) =
      .ok ((e.attributeValues field).any values.contains) := by
    rw [runField, if_neg (by decide), if_pos rfl, singleField_obj h, Json.strings]
    simp only [bind, Except.bind, mapM_scalar_str]
    rfl
  rw [terms, run]
  simp only [hf, bind, Except.bind, pure, Except.pure]
  exact congrArg Except.ok (withName_field h _ _)

theorem run_wildcard {field : String} (h : field ≠ nameKey) (expression : String) :
    run e (wildcard field expression) =
      .ok ⟨(e.attributeValues field).any (expressionMatches expression), []⟩ := by
  have hf : runField e "wildcard" (.obj [(field, .str expression)]) =
      .ok ((e.attributeValues field).any (expressionMatches expression)) := by
    rw [runField, if_neg (by decide), if_neg (by decide), if_pos rfl, singleField_obj h]
    rfl
  rw [wildcard, run]
  simp only [hf, bind, Except.bind, pure, Except.pure]
  exact congrArg Except.ok (withName_field h _ _)

end CatalogAccess.Query
