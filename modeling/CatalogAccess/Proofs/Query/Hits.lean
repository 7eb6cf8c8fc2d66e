import CatalogAccess.Deployment
import CatalogAccess.Proofs.Query.Prefilter
import Mathlib.Data.List.Nodup
import Mathlib.Data.List.Perm.Subperm

/-!
# The hits of a check query

A check query lists clauses to choose from, each under a name, together with a clause that picks the
entities asked for. `searchDocuments_eq` says which hits a search reports, and `mem_names_check` that
an entity that was picked is reported with the names of exactly those clauses that it matches, however
they are grouped. `search_check` puts this together for an index without two entities of one
identifier: when there is room for every identifier asked for, no hit is lost.
-/

namespace CatalogAccess

variable {e : Entity}

/-! ### Names -/

namespace Query

/-- A clause that is accepted and names something only where it matches. -/
structure Labelled (e : Entity) (c : Json) : Prop where
  /-- The clause is run to its end. -/
  accepted : Accepted e c
  /-- Only a match is named. -/
  matched : ∀ name ∈ (outcome e c).names, selects e c = true

/-- A clause under a name, which names nothing itself, names its name where it matches. -/
theorem labelled_named {c : Json} (h : Silent e c) (name : String) : Labelled e (named name c) where
  accepted := accepted_of_run (run_named_silent name h)
  matched n hn := by
    rw [outcome_of_run (run_named_silent name h)] at hn
    rw [selects_of_run (run_named_silent name h)]
    cases hs : selects e c
    · rw [hs] at hn
      exact absurd hn List.not_mem_nil
    · rfl

/-- The only name is the clause's own. -/
theorem mem_names_named {c : Json} (h : Silent e c) {name n : String} :
    n ∈ (outcome e (named name c)).names ↔ selects e c = true ∧ n = name := by
  rw [outcome_of_run (run_named_silent name h)]
  cases selects e c <;> simp

/-- Grouping keeps the names that the clauses bring together. -/
theorem names_chunked {cs : List Json} (h : ∀ c ∈ cs, Accepted e c) (limit : Nat) :
    (chunked limit cs).flatMap (fun c => (outcome e c).names) =
      cs.flatMap fun c => (outcome e c).names := by
  unfold chunked
  split
  · rfl
  · have hnames : ∀ piece ∈ pieces limit cs, (outcome e (any piece)).names =
        piece.flatMap fun c => (outcome e c).names := by
      intro piece hp
      rw [outcome_of_run (run_any fun c hc => h c (mem_of_mem_piece hp hc))]
    calc ((pieces limit cs).map any).flatMap (fun c => (outcome e c).names)
        = (pieces limit cs).flatMap fun piece => piece.flatMap fun c => (outcome e c).names := by
          rw [List.flatMap_map]
          exact List.flatMap_congr hnames
      _ = (pieces limit cs).flatten.flatMap fun c => (outcome e c).names := by
          rw [← List.flatMap_id, List.flatMap_assoc]
          rfl
      _ = cs.flatMap fun c => (outcome e c).names := by rw [flatten_pieces]

end Query

/-- A choice of clauses brings together the names of all of them. -/
theorem AccessView.names_choice (v : AccessView) {cs : List Json}
    (h : ∀ c ∈ cs, Query.Accepted e c) :
    (Query.outcome e (v.choice cs)).names = cs.flatMap fun c => (Query.outcome e c).names := by
  obtain ⟨haccepted, -⟩ := Query.chunked_answers h v.effectiveLimit
  rw [AccessView.choice, Query.outcome_of_run (Query.run_any haccepted), Query.names_chunked h]

namespace AccessView

/-- The query for what the entities that a clause picks match of some clauses. -/
def checkQuery (v : AccessView) (cs : List Json) (pick : Json) : Json :=
  if cs.isEmpty then Query.matchNone else Query.all [v.choice cs, pick]

/-- A check query asks for one of the clauses on an entity that is picked, and brings the names of
the clauses together. -/
theorem run_checkQuery (v : AccessView) {cs : List Json} (h : ∀ c ∈ cs, Query.Accepted e c)
    {pick : Json} (hpick : Query.Silent e pick) :
    Query.run e (v.checkQuery cs pick) =
      .ok ⟨cs.any (Query.selects e) && Query.selects e pick,
        cs.flatMap fun c => (Query.outcome e c).names⟩ := by
  unfold checkQuery
  split
  · next hnil =>
    rw [List.isEmpty_iff.1 hnil, Query.run_matchNone]
    rfl
  · obtain ⟨hchoice, hselects⟩ := v.selects_choice h
    have hclauses : ∀ c ∈ [v.choice cs, pick], Query.Accepted e c := by
      simpa using ⟨hchoice, hpick.accepted⟩
    rw [Query.run_all hclauses]
    simp [hselects, v.names_choice h, Query.outcome_of_run hpick]

/-- An entity is found with a name exactly when it was picked and the clause of that name matches. -/
theorem mem_names_check (v : AccessView) {cs : List Json} (h : ∀ c ∈ cs, Query.Labelled e c)
    {pick : Json} (hpick : Query.Silent e pick) {n : String} :
    (Query.selects e (v.checkQuery cs pick) = true ∧
        n ∈ (Query.outcome e (v.checkQuery cs pick)).names) ↔
      Query.selects e pick = true ∧ ∃ c ∈ cs, n ∈ (Query.outcome e c).names := by
  have hrun := v.run_checkQuery (fun c hc => (h c hc).accepted) hpick
  rw [Query.selects_of_run hrun, Query.outcome_of_run hrun, Bool.and_eq_true, List.any_eq_true,
    List.mem_flatMap]
  constructor
  · rintro ⟨⟨-, hp⟩, hn⟩
    exact ⟨hp, hn⟩
  · rintro ⟨hp, c, hc, hn⟩
    exact ⟨⟨⟨c, hc, (h c hc).matched n hn⟩, hp⟩, c, hc, hn⟩

end AccessView

/-- The index field of the identifier holds just that. -/
theorem Entity.attributeValues_guid : e.attributeValues Query.guidField = [e.guid] := rfl

/-! ### Names of policies

A name tells its policy and effect apart as long as the identifiers of policies do not end like the
names of denying clauses. -/

namespace ClauseName

theorem isDenial_iff {name : String} : isDenial name = true ↔ ∃ id, name = id ++ denySuffix := by
  unfold isDenial Text.endsWith
  rw [List.isSuffixOf_iff_suffix]
  constructor
  · rintro ⟨id, hid⟩
    exact ⟨String.ofList id, String.toList_inj.1 (by rw [String.toList_append]; simpa using hid.symm)⟩
  · rintro ⟨id, rfl⟩
    exact ⟨id.toList, String.toList_append.symm⟩

/-- A clause is a denying one exactly when its effect is. -/
theorem isDenial_ofPolicy {id : String} (h : isDenial id = false) (effect : Effect) :
    isDenial (ofPolicy id effect) = true ↔ effect = .deny := by
  cases effect with
  | allow => simp [ofPolicy, h]
  | deny => simpa [ofPolicy] using isDenial_iff.2 ⟨id, rfl⟩

/-- Without a suffix nothing is dropped. -/
theorem dropSuffixes_reverse {id : String} (h : isDenial id = false) :
    dropSuffixes id.toList.reverse = id.toList.reverse := by
  rw [dropSuffixes.eq_def]
  split
  · next r heq =>
    -- The identifier would end with the suffix.
    have hid : id.toList = r.reverse ++ denySuffix.toList := by
      rw [← List.reverse_reverse id.toList, heq]
      simp [denySuffix]
    have hdenial : isDenial id = true :=
      isDenial_iff.2 ⟨String.ofList r.reverse, String.toList_inj.1 (by rw [hid]; simp)⟩
    rw [h] at hdenial
    exact absurd hdenial (by decide)
  · rfl

/-- The name of a clause leads back to its policy. -/
theorem policyId_ofPolicy {id : String} (h : isDenial id = false) (effect : Effect) :
    policyId (ofPolicy id effect) = id := by
  have hdrop : dropSuffixes (ofPolicy id effect).toList.reverse = id.toList.reverse := by
    cases effect with
    | allow => exact dropSuffixes_reverse h
    | deny =>
      have hname : (ofPolicy id .deny).toList.reverse =
          'y' :: 'n' :: 'e' :: 'd' :: '_' :: id.toList.reverse := by
        simp [ofPolicy, denySuffix]
      rw [hname, dropSuffixes]
      exact dropSuffixes_reverse h
  rw [policyId, hdrop, List.reverse_reverse, String.ofList_toList]

/-- A name leads back to its policy and its effect. -/
theorem ofPolicy_inj {a b : String} {x y : Effect} (ha : isDenial a = false)
    (hb : isDenial b = false) (h : ofPolicy a x = ofPolicy b y) : a = b ∧ x = y := by
  constructor
  · rw [← policyId_ofPolicy ha x, h, policyId_ofPolicy hb y]
  · have hdenies : x = .deny ↔ y = .deny := by
      rw [← isDenial_ofPolicy ha, h, isDenial_ofPolicy hb]
    cases x <;> cases y <;> simp_all

end ClauseName

/-! ### Searches -/

/-- What a search reports of an entity. -/
def SearchHit.of (q : Json) (d : Entity) : SearchHit :=
  ⟨d.guid, (NameSet.ofList (Query.outcome d q).names).toList⟩

/-- The hits of all entities that a query selects, in the order of the index. -/
def Query.hits (q : Json) (index : List Entity) : List SearchHit :=
  (index.filter (selects · q)).map (SearchHit.of q)

/-- The hits are the entities that the query selects, in the order of the index, as many as asked
for but at least one. -/
theorem searchDocuments_eq {q : Json} {ds : List Entity} (h : ∀ d ∈ ds, Query.Accepted d q)
    (size : Nat) :
    searchDocuments q size ds =
      .ok (((ds.filter (Query.selects · q)).take (max size 1)).map (SearchHit.of q)) := by
  induction ds generalizing size with
  | nil => simp [searchDocuments]
  | cons d ds ih =>
    have hrun : Query.run d q = .ok (Query.outcome d q) := h d List.mem_cons_self
    have htail := ih fun d hd => h d (List.mem_cons_of_mem _ hd)
    rw [searchDocuments, hrun]
    cases hs : (Query.outcome d q).matched with
    | false =>
      have hfilter : (d :: ds).filter (Query.selects · q) = ds.filter (Query.selects · q) :=
        List.filter_cons_of_neg (by rw [Query.selects, hs]; decide)
      rw [hfilter, ← htail size]
      simp [bind, Except.bind, hs]
    | true =>
      have hfilter : (d :: ds).filter (Query.selects · q) =
          d :: ds.filter (Query.selects · q) :=
        List.filter_cons_of_pos hs
      rw [hfilter]
      by_cases hsize : size ≤ 1
      · -- The search ends with this hit.
        have hmax : max size 1 = 1 := by omega
        rw [hmax]
        simp [bind, Except.bind, pure, Except.pure, hs, hsize, SearchHit.of]
      · have hmax : max size 1 = max (size - 1) 1 + 1 := by omega
        simp [bind, Except.bind, pure, Except.pure, hs, hsize, hmax, htail, SearchHit.of]

/-- Where each identifier is indexed once, a search with room for every identifier asked for
reports all entities that the query selects. -/
theorem searchDocuments_all {index : List Entity}
    (hguids : index.Pairwise fun a b => a.guid ≠ b.guid) {q : Json}
    (h : ∀ d ∈ index, Query.Accepted d q) (guids : List String)
    (hq : ∀ d ∈ index, Query.selects d q = true → d.guid ∈ guids) {size : Nat}
    (hsize : guids.length ≤ size) :
    searchDocuments q size index = .ok (Query.hits q index) := by
  have hnodup : ((index.filter (Query.selects · q)).map Entity.guid).Nodup :=
    List.pairwise_map.2 (hguids.sublist List.filter_sublist)
  have hsub : ((index.filter (Query.selects · q)).map Entity.guid) ⊆ guids := by
    intro guid hg
    obtain ⟨d, hd, rfl⟩ := List.mem_map.1 hg
    obtain ⟨hmem, hs⟩ := List.mem_filter.1 hd
    exact hq d hmem hs
  have hlength : (index.filter (Query.selects · q)).length ≤ max size 1 := by
    have hle := (hnodup.subperm hsub).length_le
    rw [List.length_map] at hle
    omega
  rw [searchDocuments_eq h, List.take_of_length_le hlength, Query.hits]

/-- The names that the hits of an identifier report are those of the entities selected. -/
theorem mem_namesOfHits {index : List Entity} {q : Json} {guid n : String} :
    n ∈ namesOfHits guid (Query.hits q index) ↔
      ∃ d ∈ index, d.guid = guid ∧ Query.selects d q = true ∧ n ∈ (Query.outcome d q).names := by
  simp only [namesOfHits, Query.hits, NameSet.mem_ofList, List.mem_flatMap, List.mem_filter, List.mem_map,
    beq_iff_eq]
  constructor
  · rintro ⟨_, ⟨⟨d, ⟨hd, hs⟩, rfl⟩, hg⟩, hn⟩
    exact ⟨d, hd, hg, hs, NameSet.mem_ofList.1 hn⟩
  · rintro ⟨d, hd, hg, hs, hn⟩
    exact ⟨SearchHit.of q d, ⟨⟨d, ⟨hd, hs⟩, rfl⟩, hg⟩, NameSet.mem_ofList.2 hn⟩

/-- Where each identifier is indexed once, an identifier leads to one entity. -/
theorem eq_of_guid_eq {index : List Entity} (h : index.Pairwise fun a b => a.guid ≠ b.guid)
    {a b : Entity} (ha : a ∈ index) (hb : b ∈ index) (hab : a.guid = b.guid) : a = b :=
  List.inj_on_of_nodup_map (List.pairwise_map.2 h) ha hb hab

/-! ### Requests -/

namespace Request

variable {α β : Type} {d : Deployment}

/-- The result of a request to a deployment, and the deployment that it leaves. -/
def runOn (x : Request α) (d : Deployment) : Except AccessError α × Deployment := x d

@[simp] theorem runOn_pure (a : α) : runOn (pure a) d = (.ok a, d) := rfl

@[simp] theorem runOn_read (f : Deployment → Except AccessError α) :
    runOn (read f) d = (f d, d) := rfl

@[simp] theorem runOn_update (f : Deployment → Deployment) : runOn (update f) d = (.ok (), f d) :=
  rfl

/-- The second step sees the result and the deployment that the first one left. -/
theorem runOn_bind (x : Request α) (f : α → Request β) (d : Deployment) :
    runOn (x >>= f) d = match runOn x d with
      | (.ok a, d') => runOn (f a) d'
      | (.error e, d') => (.error e, d') := by
  unfold runOn
  show (ExceptT.bindCont f (x d).1 (x d).2 : Except AccessError β × Deployment) = _
  cases (x d : Except AccessError α × Deployment) with
  | mk r d' => cases r <;> rfl

/-- A check by search is recorded with the decision told by the hits. -/
theorem runOn_check (search : Deployment → Except AccessError (List SearchHit))
    (decideBy : List SearchHit → Decision) (user action target : String) {hits : List SearchHit}
    (h : search d = .ok hits) :
    runOn (do
        let hits ← read search
        let decision := decideBy hits
        update (·.record user action target decision)
        return decision) d =
      (.ok (decideBy hits), d.record user action target (decideBy hits)) := by
  rw [runOn_bind, runOn_read, h]
  rfl

end Request

/-- A search whose call passes reports what the index holds. -/
theorem Deployment.searchWithin_of_checkCall {d : Deployment} {label : String}
    (h : d.checkCall label "search" "" = .ok ()) (q : Json) (size : Nat) :
    d.searchWithin label q size = searchDocuments q size d.index := by
  rw [searchWithin, h, search]

end CatalogAccess
