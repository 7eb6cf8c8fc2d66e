import CatalogAccess.Proofs.Authority
import Mathlib.Data.List.Pairwise
import Mathlib.Data.List.Perm.Basic
import Mathlib.Logic.Equiv.Fin.Basic

/-!
# Batches in any order

A mutation either fails, or does to the authority what it is for (`Authority.after`). Which of the two
depends on the faults and on the policy that the mutation is about (`System.failure?_congr`). The
mutations of a batch that are about different policies (`Mutation.Independent`) are therefore executed as
if all of them had been checked at the beginning: `System.execute_eq` says what is reported and what is
stored. The order of the batch decides nothing but which identifiers the created policies are given
(`System.execute_perm`).
-/

namespace CatalogAccess

/-! ### One mutation -/

namespace Mutation

/-- The identifier of the stored policy that a mutation is about. -/
def subject? : Mutation → Option String
  | create _ => none
  | update p => p.id
  | delete id _ => some id

/-- What is stored where a mutation of a stored policy goes through. -/
def written? : Mutation → Option Policy
  | update p => some p
  | _ => none

/-- The policy that a mutation creates. -/
def created? : Mutation → Option Policy
  | create p => some p
  | _ => none

end Mutation

namespace Authority

variable {a : Authority} {m : Mutation} {id : String} {p : Policy}

@[simp] theorem after_roles : (a.after m).roles = a.roles := by cases m <;> rfl

@[simp] theorem after_userGroups : (a.after m).userGroups = a.userGroups := by cases m <;> rfl

@[simp] theorem after_failing : (a.after m).failing = a.failing := by cases m <;> rfl

@[simp] theorem after_mutations : (a.after m).mutations = a.mutations + 1 := by cases m <;> rfl

/-- A creation assigns one identifier. -/
theorem after_lastId : (a.after m).lastId = a.lastId + m.created?.toList.length := by
  cases m <;> rfl

theorem lastId_le_after : a.lastId ≤ (a.after m).lastId := by
  rw [after_lastId]
  exact Nat.le_add_right _ _

/-- A created policy is stored under the next identifier. -/
theorem after_created (h : m.created? = some p) :
    (a.after m).policies.get? (a.nextId "policy") =
      some { p with id := some (a.nextId "policy") } := by
  cases m with
  | create c =>
    obtain rfl := Option.some.inj h
    exact NameMap.get?_insert.trans (if_pos rfl)
  | update c => exact absurd h.symm (Option.some_ne_none p)
  | delete id name => exact absurd h.symm (Option.some_ne_none p)

/-- The policy that a mutation is about is written or gone. -/
theorem after_subject (h : m.subject? = some id) : (a.after m).policies.get? id = m.written? := by
  cases m with
  | create p => exact absurd h.symm (Option.some_ne_none id)
  | update p =>
    have hid : p.id = some id := h
    simp only [after, hid, Option.map_some, Option.getD_some, NameMap.get?_insert, if_pos]
    rfl
  | delete x name =>
    obtain rfl := Option.some.inj h
    exact NameMap.get?_erase.trans (if_pos rfl)

/-- Everything else stays. -/
theorem after_other (h : m.subject? ≠ some id)
    (hnew : m.created?.isSome = true → id ≠ a.nextId "policy") :
    (a.after m).policies.get? id = a.policies.get? id := by
  cases m with
  | create p => exact NameMap.get?_insert.trans (if_neg (hnew rfl))
  | update p =>
    cases hid : p.id with
    | none => simp only [after, hid, Option.map_none, Option.getD_none]
    | some x =>
      have hne : id ≠ x := fun heq => h (heq ▸ hid)
      simp only [after, hid, Option.map_some, Option.getD_some, NameMap.get?_insert, if_neg hne]
  | delete x name =>
    have hne : id ≠ x := fun heq => h (heq ▸ rfl)
    exact NameMap.get?_erase.trans (if_neg hne)

end Authority

namespace System

variable {s t : System} {deadlineMs : Nat} {m : Mutation}

/-- What is reported of a mutation that fails. -/
def failure? (s : System) (deadlineMs : Nat) (m : Mutation) : Option FailedMutation :=
  match s.applyMutation deadlineMs m with
  | .ok _ => none
  | .error e => some ⟨m.describe, e.message⟩

/-- Whether a mutation goes through. -/
def admits (s : System) (deadlineMs : Nat) (m : Mutation) : Bool := (s.failure? deadlineMs m).isNone

/-- The mutation goes through. -/
def Accepts (s : System) (deadlineMs : Nat) (m : Mutation) : Prop :=
  ∃ a, s.applyMutation deadlineMs m = .ok a

theorem admits_iff : s.admits deadlineMs m = true ↔ s.Accepts deadlineMs m := by
  unfold admits failure? Accepts
  cases s.applyMutation deadlineMs m <;> simp

/-- An attempt is reported, and changes the authority if the mutation does not fail. -/
theorem attempt_eq (r : Report) : attempt deadlineMs (r, s) m =
    match s.failure? deadlineMs m with
    | none => ({ r with attempted := r.attempted + 1, succeeded := r.succeeded + 1 },
        { s with authority := s.authority.after m })
    | some f => ({ r with attempted := r.attempted + 1, failures := r.failures ++ [f] }, s) := by
  cases hm : s.applyMutation deadlineMs m with
  | ok a => simp only [attempt, failure?, hm, ← (applyMutation_ok hm).1]
  | error e => simp only [attempt, failure?, hm]

/-- Whether and how a mutation fails depends on the faults and on the policy that it is about. -/
theorem failure?_congr (hfaults : t.faults = s.faults)
    (hfailing : t.authority.failing = s.authority.failing)
    (hget : ∀ id, m.subject? = some id →
      t.authority.policies.get? id = s.authority.policies.get? id) :
    t.failure? deadlineMs m = s.failure? deadlineMs m := by
  have hcheck : ∀ operation name,
      t.authority.checkFailure operation name = s.authority.checkFailure operation name := by
    intro operation name
    rw [Authority.checkFailure, hfailing]
    rfl
  unfold failure?
  cases m with
  | create p =>
    simp only [applyMutation, hfaults, Authority.createPolicy, hcheck]
    cases s.faults.checkWithin deadlineMs (Mutation.create p).describe "create_policy" p.name with
    | error e => rfl
    | ok _ => cases s.authority.checkFailure "create policy" p.name <;> rfl
  | update p =>
    cases hid : p.id with
    | none => simp only [applyMutation, hfaults, Authority.updatePolicy, hid]
    | some id =>
      have hcontains : t.authority.policies.contains id = s.authority.policies.contains id := by
        rw [NameMap.contains, hget id hid, NameMap.contains]
      simp only [applyMutation, hfaults, Authority.updatePolicy, hid, hcheck, hcontains]
      cases s.faults.checkWithin deadlineMs (Mutation.update p).describe "update_policy" p.displayId with
      | error e => rfl
      | ok _ =>
        cases s.authority.checkFailure "update policy" p.name with
        | error e => rfl
        | ok _ => cases s.authority.policies.contains id <;> rfl
  | delete id name =>
    simp only [applyMutation, hfaults, Authority.deletePolicy, hcheck, hget id rfl]
    cases s.faults.checkWithin deadlineMs (Mutation.delete id name).describe "delete_policy" id with
    | error e => rfl
    | ok _ =>
      cases s.authority.checkFailure "delete policy"
        (((s.authority.policies.get? id).map Policy.name).getD "") with
      | error e => rfl
      | ok _ => cases s.authority.policies.get? id <;> rfl

/-- So it is with whether it goes through. -/
theorem accepts_congr (hfaults : t.faults = s.faults)
    (hfailing : t.authority.failing = s.authority.failing)
    (hget : ∀ id, m.subject? = some id →
      t.authority.policies.get? id = s.authority.policies.get? id) :
    t.Accepts deadlineMs m ↔ s.Accepts deadlineMs m := by
  rw [← admits_iff, ← admits_iff, admits, admits, failure?_congr hfaults hfailing hget]

end System

/-! ### New identifiers -/

namespace Plan

variable {a b : Authority} {id : String}

/-- The first creation is given the next identifier. -/
theorem createdId_zero : createdId a 0 = a.nextId "policy" := rfl

/-- Different creations are given different identifiers. -/
theorem createdId_injective {i j : Nat} (h : createdId a i = createdId a j) : i = j := by
  have := Authority.identifier_injective h
  omega

/-- No creation is given an identifier that has been assigned. -/
theorem ne_createdId (h : ∃ n ≤ a.lastId, id = Authority.identifier "policy" n) (i : Nat) :
    id ≠ createdId a i := by
  obtain ⟨n, hn, hid⟩ := h
  intro hnew
  have := Authority.identifier_injective (hid.symm.trans hnew)
  omega

/-- The identifiers that are assigned later on follow those assigned before. -/
theorem createdId_of_lastId {k : Nat} (h : b.lastId = a.lastId + k) (i : Nat) :
    createdId b i = createdId a (k + i) := by
  unfold createdId
  rw [h]
  congr 1
  omega

end Plan

/-! ### Independent mutations -/

namespace Mutation

variable {a b b' : Authority} {m m' : Mutation} {ms ms' : List Mutation} {id : String}

/-- The mutations are about different stored policies. The identifiers of these have been assigned, so
that no policy can be created under them. -/
structure Independent (a : Authority) (ms : List Mutation) : Prop where
  /-- The identifiers have been assigned. -/
  assigned : ∀ m ∈ ms, ∀ id, m.subject? = some id →
    ∃ n ≤ a.lastId, id = Authority.identifier "policy" n
  /-- The policies are different. -/
  distinct : ms.Pairwise fun m m' => ∀ id, m.subject? = some id → m'.subject? ≠ some id

namespace Independent

theorem sublist (h : Independent a ms) (hms : ms'.Sublist ms) : Independent a ms' :=
  ⟨fun m hm => h.assigned m (hms.subset hm), h.distinct.sublist hms⟩

theorem perm (h : Independent a ms) (hms : ms.Perm ms') : Independent a ms' :=
  ⟨fun m hm => h.assigned m (hms.mem_iff.2 hm),
    (hms.pairwise_iff fun hne id hid hid' => hne id hid' hid).1 h.distinct⟩

/-- The rest of a batch is independent of its first mutation. -/
theorem tail (h : Independent a (m :: ms)) (hlast : a.lastId ≤ b.lastId) : Independent b ms := by
  refine ⟨fun m' hm' id hid => ?_, (List.pairwise_cons.1 h.distinct).2⟩
  obtain ⟨n, hn, heq⟩ := h.assigned m' (List.mem_cons_of_mem m hm') id hid
  exact ⟨n, Nat.le_trans hn hlast, heq⟩

/-- A policy is about one mutation at most. -/
theorem eq_of_subject (h : Independent a ms) (hm : m ∈ ms) (hm' : m' ∈ ms)
    (hid : m.subject? = some id) (hid' : m'.subject? = some id) : m = m' := by
  by_contra hne
  have hsymm : Std.Symm fun m m' : Mutation => ∀ id, m.subject? = some id → m'.subject? ≠ some id :=
    ⟨fun _ _ hdistinct id hid hid' => hdistinct id hid' hid⟩
  exact h.distinct.forall hm hm' hne id hid hid'

/-- The first mutation leaves alone what the others are about. -/
theorem spares (h : Independent a (m :: ms)) (hm' : m' ∈ ms) (hid : m'.subject? = some id) :
    (a.after m).policies.get? id = a.policies.get? id := by
  refine Authority.after_other (fun hsame => ?_) fun _ hnew => ?_
  · exact (List.pairwise_cons.1 h.distinct).1 m' hm' id hsame hid
  · have hassigned := h.assigned m' (List.mem_cons_of_mem m hm') id hid
    exact Plan.ne_createdId hassigned 0 (hnew.trans Plan.createdId_zero.symm)

end Independent

/-! ### Results of a batch -/

/-- What independent mutations that all go through make of an authority. -/
structure Results (ms : List Mutation) (a b : Authority) : Prop where
  /-- One identifier is assigned for each creation. -/
  lastId : b.lastId = a.lastId + (ms.filterMap created?).length
  /-- Created policies are stored under the identifiers assigned, in order. -/
  created : ∀ i c, (ms.filterMap created?)[i]? = some c →
    b.policies.get? (Plan.createdId a i) = some { c with id := some (Plan.createdId a i) }
  /-- What a mutation is about is written or gone. -/
  subject : ∀ m ∈ ms, ∀ id, m.subject? = some id → b.policies.get? id = m.written?
  /-- Every other policy stays. -/
  other : ∀ id, (∀ i < (ms.filterMap created?).length, id ≠ Plan.createdId a i) →
    (∀ m ∈ ms, m.subject? ≠ some id) → b.policies.get? id = a.policies.get? id
  /-- So do the roles. -/
  roles : b.roles = a.roles
  /-- So do the groups of users. -/
  userGroups : b.userGroups = a.userGroups
  /-- So do the names whose writes fail. -/
  failing : b.failing = a.failing
  /-- The writes are counted. -/
  mutations : b.mutations = a.mutations + ms.length

/-- The first mutation of a batch and the results of the rest. -/
theorem Results.cons (h : Independent a (m :: ms)) (hrest : Results ms (a.after m) b) :
    Results (m :: ms) a b := by
  have hcreations : (m :: ms).filterMap created? =
      m.created?.toList ++ ms.filterMap created? := by
    rw [List.filterMap_cons]
    cases m.created? <;> rfl
  have hlater : ∀ i, Plan.createdId (a.after m) i =
      Plan.createdId a (m.created?.toList.length + i) :=
    Plan.createdId_of_lastId Authority.after_lastId
  refine ⟨?_, fun i c hc => ?_, fun m' hm' id hid => ?_, fun id hnew hother => ?_,
    hrest.roles.trans Authority.after_roles, hrest.userGroups.trans Authority.after_userGroups,
    hrest.failing.trans Authority.after_failing, ?_⟩
  · rw [hrest.lastId, Authority.after_lastId, hcreations, List.length_append, Nat.add_assoc]
  · rw [hcreations] at hc
    cases hcreated : m.created? with
    | none =>
      rw [hcreated] at hc hlater
      have hstored := hrest.created i c hc
      rwa [hlater, Option.toList_none, List.length_nil, Nat.zero_add] at hstored
    | some p =>
      rw [hcreated] at hc hlater
      cases i with
      | zero =>
        -- The rest creates its policies under other identifiers, and is about none of them.
        obtain rfl : p = c := Option.some.inj hc
        rw [hrest.other (Plan.createdId a 0) (fun i _ heq => ?_) fun m' hm' hid => ?_]
        · rw [Plan.createdId_zero]
          exact Authority.after_created hcreated
        · have hzero := Plan.createdId_injective (heq.trans (hlater i))
          rw [Option.toList_some, List.length_singleton] at hzero
          omega
        · exact Plan.ne_createdId (h.assigned m' (List.mem_cons_of_mem m hm') _ hid) 0 rfl
      | succ i =>
        have hstored := hrest.created i c hc
        rwa [hlater, Option.toList_some, List.length_singleton, Nat.add_comm 1 i] at hstored
  · rcases List.mem_cons.1 hm' with rfl | hm'
    · have hassigned := h.assigned m' List.mem_cons_self id hid
      rw [hrest.other id (fun i _ => ?_) fun m hm hid' =>
        (List.pairwise_cons.1 h.distinct).1 m hm id hid hid']
      · exact Authority.after_subject hid
      · rw [hlater]
        exact Plan.ne_createdId hassigned _
    · exact hrest.subject m' hm' id hid
  · rw [hcreations, List.length_append] at hnew
    rw [hrest.other id (fun i hi => ?_) fun m' hm' => hother m' (List.mem_cons_of_mem m hm')]
    · refine Authority.after_other (hother m List.mem_cons_self) fun hcreated => ?_
      obtain ⟨p, hp⟩ := Option.isSome_iff_exists.1 hcreated
      rw [hp, Option.toList_some, List.length_singleton] at hnew
      rw [← Plan.createdId_zero]
      exact hnew 0 (by omega)
    · rw [hlater]
      exact hnew _ (by omega)
  · rw [hrest.mutations, Authority.after_mutations, List.length_cons]
    omega

/-- Independent mutations have their results. -/
theorem Independent.results (h : Independent a ms) : Results ms a (ms.foldl Authority.after a) := by
  induction ms generalizing a with
  | nil =>
    exact ⟨rfl, fun i c hc => absurd hc (by simp), fun m hm => absurd hm List.not_mem_nil,
      fun _ _ _ => rfl, rfl, rfl, rfl, rfl⟩
  | cons m ms ih => exact .cons h (ih (h.tail Authority.lastId_le_after))

end Mutation

/-! ### Batches in another order -/

namespace Authority

/-- What two runs have made of an authority is the same up to the identifiers that they have assigned:
these are the same, and permuting them takes one to the other. -/
structure SameUpToIds (a b b' : Authority) : Prop where
  /-- The same identifiers have been assigned. -/
  lastId : b'.lastId = b.lastId
  /-- What is stored under them is the same after a permutation. -/
  created : ∃ π : Equiv.Perm (Fin (b.lastId - a.lastId)), ∀ i,
    b'.policies.get? (Plan.createdId a (π i)) =
      (b.policies.get? (Plan.createdId a i)).map fun p => { p with id := some (Plan.createdId a (π i)) }
  /-- Every other policy is the same. -/
  other : ∀ id, (∀ i < b.lastId - a.lastId, id ≠ Plan.createdId a i) →
    b'.policies.get? id = b.policies.get? id
  /-- So are the roles. -/
  roles : b'.roles = b.roles
  /-- So are the groups of users. -/
  userGroups : b'.userGroups = b.userGroups
  /-- So are the names whose writes fail. -/
  failing : b'.failing = b.failing
  /-- So is the number of writes. -/
  mutations : b'.mutations = b.mutations

end Authority

namespace Mutation

variable {a b b' : Authority} {ms ms' : List Mutation}

/-- Independent mutations in another order have the same results, up to the identifiers assigned. -/
theorem Results.sameUpToIds (h : Results ms a b) (h' : Results ms' a b') (hms : ms.Perm ms') :
    a.SameUpToIds b b' := by
  have hcreated := hms.filterMap created?
  have hcount : b.lastId - a.lastId = (ms.filterMap created?).length := by
    rw [h.lastId]
    omega
  have hlast : b'.lastId = b.lastId := by rw [h'.lastId, h.lastId, hcreated.length_eq]
  refine ⟨hlast, ?_, fun id hnew => ?_, h'.roles.trans h.roles.symm,
    h'.userGroups.trans h.userGroups.symm, h'.failing.trans h.failing.symm, ?_⟩
  · -- The positions of the creations in one order and in the other.
    let e : Fin (ms.filterMap created?).length ≃ Fin (ms'.filterMap created?).length :=
      ⟨hcreated.idxBij, hcreated.symm.idxBij, hcreated.idxBij_rightInverse_idxBij_symm,
        hcreated.idxBij_leftInverse_idxBij_symm⟩
    refine ⟨(finCongr hcount).trans (e.trans (finCongr (hcreated.length_eq.symm.trans hcount.symm))),
      fun i => ?_⟩
    have hi : (i : Nat) < (ms.filterMap created?).length := hcount ▸ i.2
    let j := e (finCongr hcount i)
    have hsame : (ms'.filterMap created?)[(j : Nat)]? = some (ms.filterMap created?)[(i : Nat)] := by
      rw [List.getElem?_eq_getElem j.2]
      exact congrArg some (hcreated.getElem_idxBij_eq_getElem (finCongr hcount i))
    rw [h.created i _ (List.getElem?_eq_getElem hi), Option.map_some]
    exact h'.created j (ms.filterMap created?)[(i : Nat)] hsame
  · rw [hcount] at hnew
    by_cases hsubject : ∃ m ∈ ms, m.subject? = some id
    · obtain ⟨m, hm, hid⟩ := hsubject
      rw [h'.subject m (hms.mem_iff.1 hm) id hid, h.subject m hm id hid]
    · have hnone : ∀ m ∈ ms, m.subject? ≠ some id := fun m hm hid => hsubject ⟨m, hm, hid⟩
      rw [h'.other id (fun i hi => hnew i (hcreated.length_eq ▸ hi)) fun m hm =>
        hnone m (hms.mem_iff.2 hm), h.other id hnew hnone]
  · rw [h'.mutations, h.mutations, hms.length_eq]

end Mutation

/-! ### Executing independent mutations -/

namespace System

variable {s : System} {deadlineMs : Nat} {m : Mutation} {ms : List Mutation} {id : String}

/-- Independent mutations are attempted one after the other as if they had all been checked at the
beginning. -/
theorem foldl_attempt_eq (h : Mutation.Independent s.authority ms) (r : Report) :
    ms.foldl (attempt deadlineMs) (r, s) =
      ({ attempted := r.attempted + ms.length
         succeeded := r.succeeded + (ms.filter (s.admits deadlineMs)).length
         failures := r.failures ++ ms.filterMap (s.failure? deadlineMs) },
        { s with authority := (ms.filter (s.admits deadlineMs)).foldl Authority.after s.authority }) := by
  induction ms generalizing r s with
  | nil => simp
  | cons m ms ih =>
    rw [List.foldl_cons, attempt_eq]
    cases hm : s.failure? deadlineMs m with
    | some f =>
      have hadmits : s.admits deadlineMs m = false := by rw [admits, hm]; rfl
      dsimp only
      rw [ih (h.tail (Nat.le_refl _)), List.filter_cons_of_neg (by simp [hadmits]),
        List.filterMap_cons, hm, List.length_cons, Nat.add_assoc, Nat.add_comm 1, List.append_assoc,
        List.singleton_append]
    | none =>
      have hadmits : s.admits deadlineMs m = true := by rw [admits, hm]; rfl
      -- What the others are about is as it was, so that they are checked with the same outcome.
      have hsame : ∀ m' ∈ ms, ({ s with authority := s.authority.after m } : System).failure?
          deadlineMs m' = s.failure? deadlineMs m' :=
        fun m' hm' => failure?_congr rfl Authority.after_failing fun id hid => h.spares hm' hid
      have hfilter : ms.filter (({ s with authority := s.authority.after m } : System).admits
          deadlineMs) = ms.filter (s.admits deadlineMs) :=
        List.filter_congr fun m' hm' => by rw [admits, admits, hsame m' hm']
      dsimp only
      rw [ih (s := { s with authority := s.authority.after m }) (h.tail Authority.lastId_le_after),
        hfilter, List.filterMap_congr hsame, List.filter_cons_of_pos hadmits, List.filterMap_cons, hm,
        List.length_cons, List.length_cons, List.foldl_cons, Nat.add_assoc, Nat.add_assoc,
        Nat.add_comm 1, Nat.add_comm 1]

/-- Independent mutations are all attempted. Those that fail are reported, and the others go through. -/
theorem execute_eq (h : Mutation.Independent s.authority ms) :
    s.execute deadlineMs ms =
      (⟨ms.length, (ms.filter (s.admits deadlineMs)).length, ms.filterMap (s.failure? deadlineMs)⟩,
        { s with authority := (ms.filter (s.admits deadlineMs)).foldl Authority.after s.authority }) := by
  rw [execute, foldl_attempt_eq h]
  simp

/-- Every mutation of a batch goes through or is among the failures. -/
theorem length_eq_admits_add_failures (s : System) (deadlineMs : Nat) (ms : List Mutation) :
    ms.length = (ms.filter (s.admits deadlineMs)).length +
      (ms.filterMap (s.failure? deadlineMs)).length := by
  rw [List.length_eq_countP_add_countP (s.admits deadlineMs), List.countP_eq_length_filter,
    List.length_filterMap_eq_countP]
  congr 2
  funext m
  rw [admits]
  cases s.failure? deadlineMs m <;> rfl

/-- What an independent mutation is about is settled by this mutation alone. -/
theorem execute_subject (h : Mutation.Independent s.authority ms) (hm : m ∈ ms)
    (hid : m.subject? = some id) :
    (s.execute deadlineMs ms).2.authority.policies.get? id =
      if s.admits deadlineMs m = true then m.written? else s.authority.policies.get? id := by
  have hresults := (h.sublist (List.filter_sublist (p := s.admits deadlineMs))).results
  rw [execute_eq h]
  split
  · next hadmits => exact hresults.subject m (List.mem_filter.2 ⟨hm, hadmits⟩) id hid
  · next hfails =>
    refine hresults.other id (fun i _ => Plan.ne_createdId (h.assigned m hm id hid) i) fun m' hm' hid' => ?_
    obtain ⟨hm', hadmits⟩ := List.mem_filter.1 hm'
    exact hfails (h.eq_of_subject hm' hm hid' hid ▸ hadmits)

/-- What no mutation is about stays. -/
theorem execute_other (h : Mutation.Independent s.authority ms)
    (hnew : ∀ i < (ms.filterMap Mutation.created?).length, id ≠ Plan.createdId s.authority i)
    (hother : ∀ m ∈ ms, m.subject? ≠ some id) :
    (s.execute deadlineMs ms).2.authority.policies.get? id = s.authority.policies.get? id := by
  have hpassed : (ms.filter (s.admits deadlineMs)).Sublist ms := List.filter_sublist
  rw [execute_eq h]
  exact (h.sublist hpassed).results.other id
    (fun i hi => hnew i (Nat.lt_of_lt_of_le hi (hpassed.filterMap _).length_le))
    fun m hm => hother m (hpassed.subset hm)

/-- A batch of independent mutations may be executed in any order. The same mutations fail in the same
way, and what is stored is the same up to the identifiers that are assigned. -/
theorem execute_perm (h : Mutation.Independent s.authority ms) {ms' : List Mutation}
    (hms : ms.Perm ms') (deadlineMs : Nat) :
    (s.execute deadlineMs ms).1.failures.Perm (s.execute deadlineMs ms').1.failures ∧
      s.authority.SameUpToIds (s.execute deadlineMs ms).2.authority
        (s.execute deadlineMs ms').2.authority := by
  have h' := h.perm hms
  rw [execute_eq h, execute_eq h']
  exact ⟨hms.filterMap _, (h.sublist List.filter_sublist).results.sameUpToIds
    (h'.sublist List.filter_sublist).results (hms.filter _)⟩

end System

end CatalogAccess
