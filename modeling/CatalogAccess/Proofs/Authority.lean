import CatalogAccess.FanOut
import CatalogAccess.Proofs.NameMap
import CatalogAccess.Proofs.Operation
import CatalogAccess.Proofs.Reconcile.Plan

/-!
# The authority under a plan

Mutations that go through change the policies of the authority in the expected way
(`Mutation.Applies`). `Authority.WellKept` is what persona management keeps true of the authority,
whether or not mutations go through: the writes of a plan are a batch that fits what is stored
(`Plan.Tracks.batch`), and go on fitting while it is worked off (`Mutation.Applies.batch`). The
authority is as a plan has it (`Plan.Realized`) when every tracked policy is, every planned policy is
there under a new identifier, and everything else is as before.
-/

namespace CatalogAccess

namespace Authority

/-- The labelled policies are the stored ones that have the label. -/
theorem mem_withLabel {a : Authority} {label : String} {p : Policy} :
    p ∈ a.withLabel label ↔ (∃ id, a.policies.get? id = some p) ∧ label ∈ p.labels := by
  rw [withLabel, List.mem_filter, NameMap.mem_values_iff, NameSet.contains_iff]

/-! ### Identifiers -/

/-- Different numbers give different identifiers. -/
theorem identifier_injective {kind : String} {n m : Nat}
    (h : identifier kind n = identifier kind m) : n = m := by
  -- The padded digits can be read back.
  have hread : ∀ n : Nat, Nat.ofDigitChars 10
      (List.replicate (4 - (Nat.repr n).toList.length) '0' ++ (Nat.repr n).toList) 0 = n := by
    intro n
    rw [Nat.ofDigitChars_append, Nat.ofDigitChars_replicate_zero, Nat.mul_zero, Nat.toList_repr,
      Nat.ofDigitChars_ten_toDigits]
  have hdigits : List.replicate (4 - (Nat.repr n).toList.length) '0' ++ (Nat.repr n).toList =
      List.replicate (4 - (Nat.repr m).toList.length) '0' ++ (Nat.repr m).toList := by
    have hlist := congrArg String.toList h
    unfold identifier at hlist
    simpa using hlist
  rw [← hread n, hdigits, hread m]

/-- Every policy is stored under an identifier that has been assigned. -/
def Numbered (a : Authority) : Prop :=
  ∀ id p, a.policies.get? id = some p → ∃ n ≤ a.lastId, id = identifier "policy" n

/-- What persona management keeps true of the authority. -/
structure WellKept (a : Authority) : Prop extends Policy.WellStored a.policies where
  /-- Identifiers in use have been assigned. -/
  numbered : a.Numbered

end Authority

/-! ### Mutations -/

/-- The mutation fits the stored policies: what it creates is new, and what it writes has the frame
of the policy that it replaces. -/
def Mutation.Fits (stored : NameMap Policy) : Mutation → Prop
  | create p => p.IsNew stored
  | update p => p.Tidy ∧
    ∀ id old, p.id = some id → stored.get? id = some old → p.frame = old.frame
  | delete _ _ => True

/-- A mutation does not get in the way of a later one: no two rivals are created, and creations come
last. -/
def Mutation.Apart : Mutation → Mutation → Prop
  | create p, create q => ¬ p.Rivals q
  | create _, update _ => False
  | _, _ => True

/-- A batch of mutations that fit the stored policies and do not get in each other's way. -/
structure Mutation.Batch (stored : NameMap Policy) (ms : List Mutation) : Prop where
  /-- Each of them fits. -/
  fits : ∀ m ∈ ms, m.Fits stored
  /-- They do not get in each other's way. -/
  apart : ms.Pairwise Mutation.Apart

/-- What a mutation that goes through does to the policies. -/
inductive Mutation.Applies (a a' : Authority) : Mutation → Prop
  /-- The policy is added under the next identifier. -/
  | create (p : Policy) (hlast : a'.lastId = a.lastId + 1)
      (hget : ∀ x, a'.policies.get? x = if x = a.nextId "policy"
        then some { p with id := some (a.nextId "policy") } else a.policies.get? x) :
      Applies a a' (.create p)
  /-- The policy takes the place of the one with its identifier. -/
  | update (p : Policy) (id : String) (hid : p.id = some id) (hold : (a.policies.get? id).isSome)
      (hlast : a'.lastId = a.lastId)
      (hget : ∀ x, a'.policies.get? x = if x = id then some p else a.policies.get? x) :
      Applies a a' (.update p)
  /-- The policy is gone. -/
  | delete (id name : String) (hlast : a'.lastId = a.lastId)
      (hget : ∀ x, a'.policies.get? x = if x = id then none else a.policies.get? x) :
      Applies a a' (.delete id name)

/-- The authority after a mutation that goes through. An update without identifier never does. -/
def Authority.after (a : Authority) : Mutation → Authority
  | .create p => { a with
      policies := a.policies.insert (a.nextId "policy") { p with id := some (a.nextId "policy") }
      lastId := a.lastId + 1, mutations := a.mutations + 1 }
  | .update p => { a with
      policies := (p.id.map fun id => a.policies.insert id p).getD a.policies
      mutations := a.mutations + 1 }
  | .delete id _ => { a with policies := a.policies.erase id, mutations := a.mutations + 1 }

/-- A mutation that goes through does to the authority what it is for, and an update has found the policy
that it replaces. -/
theorem System.applyMutation_ok {s : System} {deadlineMs : Nat} {m : Mutation} {a : Authority}
    (h : s.applyMutation deadlineMs m = .ok a) : a = s.authority.after m ∧
      ∀ p, m = .update p → ∃ id, p.id = some id ∧ (s.authority.policies.get? id).isSome := by
  unfold applyMutation at h
  cases m with
  | create p =>
    simp only [Except.bind_eq_ok_iff, Authority.createPolicy, pure, Except.pure,
      Except.ok.injEq] at h
    obtain ⟨-, -, -, ⟨-, -, rfl⟩, rfl⟩ := h
    exact ⟨rfl, fun p hp => Mutation.noConfusion hp⟩
  | update p =>
    simp only [Except.bind_eq_ok_iff, Authority.updatePolicy, pure, Except.pure,
      Except.ok.injEq] at h
    obtain ⟨-, -, r, hr, rfl⟩ := h
    cases hid : p.id with
    | none => simp [hid] at hr
    | some id =>
      simp only [hid, Except.bind_eq_ok_iff] at hr
      obtain ⟨-, -, hr⟩ := hr
      split at hr
      · next hold =>
        obtain rfl := Except.ok.inj hr
        refine ⟨by simp only [Authority.after, hid, Option.map_some, Option.getD_some], fun q hq => ?_⟩
        obtain rfl := Mutation.update.inj hq
        exact ⟨id, hid, hold⟩
      · exact absurd hr (by simp)
  | delete id name =>
    simp only [Except.bind_eq_ok_iff, Authority.deletePolicy] at h
    obtain ⟨-, -, -, -, h⟩ := h
    split at h
    · exact ⟨(Except.ok.inj h).symm, fun p hp => Mutation.noConfusion hp⟩
    · exact absurd h (by simp)

/-- A mutation that goes through changes the policies in the expected way. -/
theorem System.applyMutation_applies {s : System} {deadlineMs : Nat} {m : Mutation} {a : Authority}
    (h : s.applyMutation deadlineMs m = .ok a) : m.Applies s.authority a := by
  obtain ⟨rfl, hfound⟩ := applyMutation_ok h
  cases m with
  | create p => exact .create p rfl fun x => NameMap.get?_insert
  | update p =>
    obtain ⟨id, hid, hold⟩ := hfound p rfl
    refine .update p id hid hold rfl fun x => ?_
    simp only [Authority.after, hid, Option.map_some, Option.getD_some, NameMap.get?_insert]
  | delete id name => exact .delete id name rfl fun x => NameMap.get?_erase

/-- A mutation that fits keeps the authority well kept. -/
theorem Mutation.Applies.wellKept {a a' : Authority} {m : Mutation} (h : m.Applies a a')
    (hm : m.Fits a.policies) (ha : a.WellKept) : a'.WellKept := by
  -- Every mutation sets what is stored under one identifier.
  have hcases : ∀ {id : String} {o : Option Policy}, a.lastId ≤ a'.lastId →
      (∀ x, a'.policies.get? x = if x = id then o else a.policies.get? x) →
      (∀ p, o = some p → p.id = some id ∧ p.Tidy ∧ p.IsSynthetic ∧
        (∃ n ≤ a'.lastId, id = Authority.identifier "policy" n) ∧
        ∀ x q, a.policies.get? x = some q → q.Rivals p → x = id) → a'.WellKept := by
    intro id o hlast hget ho
    have hall : ∀ x p, a'.policies.get? x = some p → p.id = some x ∧ p.Tidy ∧ p.IsSynthetic ∧
        ∃ n ≤ a'.lastId, x = Authority.identifier "policy" n := by
      intro x p hx
      rw [hget] at hx
      split at hx
      · next heq =>
        obtain ⟨hid, htidy, hsynthetic, hnumber, -⟩ := ho p hx
        exact heq ▸ ⟨hid, htidy, hsynthetic, hnumber⟩
      · obtain ⟨n, hn, heq⟩ := ha.numbered x p hx
        exact ⟨ha.id x p hx, ha.tidy x p hx, ha.synthetic x p hx, n, by omega, heq⟩
    refine ⟨⟨fun x p hx => (hall x p hx).1, fun x p hx => (hall x p hx).2.1,
      fun x p hx => (hall x p hx).2.2.1, fun x y p q hx hy hrivals => ?_⟩,
      fun x p hx => (hall x p hx).2.2.2⟩
    rw [hget] at hx hy
    split at hx <;> split at hy
    · next hxid hyid => rw [hxid, hyid]
    · next hxid hyid =>
      rw [hxid]
      exact ((ho p hx).2.2.2.2 y q hy hrivals.symm).symm
    · next hxid hyid =>
      rw [hyid]
      exact (ho q hy).2.2.2.2 x p hx hrivals
    · exact ha.apart x y p q hx hy hrivals
  cases h with
  | create p hlast hget =>
    refine hcases (by omega) hget fun p' hp' => ?_
    obtain rfl := Option.some.inj hp'
    refine ⟨rfl, ⟨hm.tidy.allow, hm.tidy.deny, hm.tidy.mask⟩, hm.synthetic.of_frame rfl,
      ⟨a.lastId + 1, by omega, rfl⟩, fun x q hx hrivals => ?_⟩
    have hrivals' : p.Rivals q := hrivals.symm.of_frame rfl
    exact (hm.apart x q hx hrivals'.symm).elim
  | update p id hid hold hlast hget =>
    refine hcases (by omega) hget fun p' hp' => ?_
    obtain rfl := Option.some.inj hp'
    obtain ⟨old, hold⟩ := Option.isSome_iff_exists.1 hold
    obtain ⟨n, hn, heq⟩ := ha.numbered id old hold
    have hframe := hm.2 id old hid hold
    refine ⟨hid, hm.1, (ha.synthetic id old hold).of_frame hframe, ⟨n, by omega, heq⟩,
      fun x q hx hrivals => ?_⟩
    exact ha.apart x id q old hx hold (hrivals.symm.of_frame hframe).symm
  | delete id name hlast hget =>
    exact hcases (by omega) hget fun p' hp' => absurd hp'.symm (Option.some_ne_none p')

/-- What fits still does after a mutation that does not get in the way. -/
theorem Mutation.Applies.fits {a a' : Authority} {m m' : Mutation} (h : m.Applies a a')
    (hm : m.Fits a.policies) (hapart : m.Apart m') (hm' : m'.Fits a.policies) :
    m'.Fits a'.policies := by
  -- What is stored afterwards was stored before, or replaces what was, or is created.
  have hcases : ∀ id p, a'.policies.get? id = some p →
      (∃ old, a.policies.get? id = some old ∧ p.frame = old.frame) ∨
        ∃ c, m = .create c ∧ p.frame = c.frame := by
    intro id p hp
    cases h with
    | create c hlast hget =>
      rw [hget] at hp
      split at hp
      · obtain rfl := Option.some.inj hp
        exact .inr ⟨c, rfl, rfl⟩
      · exact .inl ⟨p, hp, rfl⟩
    | update c x hx hold hlast hget =>
      rw [hget] at hp
      split at hp
      · next heq =>
        obtain ⟨old, hold⟩ := Option.isSome_iff_exists.1 hold
        obtain rfl := Option.some.inj hp
        exact .inl ⟨old, heq ▸ hold, hm.2 x old hx hold⟩
      · exact .inl ⟨p, hp, rfl⟩
    | delete x name hlast hget =>
      rw [hget] at hp
      split at hp
      · exact absurd hp.symm (Option.some_ne_none p)
      · exact .inl ⟨p, hp, rfl⟩
  cases m' with
  | create q =>
    refine ⟨hm'.id, hm'.tidy, hm'.synthetic, fun id p hp hrivals => ?_⟩
    rcases hcases id p hp with ⟨old, hold, hframe⟩ | ⟨c, rfl, hframe⟩
    · exact hm'.apart id old hold (hrivals.of_frame hframe)
    · exact hapart (hrivals.of_frame hframe)
  | update q =>
    refine ⟨hm'.1, fun id p hid hp => ?_⟩
    rcases hcases id p hp with ⟨old, hold, hframe⟩ | ⟨c, rfl, -⟩
    · exact (hm'.2 id old hid hold).trans hframe.symm
    · exact hapart.elim
  | delete id name => exact trivial

/-- The rest of a batch is a batch, whether or not the first mutation goes through. -/
theorem Mutation.Batch.tail {stored : NameMap Policy} {m : Mutation} {ms : List Mutation}
    (h : Batch stored (m :: ms)) : Batch stored ms :=
  ⟨fun m' hm' => h.fits m' (List.mem_cons_of_mem m hm'), (List.pairwise_cons.1 h.apart).2⟩

theorem Mutation.Applies.batch {a a' : Authority} {m : Mutation} {ms : List Mutation}
    (h : m.Applies a a') (hms : Batch a.policies (m :: ms)) : Batch a'.policies ms := by
  refine ⟨fun m' hm' => ?_, hms.tail.apart⟩
  have hapart := (List.pairwise_cons.1 hms.apart).1 m' hm'
  exact h.fits (hms.fits m List.mem_cons_self) hapart (hms.tail.fits m' hm')

/-! ### Batches -/

/-- A batch keeps the authority well kept, whether or not its mutations go through, and touches
nothing but the authority. -/
theorem System.execute_wellKept {s : System} (deadlineMs : Nat) {ms : List Mutation}
    (hms : Mutation.Batch s.authority.policies ms) (hs : s.authority.WellKept) :
    ∃ a : Authority, a.WellKept ∧ (s.execute deadlineMs ms).2 = { s with authority := a } := by
  unfold execute
  generalize ({} : Report) = r
  induction ms generalizing r s with
  | nil => exact ⟨s.authority, hs, rfl⟩
  | cons m ms ih =>
    rw [List.foldl_cons]
    cases hm : s.applyMutation deadlineMs m with
    | ok b =>
      have happlies := applyMutation_applies hm
      have hb : b.WellKept := happlies.wellKept (hms.fits m List.mem_cons_self) hs
      simp only [attempt, hm]
      exact ih (s := { s with authority := b }) (happlies.batch hms) hb _
    | error e =>
      simp only [attempt, hm]
      exact ih hms.tail hs _

/-! ### The mutations of a plan -/

namespace Plan

/-- What becomes of a policy that a plan tracks. -/
def Tracked.settled (t : Tracked) : Option Policy :=
  if t.fate = .deleted then none else some t.policy

/-- What is left of a tracked policy is its working copy. -/
theorem Tracked.settled_eq_some_iff {t : Tracked} {p : Policy} :
    t.settled = some p ↔ t.fate ≠ .deleted ∧ t.policy = p := by
  unfold settled
  split
  · next hdeleted => simp [hdeleted]
  · next hkept => simp [hkept]

theorem Tracked.policy_of_settled {t : Tracked} {p : Policy} (h : t.settled = some p) : t.policy = p :=
  (settled_eq_some_iff.1 h).2

/-- The identifier that the creation at a position of a plan is given. -/
def createdId (a : Authority) (index : Nat) : String :=
  Authority.identifier "policy" (a.lastId + 1 + index)

/-- The authority is as a plan has it. -/
structure Realized (plan : Plan) (a a' : Authority) : Prop where
  /-- A tracked policy is as the plan has it, or gone. -/
  tracked : ∀ id t, plan.tracked.get? id = some t → a'.policies.get? id = t.settled
  /-- Each planned policy is stored under an identifier of its own. -/
  created : ∀ i c, plan.creates[i]? = some c →
    a'.policies.get? (createdId a i) = some { c with id := some (createdId a i) }
  /-- Everything else is as before. -/
  other : ∀ id, plan.tracked.get? id = none → (∀ i < plan.creates.length, id ≠ createdId a i) →
    a'.policies.get? id = a.policies.get? id

/-- The writes of a plan that is a working copy are a batch. -/
theorem Tracks.batch {plan : Plan} {stored : NameMap Policy} (h : plan.Tracks stored) :
    Mutation.Batch stored plan.mutations := by
  -- A write to a tracked policy is no creation.
  have hwrite : ∀ {id : String} {t : Tracked} {m m' : Mutation}, t.mutation? id = some m →
      m.Apart m' := by
    intro id t m m' hm
    unfold Tracked.mutation? at hm
    split at hm
    · exact absurd hm.symm (Option.some_ne_none m)
    · obtain rfl := Option.some.inj hm
      exact trivial
    · obtain rfl := Option.some.inj hm
      exact trivial
  constructor
  · intro m hm
    rcases List.mem_append.1 hm with hm | hm
    · obtain ⟨e, he, hwrites⟩ := List.mem_filterMap.1 hm
      have ht : plan.tracked.get? e.1 = some e.2 := NameMap.get?_eq_some_iff.2 he
      unfold Tracked.mutation? at hwrites
      split at hwrites
      · exact absurd hwrites.symm (Option.some_ne_none m)
      · obtain rfl := Option.some.inj hwrites
        refine ⟨h.tidy e.1 e.2 ht, fun id old hid hold => ?_⟩
        obtain rfl : e.1 = id := Option.some.inj ((h.id e.1 e.2 ht).symm.trans hid)
        exact h.frame e.1 e.2 old ht hold
      · obtain rfl := Option.some.inj hwrites
        exact trivial
    · obtain ⟨c, hc, rfl⟩ := List.mem_map.1 hm
      exact h.creates c hc
  · refine List.pairwise_append.2 ⟨?_, List.pairwise_map.2 h.apart, fun m hm m' _ => ?_⟩
    · exact List.pairwise_filterMap.2 (plan.tracked.increasing.imp fun _ m hm m' _ => hwrite hm)
    · obtain ⟨e, -, hwrites⟩ := List.mem_filterMap.1 hm
      exact hwrite hwrites

end Plan

end CatalogAccess
