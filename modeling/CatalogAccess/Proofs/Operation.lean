import CatalogAccess.System

/-!
# Reasoning about operations

An operation is a sequence of calls, each of which sees the system that the calls before it left.
`runOn_bind_ok` takes a run with a result apart into the runs of its calls. `Keeps` says that an
operation keeps an invariant of the system, whether it ends with a result or with an error, and
what it promises of a result; there is one lemma for each way in which operations are put together.
`Refuses` says that the invariant holds when the operation ends with an error, whatever a result does
to it.
-/

namespace CatalogAccess

/-- A computation with a result did both of its steps. -/
theorem Except.bind_eq_ok_iff {ε α β : Type} {x : Except ε α} {f : α → Except ε β} {b : β} :
    (x >>= f) = .ok b ↔ ∃ a, x = .ok a ∧ f a = .ok b := by
  cases x with
  | ok a => simp [bind, Except.bind]
  | error e => simp [bind, Except.bind]

/-- What holds before a list of steps and is handed on by each of them holds after all. -/
theorem foldlM_invariant {ε α β : Type} {f : β → α → Except ε β} (I : List α → β → Prop)
    (hstep : ∀ a as b b', I (a :: as) b → f b a = .ok b' → I as b') {l : List α} {b r : β}
    (hb : I l b) (h : l.foldlM f b = .ok r) : I [] r := by
  induction l generalizing b with
  | nil =>
    obtain rfl : b = r := by simpa [pure, Except.pure] using h
    exact hb
  | cons a as ih =>
    rw [List.foldlM_cons, Except.bind_eq_ok_iff] at h
    obtain ⟨b', h1, h2⟩ := h
    exact ih (hstep a as b b' hb h1) h2

/-- A list of steps each of which goes through goes through. -/
theorem foldlM_total {ε α β : Type} {f : β → α → Except ε β} (h : ∀ b a, ∃ b', f b a = .ok b')
    (l : List α) (b : β) : ∃ r, l.foldlM f b = .ok r := by
  induction l generalizing b with
  | nil => exact ⟨b, rfl⟩
  | cons a as ih =>
    obtain ⟨b', hb'⟩ := h b a
    obtain ⟨r, hr⟩ := ih b'
    exact ⟨r, by rw [List.foldlM_cons, Except.bind_eq_ok_iff]; exact ⟨b', hb', hr⟩⟩

namespace Operation

variable {α β : Type} {s s' : System}

/-- The result of an operation on a system, and the system that it leaves. -/
def runOn (x : Operation α) (s : System) : Except AccessError α × System := x s

/-! ### Runs with a result -/

@[simp] theorem runOn_pure (a : α) : runOn (pure a) s = (.ok a, s) := rfl

@[simp] theorem runOn_throw (e : AccessError) : runOn (throw e : Operation α) s = (.error e, s) :=
  rfl

@[simp] theorem runOn_lift (x : Except AccessError α) : runOn (liftM x) s = (x, s) := rfl

@[simp] theorem runOn_read (f : System → Except AccessError α) : runOn (read f) s = (f s, s) := rfl

@[simp] theorem runOn_fresh :
    runOn fresh s = (.ok (Uuid.ofDraw s.drawn), { s with drawn := s.drawn + 1 }) := rfl

/-- The second step sees the result and the system that the first one left. -/
theorem runOn_bind (x : Operation α) (f : α → Operation β) (s : System) :
    runOn (x >>= f) s = match runOn x s with
      | (.ok a, s') => runOn (f a) s'
      | (.error e, s') => (.error e, s') := by
  unfold runOn
  show (ExceptT.bindCont f (x s).1 (x s).2 : Except AccessError β × System) = _
  cases (x s : Except AccessError α × System) with
  | mk r s' => cases r <;> rfl

/-- A run with a result did both of its steps. -/
theorem runOn_bind_ok {x : Operation α} {f : α → Operation β} {b : β} :
    runOn (x >>= f) s = (.ok b, s') ↔
      ∃ a s1, runOn x s = (.ok a, s1) ∧ runOn (f a) s1 = (.ok b, s') := by
  rw [runOn_bind]
  cases hx : runOn x s with
  | mk r s1 =>
    cases r with
    | error e => simp
    | ok a =>
      constructor
      · intro h
        exact ⟨a, s1, rfl, h⟩
      · rintro ⟨a', s1', hsame, h⟩
        obtain ⟨rfl, rfl⟩ : a = a' ∧ s1 = s1' := by simpa using hsame
        exact h

/-- A write with a result put its outcome in place of the system. -/
theorem runOn_write_ok {f : System → Except AccessError (α × System)} {a : α} :
    runOn (write f) s = (.ok a, s') ↔ f s = .ok (a, s') := by
  unfold runOn write
  cases hf : f s with
  | ok r => simp [Prod.ext_iff]
  | error e => simp

/-- What holds after the first step, and is kept by the second when the first has a result, holds
after both. -/
theorem runOn_bind_keeps {x : Operation α} {f : α → Operation β} {I : System → Prop}
    (hx : I (runOn x s).2)
    (hf : ∀ a, (runOn x s).1 = .ok a → I (runOn (f a) (runOn x s).2).2) :
    I (runOn (x >>= f) s).2 := by
  rw [runOn_bind]
  cases hr : runOn x s with
  | mk r s1 =>
    rw [hr] at hx hf
    cases r with
    | ok a => exact hf a rfl
    | error e => exact hx

/-- Whether a run has a result, and the result and the system that it leaves pass a test. -/
def passes (x : Operation α) (s : System) (test : α → System → Bool) : Bool :=
  match runOn x s with
  | (.ok a, s') => test a s'
  | (.error _, _) => false

theorem exists_of_passes {x : Operation α} {test : α → System → Bool}
    (h : x.passes s test = true) : ∃ a s', runOn x s = (.ok a, s') ∧ test a s' = true := by
  unfold passes at h
  split at h
  · next a s' hrun => exact ⟨a, s', hrun, h⟩
  · exact absurd h Bool.false_ne_true

/-! ### Invariants -/

/-- The operation keeps an invariant of the system, and promises something of its result. -/
def Keeps (I : System → Prop) (x : Operation α) (Q : α → Prop) : Prop :=
  ∀ s, I s → I (runOn x s).2 ∧ ∀ a, (runOn x s).1 = .ok a → Q a

variable {I : System → Prop} {Q : α → Prop} {R : β → Prop}

theorem Keeps.bind {x : Operation α} {f : α → Operation β} (hx : Keeps I x Q)
    (hf : ∀ a, Q a → Keeps I (f a) R) : Keeps I (x >>= f) R := by
  intro s hs
  obtain ⟨hs1, hq⟩ := hx s hs
  rw [runOn_bind]
  cases hr : runOn x s with
  | mk r s1 =>
    rw [hr] at hs1 hq
    cases r with
    | ok a => exact hf a (hq a rfl) s1 hs1
    | error e => exact ⟨hs1, by simp⟩

/-- A step without a promise may be followed by anything that keeps the invariant. -/
theorem Keeps.seq {x : Operation α} {f : α → Operation β} (hx : Keeps I x fun _ => True)
    (hf : ∀ a, Keeps I (f a) R) : Keeps I (x >>= f) R :=
  hx.bind fun a _ => hf a

theorem keeps_pure {a : α} (h : Q a) : Keeps I (pure a) Q := by
  intro s hs
  refine ⟨hs, fun b hb => ?_⟩
  obtain rfl : a = b := Except.ok.inj hb
  exact h

theorem keeps_throw (e : AccessError) : Keeps I (throw e : Operation α) Q :=
  fun _ hs => ⟨hs, by simp⟩

theorem keeps_lift {x : Except AccessError α} (h : ∀ a, x = .ok a → Q a) :
    Keeps I (liftM x) Q :=
  fun _ hs => ⟨hs, h⟩

theorem keeps_read {f : System → Except AccessError α} (h : ∀ s, I s → ∀ a, f s = .ok a → Q a) :
    Keeps I (read f) Q :=
  fun s hs => ⟨hs, h s hs⟩

theorem keeps_write {f : System → Except AccessError (α × System)}
    (h : ∀ s, I s → ∀ a s', f s = .ok (a, s') → I s') : Keeps I (write f) fun _ => True := by
  intro s hs
  refine ⟨?_, fun _ _ => trivial⟩
  unfold runOn write
  cases hf : f s with
  | ok r => exact h s hs r.1 r.2 hf
  | error e => exact hs

/-! ### Refusals -/

/-- If the operation ends with an error, the system that it leaves has the invariant. -/
def Refuses (I : System → Prop) (x : Operation α) (s : System) : Prop :=
  ∀ e, (runOn x s).1 = .error e → I (runOn x s).2

/-- What ends with a result is not refused. -/
theorem Refuses.of_total {x : Operation α} (h : ∃ a s', runOn x s = (.ok a, s')) :
    Refuses I x s := by
  obtain ⟨a, s', hrun⟩ := h
  intro e he
  rw [hrun] at he
  exact absurd he (by simp)

/-- A write that is refused changes nothing. -/
theorem Refuses.write {f : System → Except AccessError (α × System)} (hs : I s) :
    Refuses I (write f) s := by
  intro e he
  unfold runOn Operation.write at *
  cases hf : f s with
  | ok r => simp [hf] at he
  | error e => exact hs

/-- Steps that keep the invariant may come first. -/
theorem Refuses.after {x : Operation α} {f : α → Operation β} (hx : Keeps I x Q) (hs : I s)
    (hf : ∀ a s', I s' → Q a → Refuses I (f a) s') : Refuses I (x >>= f) s := by
  obtain ⟨hs', hq⟩ := hx s hs
  unfold Refuses
  rw [runOn_bind]
  generalize runOn x s = e at hs' hq ⊢
  obtain ⟨r, s'⟩ := e
  cases r with
  | ok a => exact hf a s' hs' (hq a rfl)
  | error e => exact fun _ _ => hs'

/-- So may steps that are taken only under a condition. -/
theorem Refuses.after_when {p : Prop} [Decidable p] {x : Operation Unit} {f : Unit → Operation β}
    (hx : Keeps I x fun _ => True) (hs : I s) (hf : ∀ s', I s' → Refuses I (f ()) s') :
    Refuses I (if p then x >>= f else f ()) s := by
  split
  · exact .after hx hs fun _ s' hs' _ => hf s' hs'
  · exact hf s hs

/-- After a step that may break the invariant, what follows must end with a result. -/
theorem Refuses.before {J : System → Prop} {x : Operation α} {f : α → Operation β}
    (hx : Refuses I x s) (hkeeps : Keeps J x Q) (hs : J s)
    (hf : ∀ a s', J s' → ∃ b s'', runOn (f a) s' = (.ok b, s'')) : Refuses I (x >>= f) s := by
  have hs' := (hkeeps s hs).1
  unfold Refuses at *
  rw [runOn_bind]
  generalize runOn x s = e at hx hs' ⊢
  obtain ⟨r, s'⟩ := e
  cases r with
  | ok a => exact Refuses.of_total (hf a s' hs')
  | error e => exact fun _ _ => hx e rfl

end Operation

end CatalogAccess
