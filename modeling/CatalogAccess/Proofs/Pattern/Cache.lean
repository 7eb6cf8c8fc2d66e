import CatalogAccess.Pattern.Cache
import CatalogAccess.Proofs.Pattern.Expression

/-!
# Answers of the pattern cache

The cache is there for speed only. Each compiled pattern carries the proof that it is what its
expression compiles to, and the expression of a pattern compiles to the glob of the pattern, so any
cache answers as the pattern itself does (`accepts_fst`, `acceptsAny_fst`). The states that calls lead
to keep in bounds and hold no expression twice (`isKept_run`): every change that a call makes is the
use of one compiled pattern (`IsKept.use`).
-/

namespace CatalogAccess.PatternCache

open Pattern (Describes)

/-! ### Answers -/

/-- Held or not, an expression is taken for what it compiles to. -/
theorem compiled_glob? (c : PatternCache) (source : Expression) :
    (c.compiled source).glob? = Expression.compile? source := by
  rw [compiled]
  cases hfound : c.recent.find? (·.source = source) with
  | none => rfl
  | some p =>
    have hsource : p.source = source := by simpa using List.find?_some hfound
    rw [Option.getD_some, ← hsource, p.compiles]

/-- The cache changes nothing. -/
theorem accepts_fst (c : PatternCache) (pattern value user : String) :
    (c.accepts pattern value user).1 = Pattern.accepts pattern value user := by
  rw [accepts, Pattern.accepts]
  split
  · rfl
  · split
    · rfl
    · simp only [compiled_glob?, Pattern.compile?_expression, Option.any_some]

theorem acceptsSome_fst (c : PatternCache) (value user : String) (patterns : List String) :
    (c.acceptsSome value user patterns).1 = patterns.any (Pattern.accepts · value user) := by
  induction patterns generalizing c with
  | nil => rfl
  | cons p ps ih =>
    rw [acceptsSome, List.any_cons, ← accepts_fst c]
    rcases c.accepts p value user with ⟨answer, c'⟩
    cases answer with
    | true => rfl
    | false => exact ih c'

/-- The cache changes nothing for several patterns and values either. -/
theorem acceptsAny_fst (c : PatternCache) (patterns : List String) (user : String)
    (values : List String) :
    (c.acceptsAny patterns user values).1 = Pattern.acceptsAny patterns values user := by
  rw [Pattern.acceptsAny]
  induction values generalizing c with
  | nil => rfl
  | cons v vs ih =>
    rw [acceptsAny, List.any_cons, ← acceptsSome_fst c]
    rcases c.acceptsSome v user patterns with ⟨answer, c'⟩
    cases answer with
    | true => rfl
    | false => exact ih c'

/-! ### States -/

/-- A cache of the capacity that keeps its bound and holds each expression once. -/
structure IsKept (capacity : Nat) (c : PatternCache) : Prop where
  /-- The capacity stays. -/
  capacity_eq : c.capacity = capacity
  /-- At least one pattern can be held, and no more than the capacity otherwise. -/
  size_le : c.size ≤ max capacity 1
  /-- No expression is held twice. -/
  distinct : (c.recent.map (·.source)).Nodup

variable {capacity : Nat} {c : PatternCache}

theorem isKept_empty (capacity : Nat) : IsKept capacity { capacity } :=
  ⟨rfl, Nat.zero_le _, List.nodup_nil⟩

/-- The pattern used moves to the front, without a second entry, and the last ones give way. -/
theorem IsKept.use (h : IsKept capacity c) (p : CompiledPattern) : IsKept capacity (c.use p) := by
  refine ⟨h.capacity_eq, ?_, ?_⟩
  · have hbound : c.bound = max capacity 1 := by rw [bound, h.capacity_eq]
    rw [size, PatternCache.use, hbound]
    exact List.length_take_le _ _
  · have hothers : ((c.recent.filter (·.source ≠ p.source)).map (·.source)).Nodup :=
      h.distinct.sublist (List.filter_sublist.map _)
    have hnew : p.source ∉ (c.recent.filter (·.source ≠ p.source)).map (·.source) := by
      intro hmem
      obtain ⟨q, hq, heq⟩ := List.mem_map.1 hmem
      exact of_decide_eq_true (List.mem_filter.1 hq).2 heq
    exact (List.nodup_cons.2 ⟨hnew, hothers⟩).sublist ((List.take_sublist _ _).map _)

theorem IsKept.accepts (h : IsKept capacity c) (pattern value user : String) :
    IsKept capacity (c.accepts pattern value user).2 := by
  rw [PatternCache.accepts]
  split
  · exact h
  · split
    · exact h
    · exact h.use _

theorem IsKept.acceptsSome (h : IsKept capacity c) (value user : String) (patterns : List String) :
    IsKept capacity (c.acceptsSome value user patterns).2 := by
  induction patterns generalizing c with
  | nil => exact h
  | cons p ps ih =>
    have hnext := h.accepts p value user
    rw [PatternCache.acceptsSome]
    cases hc : c.accepts p value user with
    | mk answer c' =>
      rw [hc] at hnext
      cases answer with
      | true => exact hnext
      | false => exact ih hnext

theorem IsKept.acceptsAny (h : IsKept capacity c) (patterns : List String) (user : String)
    (values : List String) : IsKept capacity (c.acceptsAny patterns user values).2 := by
  induction values generalizing c with
  | nil => exact h
  | cons v vs ih =>
    have hnext := h.acceptsSome v user patterns
    rw [PatternCache.acceptsAny]
    cases hc : c.acceptsSome v user patterns with
    | mk answer c' =>
      rw [hc] at hnext
      cases answer with
      | true => exact hnext
      | false => exact ih hnext

/-! ### Runs -/

/-- A question that is put to a cache. -/
inductive Call where
  /-- Whether the value matches the pattern for the user. -/
  | one (pattern value user : String)
  /-- Whether one of the values matches one of the patterns for the user. -/
  | any (patterns values : List String) (user : String)

/-- The answer to a call, and the cache afterwards. -/
def answer (c : PatternCache) : Call → Bool × PatternCache
  | .one pattern value user => c.accepts pattern value user
  | .any patterns values user => c.acceptsAny patterns user values

/-- The cache of a capacity after calls one after the other, empty to start with. -/
def run (capacity : Nat) (calls : List Call) : PatternCache :=
  calls.foldl (fun c call => (c.answer call).2) { capacity }

theorem IsKept.answer (h : IsKept capacity c) (call : Call) : IsKept capacity (c.answer call).2 :=
  match call with
  | .one pattern value user => h.accepts pattern value user
  | .any patterns values user => h.acceptsAny patterns user values

/-- Whatever is asked, the bound is kept. -/
theorem isKept_run (capacity : Nat) (calls : List Call) : IsKept capacity (run capacity calls) :=
  List.foldlRecOn calls _ (isKept_empty capacity) fun _ h call _ => h.answer call

/-- Whatever has been asked before, a pattern accepts the values that can be split along it, another
cache would answer the same, and the cache stays within its bound, each entry under an expression of
its own. -/
theorem run_accepts_iff (capacity : Nat) (calls : List Call) (pattern value user : String) :
    let c := run capacity calls
    ((c.accepts pattern value user).1 = true ↔
        Describes user.toList pattern.toList value.toList) ∧
      (∀ other : PatternCache,
        (other.accepts pattern value user).1 = (c.accepts pattern value user).1) ∧
      c.size ≤ max capacity 1 ∧ (c.recent.map (·.source)).Nodup := by
  intro c
  have hkept := isKept_run capacity calls
  refine ⟨?_, fun other => ?_, hkept.size_le, hkept.distinct⟩
  · rw [accepts_fst, Pattern.accepts_iff_describes]
  · rw [accepts_fst, accepts_fst]

end CatalogAccess.PatternCache
