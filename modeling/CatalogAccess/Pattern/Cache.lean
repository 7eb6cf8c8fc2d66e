import CatalogAccess.Pattern.Expression

/-!
# The cache of compiled patterns

Patterns that are more than literal text are compiled once and kept, up to a capacity of at least
one, with the least recently used pattern giving way. The expressions that patterns are written as
serve as the keys, so a pattern with the user placeholder is kept once for each user.
-/

namespace CatalogAccess

/-- An expression with what it compiles to: a glob, or nothing when it cannot be compiled. -/
structure CompiledPattern where
  /-- The expression. -/
  source : Expression
  /-- The glob of the expression. -/
  glob? : Option Glob
  /-- The glob is that of the expression. -/
  compiles : Expression.compile? source = glob?

/-- Compiled patterns, the most recently used first. -/
structure PatternCache where
  /-- How many patterns are kept, before the least bound of one is applied. -/
  capacity : Nat
  /-- The compiled patterns. -/
  recent : List CompiledPattern := []

namespace PatternCache

/-- How many patterns are kept at most. -/
def bound (c : PatternCache) : Nat := max c.capacity 1

/-- The number of patterns held. -/
def size (c : PatternCache) : Nat := c.recent.length

/-- Whether no pattern is held. -/
def isEmpty (c : PatternCache) : Bool := c.recent.isEmpty

/-- The compiled form of an expression: the one that is held, or else a new one. -/
def compiled (c : PatternCache) (source : Expression) : CompiledPattern :=
  (c.recent.find? (·.source = source)).getD ⟨source, Expression.compile? source, rfl⟩

/-- The cache after a compiled pattern has been used. -/
def use (c : PatternCache) (p : CompiledPattern) : PatternCache :=
  { c with recent := (p :: c.recent.filter (·.source ≠ p.source)).take c.bound }

/-- Whether the value matches the pattern for a user, and the cache afterwards. -/
def accepts (c : PatternCache) (pattern value user : String) : Bool × PatternCache :=
  if pattern = wildcard then (true, c)
  else if Pattern.isLiteral pattern then (pattern == value, c)
  else
    let p := c.compiled (Pattern.expression pattern user)
    (p.glob?.any (·.accepts value.toList), c.use p)

/-- Whether the value matches one of the patterns, tried in order. -/
def acceptsSome (c : PatternCache) (value user : String) : List String → Bool × PatternCache
  | [] => (false, c)
  | p :: ps =>
    match c.accepts p value user with
    | (true, c) => (true, c)
    | (false, c) => c.acceptsSome value user ps

/-- Whether one of the values matches one of the patterns; the values are tried in order, each
against all patterns. -/
def acceptsAny (c : PatternCache) (patterns : List String) (user : String) :
    List String → Bool × PatternCache
  | [] => (false, c)
  | v :: vs =>
    match c.acceptsSome v user patterns with
    | (true, c) => (true, c)
    | (false, c) => c.acceptsAny patterns user vs

end PatternCache

end CatalogAccess
