import CatalogAccess.Proofs.Pattern.Cache
import CatalogAccess.Proofs.Query.Prefilter
import Mathlib.Data.List.Forall2

/-!
# How closely clauses follow resource maps

A search finds what decisions allow as long as the clause of each policy matches just what the
policy covers. This module says how far that goes, for all resource maps.

`Query.qualifiedNameClause_accurate` is about the names of users. Decisions take the name in a
pattern as it stands, while the index reads the pattern with the name in it, so a wildcard in the
name becomes one in the pattern: the clause then finds all that the pattern accepts, and more
(`Query.qualifiedNameClause_widened`).

`Policy.resourceClause_accurate` is about the dimensions of a resource map. The index leaves the
business metadata open, where decisions ask for a qualified name, and it takes the placeholders of
types and classifications as they stand (`Policy.resourceClause_inaccurate`). `Policy.IsExpressible`
leaves these two out.

`AccessView.tagClause_accurate` is about tag policies, of which the index knows the tags only: one
that declares other dimensions is widened, and one without tags is lost
(`AccessView.tagClause_inaccurate`).
-/

namespace CatalogAccess

variable {e : Entity}

/-! ### Looser globs -/

namespace Glob

/-- The first token takes all that the second one does: it is the same, or a run in place of a
literal. -/
inductive Token.Loosens : Token → Token → Prop where
  /-- The same token. -/
  | same (t : Token) : Loosens t t
  /-- A run in place of a literal. -/
  | run (c : Char) : Loosens .run (.lit c)

/-- What a glob matches is matched by a looser one. -/
theorem Matches.loosen {g h : Glob} {s : List Char} (hs : Matches g s)
    (hl : List.Forall₂ Token.Loosens h g) : Matches h s := by
  induction hs generalizing h with
  | nil => cases hl; exact .nil
  | @lit c _ _ _ ih =>
    cases hl with
    | cons ht hl =>
      cases ht with
      | same => exact .lit (ih hl)
      | run => exact .run (r := [c]) (ih hl)
  | one _ ih =>
    cases hl with
    | cons ht hl =>
      cases ht with
      | same => exact .one (ih hl)
  | run _ ih =>
    cases hl with
    | cons ht hl =>
      cases ht with
      | same => exact .run (ih hl)

/-- What a glob with a text in it matches holds the text. -/
theorem Matches.isInfix_of_ofText {g : Glob} {s t : List Char} (hs : Matches g s)
    (ht : ofText t <:+: g) : t <:+: s := by
  obtain ⟨before, after, rfl⟩ := ht
  obtain ⟨u, v, rfl, hu, -⟩ := matches_append.1 hs
  obtain ⟨w, x, rfl, -, hx⟩ := matches_append.1 hu
  rw [matches_ofText_iff] at hx
  exact ⟨w, v, by rw [hx]⟩

end Glob

/-! ### The name of the user in a pattern -/

namespace Pattern

/-- With the name in place of the placeholders a pattern reads as before, or more loosely where the
name has a wildcard. -/
theorem starTokens_substitute_loosens (user s : List Char) :
    List.Forall₂ Glob.Token.Loosens (starTokens (substitute user s)) (tokens user s) := by
  fun_induction tokens user s with
  | case1 => exact .nil
  | case2 r ih =>
    rw [substitute, starTokens, List.map_append]
    refine List.rel_append ?_ ih
    -- The name itself, character by character.
    rw [Glob.ofText, List.forall₂_map_left_iff, List.forall₂_map_right_iff, List.forall₂_same]
    intro c _
    split
    · exact .run c
    · exact .same _
  | case3 c r hne ih =>
    rw [substitute]
    · exact .cons (.same _) ih
    · exact hne

/-- The tokens of a pattern with a placeholder hold the name of the user as a text. -/
theorem ofText_isInfix_tokens {s : List Char} (h : hasPlaceholder s = true) (user : List Char) :
    Glob.ofText user <:+: tokens user s := by
  fun_induction tokens user s with
  | case1 => exact absurd h (by decide)
  | case2 r ih => exact (List.prefix_append _ _).isInfix
  | case3 c r hne ih =>
    rw [hasPlaceholder, Bool.or_eq_true] at h
    rcases h with h | h
    · -- The text does not start with the placeholder.
      obtain ⟨rest, hrest⟩ := List.isPrefixOf_iff_prefix.1 h
      have hcons : '\x7b' :: 'U' :: 'S' :: 'E' :: 'R' :: '\x7d' :: rest = c :: r := hrest
      obtain ⟨rfl, rfl⟩ := List.cons.inj hcons
      exact absurd rfl (hne rest rfl)
    · exact (ih h).trans (List.suffix_cons _ _).isInfix

/-- What a pattern with a placeholder accepts holds the name of the user, taken literally. -/
theorem name_isInfix_of_accepts {pattern value user : String}
    (h : hasPlaceholder pattern.toList = true) (ha : accepts pattern value user = true) :
    user.toList <:+: value.toList := by
  rw [accepts_eq_glob, Glob.accepts_iff_matches] at ha
  exact ha.isInfix_of_ofText (ofText_isInfix_tokens h user.toList)

/-- A text with wildcards matches what is left of it without them. -/
theorem matches_starTokens_filter (s : List Char) :
    Glob.Matches (starTokens s) (s.filter (· ≠ '*')) := by
  induction s with
  | nil => exact .nil
  | cons c s ih =>
    rw [starTokens, List.map_cons, ← starTokens]
    by_cases hc : c = '*'
    · rw [if_pos hc, List.filter_cons_of_neg (by simpa using hc)]
      exact .run (r := []) ih
    · rw [if_neg hc, List.filter_cons_of_pos (by simpa using hc)]
      exact .lit ih

end Pattern

/-! ### Qualified names -/

/-- An entity with a qualified name has a text there. -/
theorem Entity.HasTextName.of_qualifiedName? {name : String} (h : e.qualifiedName? = some name) :
    e.HasTextName := by
  intro v hv
  rw [qualifiedName?, hv, Option.bind_some] at h
  cases v with
  | str s => exact ⟨s, rfl⟩
  | _ => cases h

/-- The index holds a qualified name that is given. -/
theorem Entity.attributeValues_of_qualifiedName? {name : String} (h : e.qualifiedName? = some name) :
    e.attributeValues Query.qualifiedNameField = [name] := by
  rw [attributeValues_qualifiedName (.of_qualifiedName? h), h, Option.toList_some]

theorem Entity.qualifiedName?_withQualifiedName (e : Entity) (name : String) :
    (e.withQualifiedName name).qualifiedName? = some name := by
  rw [qualifiedName?, withQualifiedName, withAttribute, NameMap.get?_insert, if_pos rfl]
  rfl

namespace Query

/-- A name that is not plain for a pattern makes its clause find a qualified name that the pattern
does not accept: the one that is left when all wildcards stand for nothing. -/
theorem exists_widened {user p : String} (hu : '*' ∈ user.toList)
    (hp : Pattern.hasPlaceholder p.toList = true) :
    ∃ name, (Pattern.starTokens (Pattern.substitute user.toList p.toList)).accepts name.toList = true ∧
      Pattern.accepts p name user = false := by
  refine ⟨String.ofList ((Pattern.substitute user.toList p.toList).filter (· ≠ '*')), ?_, ?_⟩
  · rw [String.toList_ofList, Glob.accepts_iff_matches]
    exact Pattern.matches_starTokens_filter _
  · rw [Bool.eq_false_iff]
    intro ha
    have hmem := (Pattern.name_isInfix_of_accepts hp ha).subset hu
    rw [String.toList_ofList] at hmem
    exact absurd (List.mem_filter.1 hmem).2 (by simp)

/-- A value that one of the patterns accepts is found by one of them with the name put into it. -/
theorem any_starTokens_of_acceptsAny {patterns values : List String} {user : String}
    (h : Pattern.acceptsAny patterns values user = true) :
    (values.any fun v => patterns.any fun p =>
      (Pattern.starTokens (Pattern.substitute user.toList p.toList)).accepts v.toList) = true := by
  obtain ⟨v, hv, p, hp, hm⟩ := Pattern.acceptsAny_iff.1 h
  simp only [List.any_eq_true]
  refine ⟨v, hv, p, hp, ?_⟩
  rw [Glob.accepts_iff_matches] at hm ⊢
  exact hm.loosen (Pattern.starTokens_substitute_loosens _ _)

/-- The clause of a single pattern finds just what the pattern accepts when the name of the user is
plain for it, and only then. -/
theorem run_qualifiedNameClause_single_iff {p user : String} :
    (∀ (e : Entity) (name : String), e.qualifiedName? = some name →
      run e (qualifiedNameClause [p] user) = .ok ⟨Pattern.accepts p name user, []⟩) ↔
      NameIsPlain user [p] := by
  constructor
  · intro h
    by_contra hplain
    rw [NameIsPlain, not_or, not_not, List.forall_mem_singleton, Bool.not_eq_false] at hplain
    obtain ⟨name, hfound, hrefused⟩ := exists_widened hplain.1 hplain.2
    -- An entity with that name is found, which the pattern refuses.
    have he := Entity.qualifiedName?_withQualifiedName { typeName := "" } name
    have hrun := run_qualifiedNameClause_substitute
      (e := ({ typeName := "" } : Entity).withQualifiedName name) [p] user
    rw [h _ name he, hrefused, Entity.attributeValues_of_qualifiedName? he] at hrun
    simp [hfound] at hrun
  · intro hplain e name he
    rw [run_qualifiedNameClause hplain, Entity.attributeValues_of_qualifiedName? he]
    simp [Pattern.acceptsAny]

/-- The clause of qualified names is accepted and finds all that one of the patterns accepts for the
user. It finds no more than that when the name of the user is plain, and for a single pattern only
then. What a pattern with the placeholder accepts holds the name itself. -/
theorem qualifiedNameClause_accurate (user : String) :
    (∀ (patterns : List String) (cache : PatternCache) (e : Entity) (name : String),
      e.qualifiedName? = some name →
      ∃ matched, run e (qualifiedNameClause patterns user) = .ok ⟨matched, []⟩ ∧
        ((cache.acceptsAny patterns user [name]).1 = true → matched = true) ∧
        (NameIsPlain user patterns → matched = (cache.acceptsAny patterns user [name]).1)) ∧
    (∀ p, (∀ (e : Entity) (name : String), e.qualifiedName? = some name →
        run e (qualifiedNameClause [p] user) = .ok ⟨Pattern.accepts p name user, []⟩) ↔
      NameIsPlain user [p]) ∧
    ∀ p name, Pattern.hasPlaceholder p.toList = true → Pattern.accepts p name user = true →
      user.toList <:+: name.toList := by
  refine ⟨fun patterns cache e name he => ?_, fun p => run_qualifiedNameClause_single_iff,
    fun p name hp ha => Pattern.name_isInfix_of_accepts hp ha⟩
  have hvalues := Entity.attributeValues_of_qualifiedName? he
  have hrun := run_qualifiedNameClause_substitute (e := e) patterns user
  rw [hvalues] at hrun
  rw [PatternCache.acceptsAny_fst]
  refine ⟨_, hrun, any_starTokens_of_acceptsAny, fun hplain => ?_⟩
  rw [run_qualifiedNameClause hplain, hvalues] at hrun
  exact (congrArg Outcome.matched (Except.ok.inj hrun)).symm

/-- The notes of ann are found among those of the user who asks. -/
theorem qualifiedNameClause_accurate_own_notes :
    let notes : Entity := Entity.withQualifiedName { typeName := "File" } "home/ann/notes?"
    let patterns := ["home/\x7bUSER\x7d/*", "home/\x7bUSER\x7d"]
    notes.qualifiedName? = some "home/ann/notes?" ∧ NameIsPlain "ann" patterns ∧
      run notes (qualifiedNameClause patterns "ann") = .ok ⟨true, []⟩ := by
  intro notes patterns
  have he : notes.qualifiedName? = some "home/ann/notes?" := rfl
  have hplain : NameIsPlain "ann" patterns := .inl (by decide)
  obtain ⟨matched, hrun, -, hm⟩ :=
    (qualifiedNameClause_accurate "ann").1 patterns ⟨16, []⟩ notes _ he
  have haccepted : ((⟨16, []⟩ : PatternCache).acceptsAny patterns "ann" ["home/ann/notes?"]).1 =
      true := by decide
  rw [hm hplain, haccepted] at hrun
  exact ⟨he, hplain, hrun⟩

/-- A user whose name is the bare wildcard finds all that stands where the own name should. -/
theorem qualifiedNameClause_widened :
    let notes : Entity := Entity.withQualifiedName { typeName := "File" } "home/ann"
    let patterns := ["home/\x7bUSER\x7d"]
    CatalogAccess.wildcard ∉ patterns ∧ notes.qualifiedName? = some "home/ann" ∧
      run notes (qualifiedNameClause patterns "*") = .ok ⟨true, []⟩ ∧
      ((⟨16, []⟩ : PatternCache).acceptsAny patterns "*" ["home/ann"]).1 = false := by
  intro notes patterns
  refine ⟨by decide, rfl, ?_, by decide⟩
  rw [run_qualifiedNameClause_substitute]
  rfl

end Query

/-! ### Dimensions -/

namespace Policy

/-- What the index needs of a resource map to find just what it covers: the business metadata are left
open, and so is every other dimension with placeholders, unless it is that of qualified names. -/
structure IsExpressible (p : Policy) : Prop where
  /-- The business metadata are left open. -/
  open_metadata : ∀ values, p.resource? Dimension.entityBusinessMetadata = some values →
    wildcard ∈ values
  /-- Among the values that count, placeholders stand for the user in qualified names only. -/
  placeholders : ∀ d ∈ Query.indexedDimensions, d ≠ Dimension.entity → ∀ values,
    p.resource? d = some values → wildcard ∉ values →
      ∀ pattern ∈ values, Pattern.hasPlaceholder pattern.toList = false

/-- The index reads the dimensions of an expressible map as decisions do. -/
theorem IsExpressible.reader_eq {p : Policy} (h : p.IsExpressible) (user : String) {d : String}
    (hd : d ∈ Query.indexedDimensions) :
    (p.resource? d).all (e.isAdmitted (Query.reader user d) d) =
      (p.resource? d).all (e.isAdmitted user d) := by
  refine Query.all_reader_eq fun hname values hv => ?_
  by_cases hw : wildcard ∈ values
  · have hw : hasWildcard values = true := List.contains_iff_mem.2 hw
    rw [Entity.isAdmitted, Entity.isAdmitted, hw, Bool.true_or, Bool.true_or]
  · exact Entity.isAdmitted_of_not_hasPlaceholder (h.placeholders d hd hname values hv hw) _ _ d

/-- The clause of a resource map is accepted. It asks for the dimensions that the index can express,
and takes the placeholders of types and classifications as they stand; decisions ask for these
dimensions and for the business metadata. The clause of an expressible map finds just what the map
covers. -/
theorem resourceClause_accurate (p : Policy) (user : String) (hu : '*' ∉ user.toList) (e : Entity)
    (he : e.HasTextName) :
    ∃ matched, Query.run e (Query.resourceClause p.resources user) = .ok ⟨matched, []⟩ ∧
      (matched = true ↔ ∀ d ∈ Query.indexedDimensions,
        (p.resource? d).all (e.isAdmitted (Query.reader user d) d) = true) ∧
      (p.coversEntity user e = true ↔
        ∀ d ∈ Dimension.entityBusinessMetadata :: Query.indexedDimensions,
          (p.resource? d).all (e.isAdmitted user d) = true) ∧
      (p.IsExpressible → matched = p.coversEntity user e) := by
  refine ⟨_, Query.run_resourceClause p.resources he hu, List.all_eq_true, coversEntity_iff_dimensions,
    fun h => ?_⟩
  rw [coversEntity_eq_indexed user h.open_metadata, Bool.eq_iff_iff, List.all_eq_true,
    List.all_eq_true]
  exact forall₂_congr fun d hd => iff_of_eq (congrArg (· = true) (h.reader_eq user hd))

/-- A map that puts the user in qualified names and asks for a type is searched as it is read. -/
theorem resourceClause_accurate_own_tables :
    let p : Policy :=
      { name := "own", service := .resource
        resources := NameMap.ofList [("entity", ["db/\x7bUSER\x7d/*"]), ("entity-type", ["Table"])] }
    let table : Entity := Entity.withQualifiedName { typeName := "Table" } "db/ann/t"
    p.IsExpressible ∧ '*' ∉ "ann".toList ∧ table.HasTextName ∧
      Query.run table (Query.resourceClause p.resources "ann") = .ok ⟨true, []⟩ := by
  intro p table
  have h : p.IsExpressible := by
    constructor
    · have hnone : p.resource? Dimension.entityBusinessMetadata = none := by decide
      intro values hv
      rw [hnone] at hv
      cases hv
    · decide
  have hgiven : table.qualifiedName? = some "db/ann/t" := rfl
  have hname : table.HasTextName := .of_qualifiedName? hgiven
  obtain ⟨matched, hrun, -, -, hm⟩ := resourceClause_accurate p "ann" (by decide) table hname
  have hcovers : p.coversEntity "ann" table = true := by decide
  rw [hm h, hcovers] at hrun
  exact ⟨h, by decide, hname, hrun⟩

/-- Patterns for the business metadata restrict decisions and leave searches open. A placeholder in
a type stands for the user in decisions, and for itself in searches. -/
theorem resourceClause_inaccurate :
    let files : Policy :=
      { name := "files", service := .resource
        resources := NameMap.ofList [("entity-business-metadata", ["db/*"])] }
    let typed : Policy :=
      { name := "typed", service := .resource
        resources := NameMap.ofList [("entity-type", ["\x7bUSER\x7d"])] }
    let orders : Entity := Entity.withQualifiedName { typeName := "ann" } "lake/orders"
    orders.qualifiedName? = some "lake/orders" ∧
      (Query.run orders (Query.resourceClause files.resources "ann") = .ok ⟨true, []⟩ ∧
        files.coversEntity "ann" orders = false) ∧
      Query.run orders (Query.resourceClause typed.resources "ann") = .ok ⟨false, []⟩ ∧
        typed.coversEntity "ann" orders = true := by
  intro files typed orders
  have hgiven : orders.qualifiedName? = some "lake/orders" := rfl
  have hname : orders.HasTextName := .of_qualifiedName? hgiven
  have hfiles : (Query.indexedDimensions.all fun d =>
      (files.resources.get? d).all (orders.isAdmitted (Query.reader "ann" d) d)) = true := by decide
  have htyped : (Query.indexedDimensions.all fun d =>
      (typed.resources.get? d).all (orders.isAdmitted (Query.reader "ann" d) d)) = false := by decide
  refine ⟨hgiven, ⟨?_, by decide⟩, ?_, by decide⟩
  · rw [Query.run_resourceClause _ hname (by decide), hfiles]
  · rw [Query.run_resourceClause _ hname (by decide), htyped]

/-- The policy asks for tags and leaves the other dimensions of entities open. -/
structure IsAboutTags (p : Policy) : Prop where
  /-- The tags are declared. -/
  declared : (p.resource? Dimension.tag).isSome
  /-- Each other dimension that decisions look at has the bare wildcard, if it is declared. -/
  others : ∀ d ∈ Dimension.entityBusinessMetadata :: Query.indexedDimensions, d ≠ Dimension.tag →
    ∀ values, p.resource? d = some values → wildcard ∈ values

/-- A policy about tags covers what its tags admit. -/
theorem IsAboutTags.coversEntity_iff {p : Policy} (h : p.IsAboutTags) (user : String) :
    p.coversEntity user e = true ↔
      ∃ values, p.resource? Dimension.tag = some values ∧
        e.isAdmitted user Dimension.tag values = true := by
  obtain ⟨values, hv⟩ := Option.isSome_iff_exists.1 h.declared
  have htag : Dimension.tag ∈ Dimension.entityBusinessMetadata :: Query.indexedDimensions := by decide
  rw [coversEntity_iff_dimensions]
  constructor
  · intro hc
    have hadmit := hc _ htag
    rw [hv, Option.all_some] at hadmit
    exact ⟨values, hv, hadmit⟩
  · rintro ⟨values, hv, hadmit⟩ d hd
    by_cases hname : d = Dimension.tag
    · rw [hname, hv, Option.all_some]
      exact hadmit
    · exact all_isAdmitted_of_open (h.others d hd hname) user

end Policy

/-! ### Tag policies -/

namespace AccessView

/-- The policies that clauses are made of are among those published, and of the service asked
for. -/
theorem mem_policies_of_mem_entityPolicies {policies : List Policy} {v : AccessView}
    (hv : v.policies = .ofPolicies policies) {user : String} {actions : List String}
    {effect : Effect} {service : Policy.Service} {p : Policy}
    (hp : p ∈ v.entityPolicies user actions effect service) :
    p ∈ policies ∧ p.service = service := by
  obtain ⟨⟨id, q⟩, hentry, rfl⟩ := List.mem_map.1 hp
  obtain ⟨r, hr, heq⟩ := List.mem_map.1 (NameMap.mem_of_mem_ofList hentry)
  obtain ⟨rfl, rfl⟩ := Prod.mk.inj heq
  obtain ⟨action, -, hrelevant⟩ := List.mem_flatMap.1 (List.mem_reverse.1 hr)
  exact mem_policies_of_relevant hv hrelevant

/-- The clause of a relevant tag policy stands among those of its effect, under the name of the
policy, and matches the entities that its tags admit. Decisions ask for the other dimensions too, and
for no tags when there are none: the clause of a policy about tags matches just what the policy
covers. -/
theorem tagClause_accurate (policies : List Policy) (subjects : Subjects) (limit : Nat)
    (user : String) (actions : List String) (effect : Effect) (p : Policy)
    (hp : p ∈ entityPolicies ⟨.ofPolicies policies, subjects, limit⟩ user actions effect .tag)
    (hplain : ∀ values, p.resource? Dimension.tag = some values →
      ∀ pattern ∈ values, Pattern.hasPlaceholder pattern.toList = false) (e : Entity) :
    let v : AccessView := ⟨.ofPolicies policies, subjects, limit⟩
    let name := ClauseName.ofPolicy p.displayId effect
    ∃ clause matched, entityClause? p user = some clause ∧
      Query.named name clause ∈ v.entityClauses user actions effect ∧
      Query.run e (Query.named name clause) = .ok ⟨matched, if matched then [name] else []⟩ ∧
      (matched = true ↔ ∃ values, p.resource? Dimension.tag = some values ∧
        e.isAdmitted user Dimension.tag values = true) ∧
      (p.coversEntity user e = true ↔
        ∀ d ∈ Dimension.entityBusinessMetadata :: Query.indexedDimensions,
          (p.resource? d).all (e.isAdmitted user d) = true) ∧
      (p.IsAboutTags → matched = p.coversEntity user e) := by
  intro v name
  have hservice : p.service = .tag := (mem_policies_of_mem_entityPolicies rfl hp).2
  have hclause : entityClause? p user =
      some (Query.tagClause ((p.resource? Dimension.tag).getD [])) := by
    rw [entityClause?, hservice]
  have hrun := Query.run_tagClause (e := e) ((p.resource? Dimension.tag).getD [])
  -- Tags without placeholders are read for every user in the same way; without tags there are none.
  have hmatched : e.isAdmitted userPlaceholder Dimension.tag
      ((p.resource? Dimension.tag).getD []) = true ↔
      ∃ values, p.resource? Dimension.tag = some values ∧
        e.isAdmitted user Dimension.tag values = true := by
    cases hv : p.resource? Dimension.tag with
    | none => simp [Entity.isAdmitted, Entity.matchesDimension, hasWildcard, Pattern.acceptsAny]
    | some values =>
      rw [Option.getD_some, Entity.isAdmitted_of_not_hasPlaceholder (hplain values hv) _ user]
      simp
  refine ⟨_, _, hclause, ?_, ?_, hmatched, Policy.coversEntity_iff_dimensions, fun h => ?_⟩
  · refine List.mem_flatMap.2 ⟨.tag, by decide, List.mem_filterMap.2 ⟨p, hp, ?_⟩⟩
    rw [hclause, Option.map_some]
  · rw [Query.run_named_silent name (Query.silent_of_run hrun), Query.selects_of_run hrun]
  · rw [Bool.eq_iff_iff, hmatched, h.coversEntity_iff user]

/-- A policy that grants reading to ann by a classification is found under its name. -/
theorem tagClause_accurate_pii :
    let pii : Policy :=
      { name := "pii", service := .tag
        resources := NameMap.ofList [("entity-type", ["*"]), ("tag", ["PII*"])]
        allowItems := [{ accesses := NameSet.ofList ["entity-read"], users := ["ann"] }] }
    let v : AccessView := ⟨.ofPolicies [pii], {}, 1⟩
    let email : Entity := { typeName := "Column", classifications := [⟨"PII-email", none⟩] }
    pii ∈ v.entityPolicies "ann" ["entity-read"] .allow .tag ∧ pii.IsAboutTags ∧
      (∀ values, pii.resource? Dimension.tag = some values →
        ∀ pattern ∈ values, Pattern.hasPlaceholder pattern.toList = false) ∧
      ∃ clause ∈ v.entityClauses "ann" ["entity-read"] .allow,
        Query.run email clause = .ok ⟨true, ["pii"]⟩ := by
  intro pii v email
  have hp : pii ∈ v.entityPolicies "ann" ["entity-read"] .allow .tag := by decide +kernel
  have htags : pii.resource? Dimension.tag = some ["PII*"] := by decide
  have hplain : ∀ values, pii.resource? Dimension.tag = some values →
      ∀ pattern ∈ values, Pattern.hasPlaceholder pattern.toList = false := by
    intro values hv
    obtain rfl := Option.some.inj (htags.symm.trans hv)
    decide
  have habout : pii.IsAboutTags := ⟨by decide, by decide⟩
  obtain ⟨clause, matched, -, hmem, hrun, -, -, hm⟩ :=
    tagClause_accurate [pii] {} 1 "ann" ["entity-read"] .allow pii hp hplain email
  have hcovers : pii.coversEntity "ann" email = true := by decide
  rw [hm habout, hcovers] at hrun
  exact ⟨hp, habout, hplain, _, hmem, hrun⟩

/-- A tag policy for tables only makes searches find columns too, and one without tags is found
nowhere. -/
theorem tagClause_inaccurate :
    let reading : Policy.Item :=
      { accesses := NameSet.ofList ["entity-read"], users := ["ann"] }
    let narrow : Policy :=
      { name := "narrow", service := .tag, allowItems := [reading]
        resources := NameMap.ofList [("entity-type", ["Table"]), ("tag", ["PII"])] }
    let untagged : Policy :=
      { name := "untagged", service := .tag, allowItems := [reading]
        resources := NameMap.ofList [("entity-type", ["Table"])] }
    let v : AccessView := ⟨.ofPolicies [narrow, untagged], {}, 1⟩
    let email : Entity := { typeName := "Column", classifications := [⟨"PII", none⟩] }
    let orders : Entity := { typeName := "Table" }
    (narrow ∈ v.entityPolicies "ann" ["entity-read"] .allow .tag ∧
      (∃ clause ∈ entityClause? narrow "ann", Query.run email clause = .ok ⟨true, []⟩) ∧
      narrow.coversEntity "ann" email = false) ∧
    untagged ∈ v.entityPolicies "ann" ["entity-read"] .allow .tag ∧
      (∃ clause ∈ entityClause? untagged "ann", Query.run orders clause = .ok ⟨false, []⟩) ∧
      untagged.coversEntity "ann" orders = true := by
  intro reading narrow untagged v email orders
  have hnarrow : email.isAdmitted userPlaceholder Dimension.tag ["PII"] = true := by decide
  have huntagged : orders.isAdmitted userPlaceholder Dimension.tag [] = false := by decide
  refine ⟨⟨by decide +kernel, ⟨Query.tagClause ["PII"], rfl, ?_⟩, by decide⟩,
    by decide +kernel, ⟨Query.tagClause [], rfl, ?_⟩, by decide⟩
  · rw [Query.run_tagClause, hnarrow]
  · rw [Query.run_tagClause, huntagged]

end AccessView

end CatalogAccess
