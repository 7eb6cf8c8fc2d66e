import CatalogAccess.Proofs.Synthesis
import Mathlib.Data.List.Forall2

/-!
# Reading the resources of families back

The resources of a family are an outline, in which some dimensions hold the assets and the others
prescribe their values. Families whose resources have the same canonical bytes have the same outline and
the same assets (`families_read`), however many bytes there are. The bytes are read in lock step from the
front. There the end of a dimension is taken for a value of the other side only if that value is as long
as what follows, which then holds assets as well. The patterns of glossary families are never taken for
that, since they start with a star, and the one family that is left over is told by its end.
-/

namespace CatalogAccess

namespace Synthesis

open ResourceMap

/-- The dimensions of a resource map, without values where the assets go. -/
abbrev Outline := List (String × List String)

/-- The values of a dimension with the assets filled in. -/
def fill (assets values : List String) : List String := if values = [] then assets else values

namespace Outline

variable {assets assets' : List String} {starred starred' : Bool}

/-- The canonical bytes of an outline with the assets filled in. -/
def bytes (l : Outline) (assets : List String) : List UInt8 :=
  l.flatMap fun e => dimensionBytes e.1 (fill assets e.2)

/-- How many bytes an outline takes without assets. -/
def size (l : Outline) : Nat := (l.map fun e => (utf8 e.1).length + 2 + weight e.2).sum

/-- Names are plain, and what is prescribed fits into memory. -/
def IsRegular (l : Outline) : Prop := (∀ e ∈ l, IsPlainName e.1) ∧ l.size < 2 ^ 60

instance (l : Outline) : Decidable l.IsRegular := inferInstanceAs (Decidable (_ ∧ _))

/-- Whether no dimension holds the assets. -/
def isClosed (l : Outline) : Bool := l.all fun e => e.2 ≠ []

/-- Whether the end of a dimension can be told from the values on the other side: they are prescribed, or
no assets follow, or they start with a star and a name that goes on with another character follows. -/
def endsBefore (rest : Outline) (starred : Bool) (values : List String) : Bool :=
  values ≠ [] || rest.isClosed ||
    (starred && rest.head?.any fun e => ((utf8 e.1)[7]?).any (· ≠ 0x2a))

/-- Whether two outlines can be read in lock step, up to the first difference in names. -/
def isReadable (starred starred' : Bool) : Outline → Outline → Bool
  | (d, vs) :: l, (e, ws) :: k =>
    d ≠ e || (endsBefore l starred' ws && endsBefore k starred vs && isReadable starred starred' l k)
  | _, _ => true

/-- What outlines may be filled with. -/
structure Takes (starred : Bool) (assets : List String) : Prop where
  /-- The length of each pattern can be written in eight bytes. -/
  short : ∀ a ∈ assets, (utf8 a).length < 2 ^ 64
  /-- Starred patterns start with a star. -/
  star : starred = true → ∀ a ∈ assets, (utf8 a)[0]? = some 0x2a

theorem isRegular_cons {e : String × List String} {l : Outline} (h : IsRegular (e :: l)) :
    (IsPlainName e.1 ∧ weight e.2 < 2 ^ 60) ∧ l.IsRegular := by
  obtain ⟨hplain, hsize⟩ := h
  rw [List.forall_mem_cons] at hplain
  rw [size, List.map_cons, List.sum_cons] at hsize
  refine ⟨⟨hplain.1, by omega⟩, hplain.2, ?_⟩
  rw [size]
  omega

/-- An outline without assets takes its size. -/
theorem length_bytes_of_isClosed {l : Outline} (h : l.isClosed = true) (assets : List String) :
    (l.bytes assets).length = l.size := by
  have hclosed : ∀ e ∈ l, fill assets e.2 = e.2 := by
    intro e he
    have hvalues := List.all_eq_true.1 h e he
    exact if_neg (of_decide_eq_true hvalues)
  rw [bytes, List.length_flatMap, size]
  refine congrArg List.sum (List.map_congr_left fun e he => ?_)
  rw [hclosed e he, length_dimensionBytes]

/-- The order of the assets does not matter. -/
theorem bytes_congr (l : Outline) (h : assets.Perm assets') : l.bytes assets = l.bytes assets' := by
  unfold bytes
  refine congrArg (List.flatMap · l) (funext fun e => ?_)
  have hperm : (fill assets e.2).Perm (fill assets' e.2) := by
    unfold fill
    split
    · exact h
    · exact .refl _
  rw [dimensionBytes, mergeSort_eq_iff.2 hperm, dimensionBytes]

/-- A value that fits into memory is told from the end of a dimension before an outline with plain
names. -/
theorem endsBefore_of_short {l : Outline} (h : ∀ e ∈ l, IsPlainName e.1) (assets : List String)
    {v : String} (hv : (utf8 v).length < 2 ^ 60) : EndsBefore (l.bytes assets) v := by
  have hfilled : l.bytes assets = (l.map fun e => (e.1, fill assets e.2)).flatMap fun e =>
      dimensionBytes e.1 e.2 := by
    rw [bytes, List.flatMap_map]
  rw [hfilled]
  refine endsBefore_dimensions fun e he => ?_
  obtain ⟨f, hf, rfl⟩ := List.mem_map.1 he
  exact not_resembles_of_isPlainName (h f hf) hv

/-- A value of a dimension is prescribed or a pattern for an asset. -/
theorem mem_fill {values : List String} {v : String} (h : v ∈ fill assets values) :
    values = [] ∧ v ∈ assets ∨ v ∈ values := by
  unfold fill at h
  split at h
  · next hopen => exact .inl ⟨hopen, h⟩
  · exact .inr h

/-- A prescribed value is not longer than what is prescribed. -/
theorem length_le_weight {values : List String} {v : String} (h : v ∈ values) :
    (utf8 v).length ≤ weight values := by
  obtain ⟨before, after, rfl⟩ := List.append_of_mem h
  rw [weight, List.map_append, List.map_cons, List.sum_append, List.sum_cons]
  omega

/-- All values that an outline is filled with are short enough to be read. -/
theorem Takes.length_lt (h : Takes starred assets) {values : List String}
    (hweight : weight values < 2 ^ 60) {v : String} (hv : v ∈ fill assets values) :
    (utf8 v).length < 2 ^ 64 := by
  rcases mem_fill hv with ⟨-, hmem⟩ | hmem
  · exact h.short v hmem
  · have hle := length_le_weight hmem
    omega

/-- A value that takes more bytes than there are does not follow. -/
theorem endsBefore_of_length {rest : List UInt8} {v : String}
    (hshort : rest.length < (utf8 v).length) : EndsBefore rest v := by
  intro tail h
  have hlength := congrArg List.length h
  rw [List.length_cons, List.length_append, length_valueBytes] at hlength
  omega

/-- A value does not follow that starts with another byte. -/
theorem endsBefore_of_byte {rest : List UInt8} {v : String} {b : UInt8}
    (hv : (utf8 v)[0]? = some b) (hrest : rest[7]? ≠ some b) : EndsBefore rest v := by
  intro tail h
  have hbyte : (utf8 v ++ tail)[0]? = some b := by
    rw [List.getElem?_append_left (List.getElem?_eq_some_iff.1 hv).1, hv]
  refine hrest ?_
  calc rest[7]? = (0x1e :: rest)[8]? := rfl
    _ = (valueBytes v ++ tail)[8]? := by rw [h]
    _ = (utf8 v ++ tail)[0]? := by
      rw [valueBytes, List.append_assoc,
        List.getElem?_append_right (Nat.le_of_eq (length_littleEndian _)), length_littleEndian]
    _ = some b := hbyte

/-- What tells the end of a dimension from values on the other side does so. -/
theorem endsBefore_bytes {rest : Outline} (hrest : rest.IsRegular) {values : List String}
    (hvalues : weight values < 2 ^ 60) (hassets : Takes starred assets)
    (h : endsBefore rest starred values = true) {v : String} (hv : v ∈ fill assets values) :
    EndsBefore (rest.bytes assets') v := by
  rcases mem_fill hv with ⟨rfl, hmem⟩ | hmem
  · by_cases hclosed : rest.isClosed = true
    · rcases Nat.lt_or_ge (utf8 v).length (2 ^ 60) with hshort | hlong
      · exact endsBefore_of_short hrest.1 assets' hshort
      · refine endsBefore_of_length ?_
        rw [length_bytes_of_isClosed hclosed]
        exact Nat.lt_of_lt_of_le hrest.2 hlong
    · -- The value starts with a star, and a name follows.
      simp only [endsBefore, ne_eq, not_true_eq_false, decide_false, Bool.false_or, hclosed,
        Bool.and_eq_true] at h
      obtain ⟨hstarred, hname⟩ := h
      refine endsBefore_of_byte (hassets.star hstarred v hmem) ?_
      cases rest with
      | nil => exact absurd rfl hclosed
      | cons e l =>
        rw [List.head?_cons, Option.any_some, Option.any_eq_true] at hname
        obtain ⟨b, hb, hne⟩ := hname
        rw [bytes, List.flatMap_cons, dimensionBytes_append,
          List.getElem?_append_left (List.getElem?_eq_some_iff.1 hb).1, hb]
        exact fun heq => of_decide_eq_true hne (Option.some.inj heq)
  · have hle := length_le_weight hmem
    exact endsBefore_of_short hrest.1 assets' (by omega)

/-- Outlines that can be read in lock step and have the same bytes have the same dimensions, with the same
values in some order. -/
theorem forall₂_of_bytes_eq (hassets : Takes starred assets) (hassets' : Takes starred' assets')
    {l k : Outline} (hl : l.IsRegular) (hk : k.IsRegular)
    (hreadable : isReadable starred starred' l k = true) (h : l.bytes assets = k.bytes assets') :
    List.Forall₂ (fun e f => e.1 = f.1 ∧ (fill assets e.2).Perm (fill assets' f.2)) l k := by
  -- By induction on one outline: after a dimension there is the rest of it, with the assets filled in.
  induction l generalizing k with
  | nil =>
    cases k with
    | nil => exact .nil
    | cons f k => exact absurd (congrArg List.length h) (by simp [bytes, dimensionBytes])
  | cons e l ih =>
    cases k with
    | nil => exact absurd (congrArg List.length h) (by simp [bytes, dimensionBytes])
    | cons f k =>
      obtain ⟨⟨hplain, hweight⟩, hl⟩ := isRegular_cons hl
      obtain ⟨⟨hplain', hweight'⟩, hk⟩ := isRegular_cons hk
      rw [bytes, bytes, List.flatMap_cons, List.flatMap_cons] at h
      obtain ⟨hname, hvalues⟩ := name_read hplain.separator hplain'.separator h
      simp only [isReadable, hname, ne_eq, not_true_eq_false, decide_false, Bool.false_or,
        Bool.and_eq_true] at hreadable
      obtain ⟨⟨hends, hends'⟩, hreadable⟩ := hreadable
      have hsorted : ∀ {vs : List String} {v : String}, v ∈ vs.mergeSort (· ≤ ·) → v ∈ vs :=
        fun hv => List.mem_mergeSort.1 hv
      obtain ⟨hsame, hrest⟩ := values_read
        (fun v hv => hassets.length_lt hweight (hsorted hv))
        (fun w hw => hassets'.length_lt hweight' (hsorted hw))
        (fun w hw => endsBefore_bytes hl hweight' hassets' hends (hsorted hw))
        (fun v hv => endsBefore_bytes hk hweight hassets hends' (hsorted hv)) hvalues
      exact .cons ⟨hname, mergeSort_eq_iff.1 hsame⟩ (ih hl hk hreadable hrest)

/-! ### From the end -/

/-- Whether the last dimension is the same, and the values of the one before end in different bytes. -/
def endsApart (l k : Outline) : Bool :=
  match l.reverse, k.reverse with
  | last :: e :: _, last' :: f :: _ =>
    last = last' && last.2 ≠ [] && e.2 ≠ [] && f.2 ≠ [] &&
      e.2.all fun v => f.2.all fun w => (valueBytes v).getLast? ≠ (valueBytes w).getLast?
  | _, _ => false

/-- Values end in the last byte of one of them. -/
theorem getLast?_values {vs : List String} (h : vs ≠ []) (before : List UInt8) :
    ∃ v ∈ vs, (before ++ (vs.mergeSort (· ≤ ·)).flatMap valueBytes).getLast? =
      (valueBytes v).getLast? := by
  have hsorted : vs.mergeSort (· ≤ ·) ≠ [] := by
    intro hnil
    have hperm := List.mergeSort_perm vs (· ≤ ·)
    rw [hnil] at hperm
    exact h hperm.symm.eq_nil
  obtain ⟨front, v, hv⟩ := (List.eq_nil_or_concat' _).resolve_left hsorted
  have hbytes : valueBytes v ≠ [] := by
    intro hnil
    have hlength := length_valueBytes v
    rw [hnil, List.length_nil] at hlength
    omega
  refine ⟨v, List.mem_mergeSort.1 (hv ▸ List.mem_append_right _ (List.mem_singleton_self v)), ?_⟩
  rw [hv, List.flatMap_append, List.flatMap_singleton, ← List.append_assoc,
    List.getLast?_append_of_ne_nil _ hbytes]

/-- The values of the last dimension but one, with what comes before and after them. -/
theorem bytes_eq_of_reverse {l front : Outline} {last e : String × List String}
    (h : l.reverse = last :: e :: front) (hlast : last.2 ≠ []) (he : e.2 ≠ []) (assets : List String) :
    ∃ before, l.bytes assets = before ++ (e.2.mergeSort (· ≤ ·)).flatMap valueBytes ++
      0x1e :: dimensionBytes last.1 last.2 := by
  obtain rfl : l = front.reverse ++ [e, last] := by
    rw [← List.reverse_reverse l, h, List.reverse_cons, List.reverse_cons, List.append_assoc,
      List.singleton_append]
  refine ⟨bytes front.reverse assets ++ utf8 e.1 ++ [0x1f], ?_⟩
  simp [bytes, fill, hlast, he, dimensionBytes]

/-- Outlines that end in different bytes have different bytes. -/
theorem bytes_ne_of_endsApart {l k : Outline} (h : endsApart l k = true) :
    l.bytes assets ≠ k.bytes assets' := by
  intro heq
  unfold endsApart at h
  split at h
  · next last e front last' f front' hl hk =>
    simp only [Bool.and_eq_true, decide_eq_true_eq, List.all_eq_true] at h
    obtain ⟨⟨⟨⟨rfl, hlast⟩, he⟩, hf⟩, hdiffer⟩ := h
    obtain ⟨before, hbefore⟩ := bytes_eq_of_reverse hl hlast he assets
    obtain ⟨before', hbefore'⟩ := bytes_eq_of_reverse hk hlast hf assets'
    -- Without the last dimension both sides end in values.
    rw [hbefore, hbefore'] at heq
    have hvalues := List.append_cancel_right heq
    obtain ⟨v, hv, hlastv⟩ := getLast?_values he before
    obtain ⟨w, hw, hlastw⟩ := getLast?_values hf before'
    exact hdiffer v hv w hw (hlastv.symm.trans ((congrArg List.getLast? hvalues).trans hlastw))
  · exact Bool.false_ne_true h

end Outline

/-! ### Families -/

/-- The families of a category. -/
def families : PersonaPolicy.Category → List Family
  | .metadata => metadataFamilies
  | .glossary => glossaryFamilies
  | .data => []

theorem families_sub {category : PersonaPolicy.Category} {f : Family} (h : f ∈ families category) :
    f ∈ metadataFamilies ++ glossaryFamilies := by
  cases category with
  | metadata => exact List.mem_append_left _ h
  | glossary => exact List.mem_append_right _ h
  | data => exact absurd h List.not_mem_nil

/-- The resources of a family when there are no assets, so that the dimensions that depend on assets
have no values. -/
def Family.outline (f : Family) (types : List String) : ResourceMap :=
  NameMap.ofList (f.resources ⟨[], types⟩)

/-- The canonical bytes of the resources of a family are those of its outline with the assets filled in. -/
theorem canonicalBytes_resources {f : Family} (hf : f ∈ metadataFamilies ++ glossaryFamilies)
    {types : List String} (htypes : types ≠ []) (assets : List String) :
    canonicalBytes (NameMap.ofList (f.resources ⟨assets, types⟩)) =
      Outline.bytes (f.outline types).toList assets := by
  -- What a family prescribes is never empty, so that nothing but the assets is filled in.
  have hfilled : f.resources ⟨assets, types⟩ =
      (f.resources ⟨[], types⟩).map fun e => (e.1, fill assets e.2) := by
    have hglossary : glossaryTypes ≠ [] := by decide
    have hlinkable : linkableTypes ≠ [] := by decide
    simp only [metadataFamilies, glossaryFamilies, List.cons_append, List.nil_append,
      List.mem_cons, List.not_mem_nil, or_false] at hf
    rcases hf with rfl | rfl | rfl | rfl | rfl | rfl | rfl | rfl | rfl | rfl | rfl | rfl <;>
      simp [entityResources, relationshipResources, fill, htypes, hglossary, hlinkable]
  rw [hfilled, NameMap.ofList_map, canonicalBytes, NameMap.mapValues, List.flatMap_map]
  rfl

/-- The types that the grants of a persona may apply to. -/
def typeOptions : List (List String) := [[wildcard], metadataTypes]

/-- Whether the patterns of a category start with a star. -/
def isStarred (category : PersonaPolicy.Category) : Bool := category = .glossary

/-- The outlines of families are regular and hold the assets somewhere. -/
theorem outline_isRegular : ∀ f ∈ metadataFamilies ++ glossaryFamilies, ∀ types ∈ typeOptions,
    Outline.IsRegular (f.outline types).toList ∧ ∃ e ∈ (f.outline types).toList, e.2 = [] := by
  decide +kernel

/-- Two dimensions may have the same values, if those filled in are not just the wildcard. -/
def Outline.Agree (e f : String × List String) : Prop :=
  e.1 = f.1 ∧ if e.2 = [] then f.2 ≠ [wildcard] else if f.2 = [] then e.2 ≠ [wildcard]
    else e.2.isPerm f.2 = true

instance (e f : String × List String) : Decidable (Outline.Agree e f) :=
  inferInstanceAs (Decidable (_ ∧ _))

/-- Dimensions agree if they do with the assets filled in. -/
theorem Outline.agree_of_perm {assets assets' : List String} (hassets : ¬ assets.Perm [wildcard])
    (hassets' : ¬ assets'.Perm [wildcard]) {e f : String × List String} (hname : e.1 = f.1)
    (hperm : (fill assets e.2).Perm (fill assets' f.2)) : Outline.Agree e f := by
  refine ⟨hname, ?_⟩
  unfold fill at hperm
  split at hperm <;> split at hperm
  · next hopen hopen' => rw [if_pos hopen, hopen']; decide
  · next hopen hclosed =>
    rw [if_pos hopen]
    exact fun hwildcard => hassets (hwildcard ▸ hperm)
  · next hclosed hopen =>
    rw [if_neg hclosed, if_pos hopen]
    exact fun hwildcard => hassets' (hwildcard ▸ hperm.symm)
  · next hclosed hclosed' =>
    rw [if_neg hclosed, if_neg hclosed']
    exact List.isPerm_iff.2 hperm

/-- The outlines of any two families can be read in lock step or end in different bytes. They agree only
if they are the same, and then the families have the same name. -/
theorem outlines_told : ∀ c ∈ [PersonaPolicy.Category.metadata, .glossary],
    ∀ c' ∈ [PersonaPolicy.Category.metadata, .glossary], ∀ f ∈ families c, ∀ g ∈ families c',
    ∀ types ∈ typeOptions, ∀ types' ∈ typeOptions,
      (Outline.isReadable (isStarred c) (isStarred c') (f.outline types).toList
          (g.outline types').toList = true ∨
        Outline.endsApart (f.outline types).toList (g.outline types').toList = true) ∧
      (List.Forall₂ Outline.Agree (f.outline types).toList (g.outline types').toList →
        f.stem = g.stem ∧ f.outline types = g.outline types') := by
  decide +kernel

/-- The outline of a family tells the types that persona policies apply to if it is one of metadata
policies about entities of these types. -/
theorem outline_eq_iff : (∀ f ∈ metadataFamilies, ∀ types ∈ typeOptions, ∀ types' ∈ typeOptions,
      (f.outline types = f.outline types' ↔ (Dimension.entityType ∈ f.dimensions → types = types'))) ∧
    ∀ f ∈ glossaryFamilies, ∀ types ∈ typeOptions, ∀ types' ∈ typeOptions,
      f.outline types = f.outline types' := by
  decide +kernel

/-- What the assets of a persona policy are turned into for the families of its category. -/
structure ArePatterns (category : PersonaPolicy.Category) (assets : List String) : Prop
    extends Outline.Takes (isStarred category) assets where
  /-- They are not just the wildcard. -/
  ne_wildcard : ¬ assets.Perm [wildcard]

/-- Families whose resources have the same canonical bytes have the same name, the same outline and the
same assets. -/
theorem families_read {c c' : PersonaPolicy.Category} {f g : Family} (hf : f ∈ families c)
    (hg : g ∈ families c') {types types' : List String} (htypes : types ∈ typeOptions)
    (htypes' : types' ∈ typeOptions) {assets assets' : List String} (hassets : ArePatterns c assets)
    (hassets' : ArePatterns c' assets')
    (h : Outline.bytes (f.outline types).toList assets =
      Outline.bytes (g.outline types').toList assets') :
    f.stem = g.stem ∧ f.outline types = g.outline types' ∧ assets.Perm assets' := by
  have hcategory : ∀ {c : PersonaPolicy.Category} {f : Family}, f ∈ families c →
      c ∈ [PersonaPolicy.Category.metadata, .glossary] := by
    intro c f hf
    cases c with
    | metadata => exact List.mem_cons_self
    | glossary => exact List.mem_cons_of_mem _ List.mem_cons_self
    | data => exact absurd hf List.not_mem_nil
  obtain ⟨hregular, e, he, hopen⟩ := outline_isRegular f (families_sub hf) types htypes
  have hregular' := (outline_isRegular g (families_sub hg) types' htypes').1
  obtain ⟨htold, hagreeing⟩ := outlines_told c (hcategory hf) c' (hcategory hg) f hf g hg types htypes
    types' htypes'
  have hreadable := htold.resolve_right fun hends => Outline.bytes_ne_of_endsApart hends h
  have hread := Outline.forall₂_of_bytes_eq hassets.toTakes hassets'.toTakes hregular hregular'
    hreadable h
  obtain ⟨hstem, houtline⟩ := hagreeing (hread.imp fun _ _ he =>
    Outline.agree_of_perm hassets.ne_wildcard hassets'.ne_wildcard he.1 he.2)
  rw [← houtline] at hread
  have hperm := (List.forall₂_same.1 hread e he).2
  rw [hopen] at hperm
  exact ⟨hstem, houtline, hperm⟩

end Synthesis

end CatalogAccess
