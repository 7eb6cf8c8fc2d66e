import CatalogAccess.Authority
import CatalogAccess.Vocabulary
import Mathlib.Algebra.Group.Nat.Defs

/-!
# Reading canonical bytes back

The canonical bytes of a resource map are a sequence of names and values without a count. What follows a
value is the length of another one, or the end of the dimension and the name of the next one. So
different maps may have the same bytes, and do not where the two can be told apart: where no name holds
the separator, and none begins like the length of a value (`ResourceMap.Legible.read`). That is so for
plain names, which those of the vocabulary are, as long as no value has an absurd length. The eighth byte
is small in the length of a value that fits into memory, and part of a plain name or the separator after
it otherwise (`ResourceMap.legible_of_isPlainName`).

Plain maps with the same bytes overlap, unless a dimension has no values
(`ResourceMap.overlaps_of_canonicalBytes_eq`), so that a policy with the target of another one is found
by its resources.
-/

namespace CatalogAccess

/-! ### Texts and numbers -/

/-- A text can be read back from its bytes. -/
theorem utf8_injective {s t : String} (h : utf8 s = utf8 t) : s = t := by
  have hdata : s.toByteArray.data = t.toByteArray.data := Array.toList_inj.1 h
  have hbytes : s.toByteArray = t.toByteArray := ByteArray.ext hdata
  exact String.toByteArray_inj.1 hbytes

/-- The bytes of a text are those of its parts. -/
theorem utf8_append (s t : String) : utf8 (s ++ t) = utf8 s ++ utf8 t := by
  unfold utf8
  rw [String.toByteArray_append, ByteArray.data_append, Array.toList_append]

theorem length_littleEndian (n : Nat) : (littleEndian n).length = 8 := by
  rw [littleEndian, List.length_map, List.length_range]

/-- The digits of a number to the base of 256 are the bytes that it is written in. -/
theorem littleEndian_getElem? {n i : Nat} (hi : i < 8) :
    (littleEndian n)[i]? = some (UInt8.ofNat (n / 256 ^ i)) := by
  rw [littleEndian, List.getElem?_map, List.getElem?_range hi]
  rfl

/-- Numbers with the same last digits to the base of 256, and no others, are the same. -/
theorem eq_of_digits {count n m : Nat} (hn : n < 256 ^ count) (hm : m < 256 ^ count)
    (h : ∀ i < count, n / 256 ^ i % 256 = m / 256 ^ i % 256) : n = m := by
  induction count generalizing n m with
  | zero => omega
  | succ count ih =>
    have hfirst : n % 256 = m % 256 := by simpa using h 0 (Nat.succ_pos count)
    have hsmall : ∀ k, k < 256 ^ (count + 1) → k / 256 < 256 ^ count := by
      intro k hk
      rw [Nat.pow_succ] at hk
      exact Nat.div_lt_of_lt_mul (by omega)
    have hrest : n / 256 = m / 256 := by
      refine ih (hsmall n hn) (hsmall m hm) fun i hi => ?_
      rw [Nat.div_div_eq_div_mul, Nat.div_div_eq_div_mul, Nat.mul_comm, ← Nat.pow_succ]
      exact h (i + 1) (by omega)
    omega

/-- A number that fits into eight bytes can be read back. -/
theorem littleEndian_injective {n m : Nat} (hn : n < 2 ^ 64) (hm : m < 2 ^ 64)
    (h : littleEndian n = littleEndian m) : n = m := by
  have hn' : n < 256 ^ 8 := hn
  have hm' : m < 256 ^ 8 := hm
  refine eq_of_digits hn' hm' fun i hi => ?_
  have hbyte : UInt8.ofNat (n / 256 ^ i) = UInt8.ofNat (m / 256 ^ i) := by
    rw [← Option.some.injEq, ← littleEndian_getElem? hi, ← littleEndian_getElem? hi, h]
  simpa using congrArg UInt8.toNat hbyte

namespace ResourceMap

/-! ### Dimensions -/

/-- The name of a dimension has printable characters only, and several of them. -/
def IsPlainName (d : String) : Prop := 6 ≤ (utf8 d).length ∧ ∀ b ∈ utf8 d, 0x20 ≤ b

instance (d : String) : Decidable (IsPlainName d) := inferInstanceAs (Decidable (_ ∧ _))

/-- The names of all dimensions are plain. -/
def IsPlain (m : ResourceMap) : Prop := ∀ e ∈ m.toList, IsPlainName e.1

/-- A plain name does not hold the separator that follows names. -/
theorem IsPlainName.separator {d : String} (h : IsPlainName d) : 0x1f ∉ utf8 d :=
  fun hmem => absurd (h.2 _ hmem) (by decide)

/-- A list is read up to the first separator. -/
theorem eq_of_append_separator {α : Type} {a b x y : List α} {c : α} (ha : c ∉ a) (hb : c ∉ b)
    (h : a ++ c :: x = b ++ c :: y) : a = b ∧ x = y := by
  induction a generalizing b with
  | nil =>
    cases b with
    | nil => exact ⟨rfl, List.tail_eq_of_cons_eq h⟩
    | cons d b =>
      obtain rfl : c = d := List.head_eq_of_cons_eq h
      exact absurd List.mem_cons_self hb
  | cons d a ih =>
    cases b with
    | nil =>
      obtain rfl : d = c := List.head_eq_of_cons_eq h
      exact absurd List.mem_cons_self ha
    | cons e b =>
      obtain ⟨rfl, htail⟩ := List.cons.inj h
      obtain ⟨rfl, hxy⟩ := ih (fun hc => ha (List.mem_cons_of_mem d hc))
        (fun hc => hb (List.mem_cons_of_mem d hc)) htail
      exact ⟨rfl, hxy⟩

/-- The last byte of the length of a value that fits into memory is small. -/
theorem littleEndian_last {n : Nat} (hn : n < 2 ^ 60) {b : UInt8}
    (hb : (littleEndian n)[7]? = some b) : b < 0x10 := by
  rw [littleEndian_getElem? (by decide)] at hb
  obtain rfl := Option.some.inj hb
  have hdiv : n / 256 ^ 7 < 16 := Nat.div_lt_of_lt_mul (by omega)
  rw [UInt8.lt_iff_toNat_lt, UInt8.toNat_ofNat]
  show n / 256 ^ 7 % 2 ^ 8 < 16
  omega

theorem length_valueBytes (v : String) : (valueBytes v).length = (utf8 v).length + 8 := by
  rw [valueBytes, List.length_append, length_littleEndian, Nat.add_comm]

/-- A value can be read back, and so can what follows it. -/
theorem value_injective {v w : String} {rest rest' : List UInt8}
    (hv : (utf8 v).length < 2 ^ 64) (hw : (utf8 w).length < 2 ^ 64)
    (h : valueBytes v ++ rest = valueBytes w ++ rest') : v = w ∧ rest = rest' := by
  unfold valueBytes at h
  rw [List.append_assoc, List.append_assoc] at h
  have hnumbers : (littleEndian (utf8 v).length).length = (littleEndian (utf8 w).length).length := by
    rw [length_littleEndian, length_littleEndian]
  obtain ⟨hlength, htail⟩ := List.append_inj h hnumbers
  have hsame := littleEndian_injective hv hw hlength
  obtain ⟨hbytes, hrest⟩ := List.append_inj htail hsame
  exact ⟨utf8_injective hbytes, hrest⟩

/-- The end of a dimension with something after it does not start with the value. -/
def EndsBefore (rest : List UInt8) (v : String) : Prop :=
  ∀ tail, 0x1e :: rest ≠ valueBytes v ++ tail

/-- Values are read one by one on both sides, where no end is taken for a value of the other side. -/
theorem values_read {vs ws : List String} {rest rest' : List UInt8}
    (hvs : ∀ v ∈ vs, (utf8 v).length < 2 ^ 64) (hws : ∀ w ∈ ws, (utf8 w).length < 2 ^ 64)
    (hends : ∀ w ∈ ws, EndsBefore rest w) (hends' : ∀ v ∈ vs, EndsBefore rest' v)
    (h : vs.flatMap valueBytes ++ 0x1e :: rest = ws.flatMap valueBytes ++ 0x1e :: rest') :
    vs = ws ∧ rest = rest' := by
  -- By induction on the values of one side: both sides end at the same value, or both go on.
  induction vs generalizing ws with
  | nil =>
    cases ws with
    | nil => exact ⟨rfl, List.tail_eq_of_cons_eq h⟩
    | cons w ws =>
      rw [List.flatMap_cons, List.append_assoc] at h
      exact absurd h (hends w List.mem_cons_self _)
  | cons v vs ih =>
    cases ws with
    | nil =>
      rw [List.flatMap_cons, List.append_assoc] at h
      exact absurd h.symm (hends' v List.mem_cons_self _)
    | cons w ws =>
      rw [List.flatMap_cons, List.flatMap_cons, List.append_assoc, List.append_assoc] at h
      rw [List.forall_mem_cons] at hvs hws hends hends'
      obtain ⟨rfl, htail⟩ := value_injective hvs.1 hws.1 h
      obtain ⟨rfl, hsame⟩ := ih hvs.2 hws.2 hends.2 hends'.2 htail
      exact ⟨rfl, hsame⟩

/-! ### Names -/

/-- The parts of a dimension, and what follows it. -/
theorem dimensionBytes_append (d : String) (vs : List String) (rest : List UInt8) :
    dimensionBytes d vs ++ rest =
      utf8 d ++ 0x1f :: ((vs.mergeSort (· ≤ ·)).flatMap valueBytes ++ 0x1e :: rest) := by
  rw [dimensionBytes, List.append_assoc, List.cons_append, List.append_assoc, List.singleton_append]

/-- The name of a dimension between its separator and the end of the dimension before. -/
def framedName (d : String) : List UInt8 := 0x1e :: (utf8 d ++ [0x1f])

/-- The length of a value and the framed name of a dimension begin alike, so that the one may be taken for
the other. -/
def Resembles (v d : String) : Prop :=
  framedName d <+: littleEndian (utf8 v).length ∨ littleEndian (utf8 v).length <+: framedName d

instance (v d : String) : Decidable (Resembles v d) := inferInstanceAs (Decidable (_ ∨ _))

/-- The eighth byte of a framed plain name is in the name, or the separator after it. -/
theorem framedName_eighth {d : String} (hd : IsPlainName d) :
    ∃ b, (framedName d)[7]? = some b ∧ 0x10 ≤ b := by
  obtain ⟨hlength, hprintable⟩ := hd
  have hlong : 7 < (framedName d).length := by
    rw [framedName, List.length_cons, List.length_append, List.length_singleton]
    omega
  refine ⟨_, List.getElem?_eq_getElem hlong, ?_⟩
  have hmem : (framedName d)[7] ∈ utf8 d ++ [0x1f] := List.getElem_mem _
  rcases List.mem_append.1 hmem with hb | hb
  · exact UInt8.le_trans (by decide) (hprintable _ hb)
  · rw [List.mem_singleton.1 hb]
    decide

/-- A value that fits into memory resembles no plain name, since its length has a small eighth byte. -/
theorem not_resembles_of_isPlainName {v d : String} (hd : IsPlainName d)
    (hv : (utf8 v).length < 2 ^ 60) : ¬ Resembles v d := by
  obtain ⟨b, hb, hlarge⟩ := framedName_eighth hd
  have hlong : 7 < (framedName d).length := (List.getElem?_eq_some_iff.1 hb).1
  have hlong' : 7 < (littleEndian (utf8 v).length).length := by rw [length_littleEndian]; decide
  intro h
  have hsame : (littleEndian (utf8 v).length)[7]? = some b := by
    rw [← hb]
    rcases h with ⟨tail, h⟩ | ⟨tail, h⟩
    · rw [← h, List.getElem?_append_left hlong]
    · rw [← h, List.getElem?_append_left hlong']
  exact absurd (littleEndian_last hv hsame) (UInt8.not_lt.2 hlarge)

/-- The end of a dimension is not taken for a value that resembles no name after it. -/
theorem endsBefore_dimensions {l : List (String × List String)} {v : String}
    (h : ∀ e ∈ l, ¬ Resembles v e.1) :
    EndsBefore (l.flatMap fun e => dimensionBytes e.1 e.2) v := by
  intro tail heq
  cases l with
  | nil =>
    have hlength := congrArg List.length heq
    rw [List.length_append, length_valueBytes, List.flatMap_nil, List.length_singleton] at hlength
    omega
  | cons e l =>
    rw [List.flatMap_cons, dimensionBytes_append, valueBytes, List.append_assoc] at heq
    have hname : framedName e.1 <+: littleEndian (utf8 v).length ++ (utf8 v ++ tail) := by
      rw [← heq, framedName, List.cons_prefix_cons, List.prefix_append_right_inj]
      exact ⟨rfl, List.prefix_append [0x1f] _⟩
    exact h e List.mem_cons_self (List.prefix_or_prefix_of_prefix hname (List.prefix_append _ _))

/-- The name of a dimension can be read back, and what is left are its values. -/
theorem name_read {d e : String} {vs ws : List String} {rest rest' : List UInt8}
    (hd : 0x1f ∉ utf8 d) (he : 0x1f ∉ utf8 e)
    (h : dimensionBytes d vs ++ rest = dimensionBytes e ws ++ rest') :
    d = e ∧ (vs.mergeSort (· ≤ ·)).flatMap valueBytes ++ 0x1e :: rest =
      (ws.mergeSort (· ≤ ·)).flatMap valueBytes ++ 0x1e :: rest' := by
  rw [dimensionBytes_append, dimensionBytes_append] at h
  obtain ⟨hname, hvalues⟩ := eq_of_append_separator hd he h
  exact ⟨utf8_injective hname, hvalues⟩

/-! ### Resource maps -/

/-- Values in increasing order are the same exactly for the same values in some order. -/
theorem mergeSort_eq_iff {vs ws : List String} :
    vs.mergeSort (· ≤ ·) = ws.mergeSort (· ≤ ·) ↔ vs.Perm ws := by
  have hsorted : ∀ l : List String, (l.mergeSort (· ≤ ·)).Pairwise (· ≤ ·) := fun l =>
    (List.pairwise_mergeSort (by simpa using fun _ _ _ => String.le_trans)
      (by simpa using String.le_total) l).imp of_decide_eq_true
  constructor
  · intro h
    calc vs.Perm (vs.mergeSort (· ≤ ·)) := (List.mergeSort_perm vs _).symm
      _ = ws.mergeSort (· ≤ ·) := h
      List.Perm _ ws := List.mergeSort_perm ws _
  · intro h
    refine List.Perm.eq_of_pairwise (fun _ _ _ _ => String.le_antisymm) (hsorted vs) (hsorted ws) ?_
    exact (List.mergeSort_perm vs _).trans (h.trans (List.mergeSort_perm ws _).symm)

/-- The dimensions of one list can be told from those of another one. -/
structure Legible (l k : List (String × List String)) : Prop where
  /-- No name holds the separator. -/
  names : ∀ e ∈ l, 0x1f ∉ utf8 e.1
  /-- The length of every value can be written in eight bytes. -/
  short : ∀ e ∈ l, ∀ v ∈ e.2, (utf8 v).length < 2 ^ 64
  /-- No value of the other list resembles a name that follows a dimension. -/
  apart : ∀ e ∈ l.tail, ∀ f ∈ k, ∀ v ∈ f.2, ¬ Resembles v e.1

theorem Legible.tail {e f : String × List String} {l k : List (String × List String)}
    (h : Legible (e :: l) (f :: k)) : Legible l k :=
  ⟨fun x hx => h.names x (List.mem_cons_of_mem e hx),
    fun x hx => h.short x (List.mem_cons_of_mem e hx),
    fun x hx y hy => h.apart x (List.mem_of_mem_tail hx) y (List.mem_cons_of_mem f hy)⟩

/-- Dimensions that can be told from each other can be read back, with their values in increasing
order. -/
theorem Legible.read {l k : List (String × List String)} (hl : Legible l k) (hk : Legible k l)
    (h : (l.flatMap fun e => dimensionBytes e.1 e.2) = k.flatMap fun e => dimensionBytes e.1 e.2) :
    (l.map fun e => (e.1, e.2.mergeSort (· ≤ ·))) = k.map fun e => (e.1, e.2.mergeSort (· ≤ ·)) := by
  induction l generalizing k with
  | nil =>
    cases k with
    | nil => rfl
    | cons e k => exact absurd (congrArg List.length h) (by simp [dimensionBytes])
  | cons e l ih =>
    cases k with
    | nil => exact absurd (congrArg List.length h) (by simp [dimensionBytes])
    | cons f k =>
      have he : e ∈ e :: l := List.mem_cons_self
      have hf : f ∈ f :: k := List.mem_cons_self
      rw [List.flatMap_cons, List.flatMap_cons] at h
      obtain ⟨hname, hvalues⟩ := name_read (hl.names e he) (hk.names f hf) h
      obtain ⟨hsorted, hrest⟩ := values_read
        (fun v hv => hl.short e he v (List.mem_mergeSort.1 hv))
        (fun w hw => hk.short f hf w (List.mem_mergeSort.1 hw))
        (fun w hw => endsBefore_dimensions fun x hx => hl.apart x hx f hf w (List.mem_mergeSort.1 hw))
        (fun v hv => endsBefore_dimensions fun x hx => hk.apart x hx e he v (List.mem_mergeSort.1 hv))
        hvalues
      rw [List.map_cons, List.map_cons, hname, hsorted, ih hl.tail hk.tail hrest]

/-- No value is longer than the dimensions that it is part of. -/
theorem length_le_of_mem {l : List (String × List String)} {e : String × List String} (he : e ∈ l)
    {v : String} (hv : v ∈ e.2) :
    (utf8 v).length ≤ (l.flatMap fun e => dimensionBytes e.1 e.2).length := by
  obtain ⟨before, after, rfl⟩ := List.append_of_mem he
  have hmem : v ∈ e.2.mergeSort (· ≤ ·) := List.mem_mergeSort.2 hv
  obtain ⟨first, last, hsorted⟩ := List.append_of_mem hmem
  simp only [List.flatMap_append, List.flatMap_cons, dimensionBytes, hsorted, List.length_append,
    List.length_cons, length_valueBytes]
  omega

/-- Plain dimensions can be told from others whose values fit into memory. -/
theorem legible_of_isPlainName {l k : List (String × List String)} (hl : ∀ e ∈ l, IsPlainName e.1)
    (hshort : (l.flatMap fun e => dimensionBytes e.1 e.2).length < 2 ^ 60)
    (hshort' : (k.flatMap fun e => dimensionBytes e.1 e.2).length < 2 ^ 60) : Legible l k := by
  refine ⟨fun e he => (hl e he).separator, fun e he v hv => ?_, fun e he f hf v hv => ?_⟩
  · have hle := length_le_of_mem he hv
    omega
  · have hle := length_le_of_mem hf hv
    exact not_resembles_of_isPlainName (hl e (List.mem_of_mem_tail he)) (by omega)

/-- Plain maps with the same canonical bytes have the same dimensions, with the same values in some
order. -/
theorem canonicalBytes_injective {m n : ResourceMap} (hm : m.IsPlain) (hn : n.IsPlain)
    (hshort : m.canonicalBytes.length < 2 ^ 60) (h : m.canonicalBytes = n.canonicalBytes)
    {d : String} {vs : List String} (hd : m.get? d = some vs) :
    ∃ ws, n.get? d = some ws ∧ vs.Perm ws := by
  have hshort' : n.canonicalBytes.length < 2 ^ 60 := h ▸ hshort
  have hsame := (legible_of_isPlainName hm hshort hshort').read
    (legible_of_isPlainName hn hshort' hshort) h
  have hmem : (d, vs.mergeSort (· ≤ ·)) ∈ m.toList.map fun e => (e.1, e.2.mergeSort (· ≤ ·)) :=
    List.mem_map.2 ⟨(d, vs), NameMap.get?_eq_some_iff.1 hd, rfl⟩
  rw [hsame] at hmem
  obtain ⟨e, he, heq⟩ := List.mem_map.1 hmem
  obtain ⟨rfl, hsorted⟩ := Prod.mk.inj heq
  exact ⟨e.2, NameMap.get?_eq_some_iff.2 he, mergeSort_eq_iff.1 hsorted.symm⟩

/-- In plain maps with the same canonical bytes the same dimensions have values. -/
theorem values_of_canonicalBytes_eq {m n : ResourceMap} (hm : m.IsPlain) (hn : n.IsPlain)
    (hshort : m.canonicalBytes.length < 2 ^ 60) (h : m.canonicalBytes = n.canonicalBytes)
    (hvalues : ∀ e ∈ n.toList, e.2 ≠ []) : ∀ e ∈ m.toList, e.2 ≠ [] := by
  rintro ⟨d, vs⟩ he hnil
  obtain ⟨ws, hws, hperm⟩ :=
    canonicalBytes_injective hm hn hshort h (NameMap.get?_eq_some_iff.2 he)
  rw [show vs = [] from hnil] at hperm
  exact hvalues _ (NameMap.get?_eq_some_iff.1 hws) hperm.symm.eq_nil

/-- Plain maps with the same canonical bytes overlap, unless a dimension has no values. -/
theorem overlaps_of_canonicalBytes_eq {m n : ResourceMap} (hm : m.IsPlain) (hn : n.IsPlain)
    (hshort : m.canonicalBytes.length < 2 ^ 60) (h : m.canonicalBytes = n.canonicalBytes)
    (hvalues : ∀ e ∈ m.toList, e.2 ≠ []) : Authority.overlaps n m = true := by
  unfold Authority.overlaps
  rw [List.all_eq_true]
  rintro ⟨d, vs⟩ he
  obtain ⟨ws, hws, hperm⟩ :=
    canonicalBytes_injective hm hn hshort h (NameMap.get?_eq_some_iff.2 he)
  obtain ⟨v, hv⟩ := List.exists_mem_of_ne_nil vs (hvalues _ he)
  rw [hws, Option.any_some, List.any_eq_true]
  exact ⟨v, hv, List.contains_iff_mem.2 (hperm.subset hv)⟩

end ResourceMap

end CatalogAccess
