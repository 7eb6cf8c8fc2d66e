import CatalogAccess.NameMap
import Mathlib.Data.List.Basic

/-!
# Maps built from lists

`get?_ofList` says which entry of a list a look-up in its map finds: the last one of the key.
When the key tells the values of the list apart, the map holds just these values
(`mem_values_ofList`).
-/

namespace CatalogAccess.NameMap

variable {α : Type}

/-- The entries of a list are inserted one after the other. -/
theorem toList_ofList (l : List (String × α)) :
    (ofList l).toList = l.foldl (fun es e => insertSorted e.1 e.2 es) [] := by
  rw [ofList]
  exact (List.foldl_hom toList fun _ _ => rfl).symm

/-- Of the entries written after a map the last of a key counts, and without one the map does. -/
theorem get?_foldl_insert (l : List (String × α)) (m : NameMap α) (k : String) :
    (l.foldl (fun m e => m.insert e.1 e.2) m).get? k =
      ((l.reverse.find? (·.1 == k)).map Prod.snd).or (m.get? k) := by
  induction l generalizing m with
  | nil => simp
  | cons e l ih =>
    rw [List.foldl_cons, ih, get?_insert, List.reverse_cons, List.find?_append]
    cases l.reverse.find? (·.1 == k) with
    | some f => rfl
    | none =>
      by_cases hk : k = e.1
      · simp [hk]
      · simp [hk, Ne.symm hk]

/-- A look-up in the map of a list finds the last entry of the key. -/
theorem get?_ofList (l : List (String × α)) (k : String) :
    (ofList l).get? k = (l.reverse.find? (·.1 == k)).map Prod.snd := by
  rw [ofList, get?_foldl_insert, get?_empty, Option.or_none]

/-- The entries of the map of a list are entries of the list. -/
theorem mem_of_mem_ofList {l : List (String × α)} {e : String × α} (h : e ∈ (ofList l).toList) :
    e ∈ l := by
  have hget : (ofList l).get? e.1 = some e.2 := get?_eq_some_iff.2 h
  rw [get?_ofList, Option.map_eq_some_iff] at hget
  obtain ⟨f, hfind, hvalue⟩ := hget
  have hkey : f.1 = e.1 := by simpa using List.find?_some hfind
  obtain rfl : f = e := Prod.ext hkey hvalue
  exact List.mem_reverse.1 (List.mem_of_find?_eq_some hfind)

/-- The keys of the map of a list are those of the list. -/
theorem contains_ofList {l : List (String × α)} {k : String} :
    (ofList l).contains k = true ↔ k ∈ l.map Prod.fst := by
  rw [contains, get?_ofList, Option.isSome_map, List.find?_isSome, List.mem_map]
  simp

/-- Where no key is repeated with another value, every entry of the list is found. -/
theorem get?_ofList_eq_some {l : List (String × α)} (h : ∀ a ∈ l, ∀ b ∈ l, a.1 = b.1 → a = b)
    {k : String} {v : α} : (ofList l).get? k = some v ↔ (k, v) ∈ l := by
  rw [get?_ofList, Option.map_eq_some_iff]
  constructor
  · rintro ⟨e, hfind, rfl⟩
    have hk : e.1 = k := by simpa using List.find?_some hfind
    exact hk ▸ List.mem_reverse.1 (List.mem_of_find?_eq_some hfind)
  · intro hmem
    have hfound : (l.reverse.find? (·.1 == k)).isSome := by
      rw [List.find?_isSome]
      exact ⟨(k, v), List.mem_reverse.2 hmem, beq_self_eq_true _⟩
    obtain ⟨e, hfind⟩ := Option.isSome_iff_exists.1 hfound
    have hk : e.1 = k := by simpa using List.find?_some hfind
    have he := List.mem_reverse.1 (List.mem_of_find?_eq_some hfind)
    exact ⟨e, hfind, by rw [h e he (k, v) hmem hk]⟩

/-- A function on the values of a map acts on what a look-up finds. -/
theorem get?_mapValues {β : Type} {f : String → α → β} {m : NameMap α} {k : String} :
    (m.mapValues f).get? k = (m.get? k).map (f k) := by
  refine Option.ext fun b => ?_
  rw [get?_eq_some_iff, Option.map_eq_some_iff]
  constructor
  · intro hb
    obtain ⟨e, he, heq⟩ := List.mem_map.1 hb
    obtain ⟨rfl, rfl⟩ := Prod.mk.inj heq
    exact ⟨e.2, get?_eq_some_iff.2 he, rfl⟩
  · rintro ⟨a, ha, rfl⟩
    exact List.mem_map.2 ⟨(k, a), get?_eq_some_iff.1 ha, rfl⟩

/-- The map of a list whose values have all been changed in the same way. -/
theorem ofList_map {β : Type} (l : List (String × α)) (f : α → β) :
    ofList (l.map fun e => (e.1, f e.2)) = (ofList l).mapValues fun _ => f := by
  refine ext_get? fun k => ?_
  rw [get?_mapValues, get?_ofList, get?_ofList, ← List.map_reverse, List.find?_map, Option.map_map,
    Option.map_map]
  rfl

/-- The values of a map are those that some look-up finds. -/
theorem mem_values_iff {m : NameMap α} {v : α} : v ∈ m.values ↔ ∃ k, m.get? k = some v := by
  simp only [values, List.mem_map, get?_eq_some_iff, Prod.exists]
  constructor
  · rintro ⟨k, w, hmem, rfl⟩
    exact ⟨k, hmem⟩
  · rintro ⟨k, hmem⟩
    exact ⟨k, v, hmem, rfl⟩

/-- Values under keys that tell them apart are all kept. -/
theorem mem_values_ofList {l : List α} {key : α → String}
    (h : ∀ x ∈ l, ∀ y ∈ l, key x = key y → x = y) {x : α} :
    x ∈ (ofList (l.map fun y => (key y, y))).values ↔ x ∈ l := by
  have hentries : ∀ a ∈ l.map fun y => (key y, y), ∀ b ∈ l.map fun y => (key y, y),
      a.1 = b.1 → a = b := by
    intro a ha b hb hab
    obtain ⟨y, hy, rfl⟩ := List.mem_map.1 ha
    obtain ⟨z, hz, rfl⟩ := List.mem_map.1 hb
    obtain rfl := h y hy z hz hab
    rfl
  rw [mem_values_iff]
  simp only [get?_ofList_eq_some hentries, List.mem_map, Prod.mk.injEq]
  constructor
  · rintro ⟨k, y, hy, -, rfl⟩
    exact hy
  · intro hx
    exact ⟨key x, x, hx, rfl, rfl⟩

/-- After a write a look-up finds what was written, or what was there under another key. -/
theorem get?_insert_eq_some {m : NameMap α} {k x : String} {v w : α} :
    (m.insert k v).get? x = some w ↔ x = k ∧ v = w ∨ x ≠ k ∧ m.get? x = some w := by
  rw [get?_insert]
  split
  · next hx => simp [hx]
  · next hx => simp [hx]

/-- After a removal a look-up finds what was there under another key. -/
theorem get?_erase_eq_some {m : NameMap α} {k x : String} {v : α} :
    (m.erase k).get? x = some v ↔ x ≠ k ∧ m.get? x = some v := by
  rw [get?_erase]
  split
  · next hx => simp [hx]
  · next hx => simp [hx]

/-- Without a key, the map of a list is the map of the entries with other keys. -/
theorem erase_ofList (l : List (String × α)) (k : String) :
    (ofList l).erase k = ofList (l.filter (·.1 ≠ k)) := by
  refine ext_get? fun x => ?_
  rw [get?_erase, get?_ofList, get?_ofList, ← List.filter_reverse]
  split
  · next hx =>
    have hnone : (l.reverse.filter (·.1 ≠ k)).find? (·.1 == x) = none := by
      simp [List.find?_eq_none, hx]
    rw [hnone, Option.map_none]
  · next hx =>
    have hsame : (l.reverse.filter (·.1 ≠ k)).find? (·.1 == x) = l.reverse.find? (·.1 == x) := by
      rw [List.find?_filter]
      congr 1
      funext e
      by_cases he : e.1 = x
      · simp [he, hx]
      · simp [he]
    rw [hsame]

/-- A key whose value gives nothing may be taken out of a map. -/
theorem filterMap_values_erase {β : Type} {m : NameMap α} {k : String} {f : α → Option β}
    (h : ∀ v, m.get? k = some v → f v = none) :
    (m.erase k).values.filterMap f = m.values.filterMap f := by
  unfold values erase filter
  rw [List.filterMap_map, List.filterMap_map, List.filterMap_filter]
  refine List.filterMap_congr fun e he => ?_
  by_cases hk : e.1 = k
  · have hnone : f e.2 = none := h e.2 (get?_eq_some_iff.2 (hk ▸ he))
    simp [hk, hnone]
  · simp [hk]

/-! ### Maps whose values are related in pairs -/

/-- The values of any two keys are related. -/
def Pairwise (R : α → α → Prop) (m : NameMap α) : Prop :=
  ∀ ⦃k k' v v'⦄, m.get? k = some v → m.get? k' = some v' → k ≠ k' → R v v'

variable {R : α → α → Prop} {m n : NameMap α}

/-- A map with no entry of its own has the relation of a larger one. -/
theorem Pairwise.mono (h : m.Pairwise R) (hsub : ∀ k v, n.get? k = some v → m.get? k = some v) :
    n.Pairwise R :=
  fun k k' v v' hk hk' => h (hsub k v hk) (hsub k' v' hk')

/-- A value may be written that is related to those under other keys. -/
theorem Pairwise.insert (h : m.Pairwise R) (hsymm : ∀ a b, R a b → R b a) {k : String} {v : α}
    (hnew : ∀ k' v', m.get? k' = some v' → k' ≠ k → R v' v) : (m.insert k v).Pairwise R := by
  intro x x' w w' hx hx' hne
  rw [get?_insert_eq_some] at hx hx'
  obtain ⟨rfl, rfl⟩ | ⟨hother, hold⟩ := hx <;> obtain ⟨rfl, rfl⟩ | ⟨hother', hold'⟩ := hx'
  · exact absurd rfl hne
  · exact hsymm _ _ (hnew x' w' hold' hother')
  · exact hnew x w hold hother
  · exact h hold hold' hne

end CatalogAccess.NameMap
