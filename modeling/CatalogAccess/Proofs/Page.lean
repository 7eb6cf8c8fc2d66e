import CatalogAccess.Page

/-!
# Reading page by page loses nothing

Reading stops with the first page that is not full, and a search with the first page that has what is
looked for as well. `Page.Visits` are the pages that are read by then. They cover the listing, or the part
of it that is searched, without gap or overlap, whatever their length (`Visits.flatMap_slice`,
`Visits.findSome?_slice`), and none of them begins behind the end of the listing (`Visits.offset_le`).
So all elements are found, each once and in order (`drain_eq`), and looking for an element page by page
finds the first one (`find?_eq`).
-/

namespace CatalogAccess.Page

variable {α : Type} {l : List α} {p : Page} {ps : List Page} {stops : Page → Prop}

/-- The page is not full. -/
def IsShort (p : Page) (l : List α) : Prop := (p.slice l).length < p.limit

/-- The pages read from a page on, one after the other, up to the first at which reading stops. -/
inductive Visits (stops : Page → Prop) : Page → List Page → Prop
  /-- Reading stops. -/
  | last {p : Page} (h : stops p) : Visits stops p [p]
  /-- Reading goes on with the next page. -/
  | next {p : Page} {ps : List Page} (h : ¬ stops p) (hnext : Visits stops p.next ps) :
      Visits stops p (p :: ps)

/-! ### One page -/

theorem length_slice : (p.slice l).length = min p.limit (l.length - p.offset) := by
  rw [slice, List.length_take, List.length_drop]

/-- After the elements of a page come those from the next page on. -/
theorem slice_append_drop : p.slice l ++ l.drop p.next.offset = l.drop p.offset := by
  rw [slice, next, ← List.drop_drop, List.take_append_drop]

/-- A page that is not full is the end of the listing. -/
theorem slice_of_isShort (h : p.IsShort l) : p.slice l = l.drop p.offset := by
  unfold IsShort at h
  rw [length_slice] at h
  exact List.take_of_length_le (by rw [List.length_drop]; omega)

/-- Up to a page that is not full no page begins behind the end. -/
theorem offset_next_le (hp : p.offset ≤ l.length) (h : ¬ p.IsShort l) :
    p.next.offset ≤ l.length := by
  unfold IsShort at h
  rw [length_slice] at h
  simp only [next]
  omega

/-! ### All pages -/

/-- Reading a listing to its end comes to a page that is not full, and visits the pages up to it. -/
theorem visits_visited (l : List α) (p : Page) (h : 0 < p.limit) :
    Visits (·.IsShort l) p (visited l.length p) := by
  have hshort : ∀ p : Page, 0 < p.limit → (p.IsShort l ↔ l.length < p.offset + p.limit) := by
    intro p hp
    rw [IsShort, length_slice]
    omega
  fun_induction visited l.length p with
  | case1 p hlast => exact .last ((hshort p h).2 (by omega))
  | case2 p hmore ih => exact .next (mt (hshort p h).1 (by omega)) (ih h)

/-- Where the pages are just filled one more is read, which begins at the end and is empty. -/
example : visited 4 (first 2) = [⟨0, 2⟩, ⟨2, 2⟩, ⟨4, 2⟩] := by decide +kernel

/-- Reading that may stop early visits the first of the pages that are read to the end. -/
theorem Visits.cut (h : Visits (·.IsShort l) p ps) (hstops : ∀ p : Page, p.IsShort l → stops p) :
    ∃ qs, qs <+: ps ∧ Visits stops p qs := by
  induction h with
  | last hshort => exact ⟨_, List.prefix_rfl, .last (hstops _ hshort)⟩
  | @next p ps hfull hnext ih =>
    by_cases hp : stops p
    · exact ⟨[p], List.cons_prefix_cons.2 ⟨rfl, List.nil_prefix⟩, .last hp⟩
    · obtain ⟨qs, hqs, hvisits⟩ := ih
      exact ⟨p :: qs, List.cons_prefix_cons.2 ⟨rfl, hqs⟩, .next hp hvisits⟩

/-- No page that is read begins behind the end of the listing. -/
theorem Visits.offset_le (h : Visits (·.IsShort l) p ps) (hp : p.offset ≤ l.length) :
    ∀ q ∈ ps, q.offset ≤ l.length := by
  induction h with
  | last hshort => simpa using hp
  | next hfull hnext ih => exact List.forall_mem_cons.2 ⟨hp, ih (offset_next_le hp hfull)⟩

/-- The pages, put together, are all that is left of the listing. -/
theorem Visits.flatMap_slice (h : Visits (·.IsShort l) p ps) :
    ps.flatMap (·.slice l) = l.drop p.offset := by
  induction h with
  | last hshort => rw [List.flatMap_singleton, slice_of_isShort hshort]
  | next hfull hnext ih => rw [List.flatMap_cons, ih, slice_append_drop]

/-- Reading that stops as soon as an element passes a test finds the first that does. -/
theorem Visits.findSome?_slice {test : α → Bool}
    (h : Visits (fun p => p.IsShort l ∨ (p.slice l).any test) p ps) :
    (ps.findSome? fun p => (p.slice l).find? test) = (l.drop p.offset).find? test := by
  induction h with
  | @last p hstop =>
    rw [List.findSome?_singleton]
    rcases hstop with hshort | hhit
    · rw [slice_of_isShort hshort]
    · have hfound : ((p.slice l).find? test).isSome := by simpa using hhit
      rw [← slice_append_drop, List.find?_append, Option.or_of_isSome hfound]
  | @next p ps hgoes hnext ih =>
    have hmiss : (p.slice l).find? test = none := by simpa using (not_or.1 hgoes).2
    rw [List.findSome?_cons, hmiss, ih, ← slice_append_drop (p := p), List.find?_append, hmiss,
      Option.none_or]

/-! ### From the first page on -/

/-- Pages have room for an element even where none is asked for. -/
theorem limit_first_pos (pageSize : Nat) : 0 < (first (max pageSize 1)).limit :=
  Nat.lt_of_lt_of_le Nat.one_pos (Nat.le_max_right _ _)

/-- Pages of a listing are read from the first one on until reading stops, and none begins behind the
end of the listing. -/
structure Reads (pageSize : Nat) (l : List α) (stops : Page → Prop) (ps : List Page) : Prop where
  /-- The pages are those that are visited. -/
  visits : Visits stops (first (max pageSize 1)) ps
  /-- Every page begins at an element or at the end. -/
  offset_le : ∀ p ∈ ps, p.offset ≤ l.length

/-- Whatever the page size, reading to the end stops, and so does reading that may stop early. -/
theorem exists_reads (pageSize : Nat) (l : List α) (stops : Page → Prop)
    (hstops : ∀ p : Page, p.IsShort l → stops p) : ∃ ps, Reads pageSize l stops ps := by
  have hvisits := visits_visited l _ (limit_first_pos pageSize)
  obtain ⟨ps, hps, hearly⟩ := hvisits.cut hstops
  exact ⟨ps, hearly, fun p hp => hvisits.offset_le (Nat.zero_le _) p (hps.subset hp)⟩

/-- A listing that is read page by page is read as a whole. -/
theorem drain_eq (pageSize : Nat) (l : List α) : drain pageSize l = l :=
  (visits_visited l _ (limit_first_pos pageSize)).flatMap_slice

/-- Looking for an element page by page finds the first that passes the test. -/
theorem find?_eq (pageSize : Nat) (test : α → Bool) (l : List α) :
    find? pageSize test l = l.find? test := by
  have hdrain := drain_eq pageSize l
  unfold drain at hdrain
  unfold find?
  rw [← List.find?_flatMap, hdrain]

end CatalogAccess.Page
