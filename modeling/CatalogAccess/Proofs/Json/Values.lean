import CatalogAccess.Json.Record
import CatalogAccess.Proofs.NameMap

/-!
# Values in documents

The document of a value can be held as a whole (`Json.isReadable_document`). It reads as the value
itself when the members of all objects in it are listed by increasing key
(`Json.IsOrdered.value?_document`), which is so for every value that is read
(`Document.isOrdered_of_value?`).
-/

namespace CatalogAccess

/-- The map of the entries of a map is the map itself. -/
theorem NameMap.ofList_toList {α : Type} (m : NameMap α) : ofList m.toList = m := by
  refine ext_get? fun k => Option.ext fun v => ?_
  rw [get?_ofList_eq_some, get?_eq_some_iff]
  -- Two entries with one key are what a look-up of the key finds.
  intro a ha b hb hab
  have hfound : m.get? a.1 = some a.2 := get?_eq_some_iff.2 ha
  rw [hab, get?_eq_some_iff.2 hb] at hfound
  exact Prod.ext hab (Option.some.inj hfound).symm

/-! ### Reading in order -/

namespace Document

/-- Reading one by one gives back what was written, when each item can be read back. -/
theorem mapM_map {α β : Type} {read : β → Option α} {write : α → β} {l : List α}
    (h : ∀ x ∈ l, read (write x) = some x) : (l.map write).mapM read = some l := by
  induction l with
  | nil => rfl
  | cons x l ih =>
    obtain ⟨hx, hl⟩ := List.forall_mem_cons.1 h
    rw [List.map_cons, List.mapM_cons, hx, ih hl]
    rfl

/-- The values of a list are read one by one. -/
theorem values?_eq_mapM (ds : List Document) : values? ds = ds.mapM value? := by
  induction ds with
  | nil => rfl
  | cons d ds ih => rw [values?, List.mapM_cons, ih]

/-- The members of an object are read one by one. -/
theorem memberValues?_eq_mapM (ms : List (Option String × Document)) :
    memberValues? ms = ms.mapM (mapMember? value?) := by
  induction ms with
  | nil => rfl
  | cons m ms ih =>
    rw [memberValues?, List.mapM_cons, ih, mapMember?]
    simp only [bind_assoc, pure_bind]

end Document

namespace Json

/-- The documents of a list of values. -/
theorem documents_eq_map (vs : List Json) : documents vs = vs.map document := by
  induction vs with
  | nil => rfl
  | cons v vs ih => rw [documents, ih, List.map_cons]

/-- The members of a document that holds an object. -/
theorem documentMembers_eq_map (ms : List (String × Json)) :
    documentMembers ms = ms.map fun m => (some m.1, m.2.document) := by
  induction ms with
  | nil => rfl
  | cons m ms ih => rw [documentMembers, ih, List.map_cons]

/-! ### Values that documents hold -/

mutual

/-- All of the document of a value can be held. -/
theorem isReadable_document : ∀ v : Json, v.document.isReadable = true
  | .null | .bool _ | .num _ | .str _ => rfl
  | .arr items => by
    rw [document, Document.isReadable, Document.value?, Option.isSome_map]
    exact isSome_values? items
  | .obj members => by
    rw [document, Document.isReadable, Document.value?, Option.isSome_map]
    exact isSome_memberValues? members

/-- All items of a list can be held. -/
theorem isSome_values? : ∀ vs : List Json, (Document.values? (documents vs)).isSome = true
  | [] => rfl
  | v :: vs => by
    obtain ⟨w, hv⟩ := Option.isSome_iff_exists.1 (isReadable_document v)
    obtain ⟨ws, hvs⟩ := Option.isSome_iff_exists.1 (isSome_values? vs)
    rw [documents, Document.values?, hv, hvs]
    rfl

/-- All members of an object can be held. -/
theorem isSome_memberValues? :
    ∀ ms : List (String × Json), (Document.memberValues? (documentMembers ms)).isSome = true
  | [] => rfl
  | (_, v) :: ms => by
    obtain ⟨w, hv⟩ := Option.isSome_iff_exists.1 (isReadable_document v)
    obtain ⟨ws, hms⟩ := Option.isSome_iff_exists.1 (isSome_memberValues? ms)
    rw [documentMembers, Document.memberValues?, hv, hms]
    rfl

end

/-- What is left of the members of an object can be held. -/
theorem isReadable_filter (ms : List (String × Json)) (p : Option String × Document → Bool) :
    (Document.obj ((documentMembers ms).filter p)).isReadable = true := by
  rw [documentMembers_eq_map, List.filter_map, ← documentMembers_eq_map]
  exact isReadable_document (.obj _)

/-- The members of each object in the value are listed by increasing key. -/
inductive IsOrdered : Json → Prop where
  /-- There are no objects in `null`. -/
  | null : IsOrdered .null
  /-- There are no objects in a truth value. -/
  | bool (b : Bool) : IsOrdered (.bool b)
  /-- There are no objects in a number. -/
  | num (n : Number) : IsOrdered (.num n)
  /-- There are no objects in a string. -/
  | str (s : String) : IsOrdered (.str s)
  /-- The objects in a list are those in its items. -/
  | arr {items : List Json} (h : ∀ v ∈ items, IsOrdered v) : IsOrdered (.arr items)
  /-- The objects in an object are the object itself and those in its members. -/
  | obj {members : List (String × Json)} (hkeys : members.Pairwise fun a b => a.1 < b.1)
      (h : ∀ m ∈ members, IsOrdered m.2) : IsOrdered (.obj members)

/-- Members by increasing key are the members of their object. -/
theorem object_of_increasing {members : List (String × Json)}
    (h : members.Pairwise fun a b => a.1 < b.1) : object members = .obj members := by
  have hmap := NameMap.ofList_toList ⟨members, h⟩
  rw [object, hmap]

/-- A value is read back from its document. -/
theorem IsOrdered.value?_document {v : Json} (h : v.IsOrdered) : v.document.value? = some v := by
  induction h with
  | null | bool _ | num _ | str _ => rfl
  | arr _ ih =>
    rw [document, documents_eq_map, Document.value?, Document.values?_eq_mapM,
      Document.mapM_map ih, Option.map_some]
  | @obj members hkeys _ ih =>
    have hread : (members.map fun m => (some m.1, m.2.document)).mapM
        (Document.mapMember? Document.value?) = some members := by
      refine Document.mapM_map fun m hm => ?_
      rw [Document.mapMember?, ih m hm]
      rfl
    rw [document, documentMembers_eq_map, Document.value?, Document.memberValues?_eq_mapM, hread,
      Option.map_some, object_of_increasing hkeys]

end Json

namespace Document

mutual

/-- Every value that is read lists the members of its objects by increasing key. -/
theorem isOrdered_of_value? : ∀ {d : Document} {v : Json}, d.value? = some v → v.IsOrdered
  | .null, _, h => Option.some.inj h ▸ .null
  | .bool b, _, h => Option.some.inj h ▸ .bool b
  | .num n, _, h => Option.some.inj h ▸ .num n
  | .str s, _, h => Option.some.inj h ▸ .str s
  | .arr items, v, h => by
    rw [value?, Option.map_eq_some_iff] at h
    obtain ⟨vs, hvs, rfl⟩ := h
    exact .arr (isOrdered_of_values? hvs)
  | .obj members, v, h => by
    rw [value?, Option.map_eq_some_iff] at h
    obtain ⟨ms, hms, rfl⟩ := h
    -- The members that are kept are among those read.
    exact .obj (NameMap.ofList ms).increasing fun m hm =>
      isOrdered_of_memberValues? hms m (NameMap.mem_of_mem_ofList hm)
  | .unreadable, _, h => nomatch h

/-- The items read are ordered. -/
theorem isOrdered_of_values? : ∀ {ds : List Document} {vs : List Json}, values? ds = some vs →
    ∀ v ∈ vs, v.IsOrdered
  | [], _, h => by
    obtain rfl := Option.some.inj h
    exact List.forall_mem_nil _
  | d :: ds, vs, h => by
    simp only [values?, Option.bind_eq_bind, Option.bind_eq_some_iff, Option.pure_def,
      Option.some.injEq] at h
    obtain ⟨w, hw, ws, hws, rfl⟩ := h
    exact List.forall_mem_cons.2 ⟨isOrdered_of_value? hw, isOrdered_of_values? hws⟩

/-- The values of the members read are ordered. -/
theorem isOrdered_of_memberValues? : ∀ {ds : List (Option String × Document)}
    {ms : List (String × Json)}, memberValues? ds = some ms → ∀ m ∈ ms, m.2.IsOrdered
  | [], _, h => by
    obtain rfl := Option.some.inj h
    exact List.forall_mem_nil _
  | (k, d) :: ds, ms, h => by
    simp only [memberValues?, Option.bind_eq_bind, Option.bind_eq_some_iff, Option.pure_def,
      Option.some.injEq] at h
    obtain ⟨_, -, w, hw, ws, hws, rfl⟩ := h
    exact List.forall_mem_cons.2 ⟨isOrdered_of_value? hw, isOrdered_of_memberValues? hws⟩

end

/-- The values of a map that is read are ordered. -/
theorem isOrdered_of_map? {d : Document} {m : NameMap Json} (h : map? value? d = some m) :
    ∀ e ∈ m.toList, e.2.IsOrdered := by
  cases d with
  | obj members =>
    rw [map?, ← memberValues?_eq_mapM, Option.map_eq_some_iff] at h
    obtain ⟨ms, hms, rfl⟩ := h
    exact fun e he => isOrdered_of_memberValues? hms e (NameMap.mem_of_mem_ofList he)
  | _ => cases h

end Document

end CatalogAccess
