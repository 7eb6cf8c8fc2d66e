import CatalogAccess.Proofs.Json.Values

/-!
# Fields in documents

A record is written as an object with distinct keys. `Document.exists_record?` says what reading its
declared fields then finds: each of them as it was written, and nothing for a field that was left
out. The lemmas behind it read back single fields, those that must be there and those that may be
missing, and the values that fields hold: names, lists, sets and maps.
-/

namespace CatalogAccess

/-! ### Members of objects -/

namespace Json

variable {key name : String}

@[simp] theorem get?_obj_nil : (obj []).get? name = none := rfl

@[simp] theorem get?_obj_cons {v : Json} {ms : List (String × Json)} :
    (obj ((key, v) :: ms)).get? name = if key = name then some v else (obj ms).get? name := by
  by_cases h : key = name
  · simp [get?, h]
  · simp [get?, h]

/-- The first of two lists of members comes first. -/
@[simp] theorem get?_obj_append {ms ns : List (String × Json)} :
    (obj (ms ++ ns)).get? name = ((obj ms).get? name).or ((obj ns).get? name) := by
  rw [get?, get?, get?, List.find?_append, Option.map_or]

/-- A string that may be missing is found under its key, if it is there. -/
@[simp] theorem get?_obj_memberOf {o : Option String} :
    (obj (memberOf key o)).get? name = if key = name then o.map .str else none := by
  cases o with
  | none => simp [memberOf]
  | some s => simp [memberOf]

/-- The keys of the members are among these, in this order. -/
def KeysWithin (ms : List (String × Json)) (keys : List String) : Prop :=
  (ms.map Prod.fst).Sublist keys

theorem keysWithin_self (ms : List (String × Json)) : KeysWithin ms (ms.map Prod.fst) := .refl _

/-- A string that may be missing has no other key. -/
theorem keysWithin_memberOf (key : String) (o : Option String) :
    KeysWithin (memberOf key o) [key] := by
  cases o with
  | none => exact List.nil_sublist _
  | some s => exact .refl _

theorem KeysWithin.append {ms ns : List (String × Json)} {keys others : List String}
    (hm : KeysWithin ms keys) (hn : KeysWithin ns others) :
    KeysWithin (ms ++ ns) (keys ++ others) := by
  rw [KeysWithin, List.map_append]
  exact List.Sublist.append hm hn

end Json

/-! ### Records -/

namespace Document

/-- Of distinct members the declared ones are kept. -/
theorem declaredMembers?_documentMembers {ms : List (String × Json)}
    (h : (ms.map Prod.fst).Nodup) (names : List String) :
    declaredMembers? names (Json.documentMembers ms) =
      some ((ms.filter fun m => names.contains m.1).map fun m => (m.1, m.2.document)) := by
  induction ms with
  | nil => rfl
  | cons m ms ih =>
    rw [List.map_cons, List.nodup_cons] at h
    have hnew : (((ms.filter fun m => names.contains m.1).map
        fun m => (m.1, m.2.document)).any (·.1 == m.1)) = false := by
      simp only [List.any_map, List.any_eq_false, List.mem_filter, Function.comp_apply, beq_iff_eq]
      intro n hn heq
      exact h.1 (heq ▸ List.mem_map_of_mem hn.1)
    simp only [Json.documentMembers, declaredMembers?, ih h.2, List.filter_cons,
      Option.bind_eq_bind, Option.bind_some, hnew, Bool.false_eq_true, if_false]
    split
    · rw [List.map_cons]
    · rfl

/-- The record of an object with distinct keys holds the documents of its declared members. -/
theorem exists_record? {v : Json} {ms : List (String × Json)} {keys : List String}
    (hv : v = .obj ms) (hms : Json.KeysWithin ms keys) (hkeys : keys.Nodup) (names : List String)
    (least : Nat) :
    ∃ r, v.document.record? names least = some r ∧
      ∀ name ∈ names, r.get? name = ((Json.obj ms).get? name).map Json.document := by
  subst hv
  have hmembers := declaredMembers?_documentMembers (hkeys.sublist hms) names
  refine ⟨_, by rw [Json.document, record?, hmembers, Option.map_some], ?_⟩
  intro name hname
  rw [Record.get?, Json.get?, List.find?_map, List.find?_filter, Option.map_map, Option.map_map]
  -- Among the members with the name all are declared.
  have hsame : ∀ m : String × Json, decide (names.contains m.1 = true ∧ (m.1 == name) = true) =
      (m.1 == name) := by
    intro m
    by_cases hm : m.1 = name
    · simp [hm, hname]
    · simp [hm]
  simp only [Function.comp_def, hsame]

end Document

/-! ### Fields -/

namespace Record

variable {α : Type} {r : Record} {name : String} {read : Document → Option α} {x : α} {d : Document}

/-- A field that must be there is read back. -/
theorem required_of_get? (h : r.get? name = some d) (hread : read d = some x) :
    r.required name read = some x := by
  rw [required, h, Option.bind_some, hread]

/-- A field that may be missing is read back. -/
theorem optional_of_get? {o : Option α} {write : α → Json}
    (h : r.get? name = o.map (Json.document ∘ write))
    (hread : ∀ x, read (write x).document = some x) (hnull : read .null = none) :
    r.optional name read = some o := by
  cases o with
  | none => rw [optional, h, Option.map_none]
  | some x =>
    have hwritten : (write x).document ≠ .null := fun heq => by
      have hx := hread x
      rw [heq, hnull] at hx
      cases hx
    rw [optional, h, Option.map_some]
    simp [hread]

end Record

/-! ### Values of fields -/

namespace Document

@[simp] theorem string?_str (s : String) : (Json.str s).document.string? = some s := rfl

@[simp] theorem bool?_bool (b : Bool) : (Json.bool b).document.bool? = some b := rfl

/-- A list is read back when its items are. -/
theorem list?_map {α : Type} {read : Document → Option α} {write : α → Json} {l : List α}
    (h : ∀ x ∈ l, read (write x).document = some x) :
    list? read (Json.arr (l.map write)).document = some l := by
  rw [Json.document, Json.documents_eq_map, list?, List.map_map]
  exact mapM_map h

@[simp] theorem strings?_strings (l : List String) :
    (Json.strings l).document.strings? = some l :=
  list?_map fun s _ => string?_str s

@[simp] theorem names?_strings (s : NameSet) : (Json.strings s.toList).document.names? = some s := by
  rw [names?, strings?_strings, Option.map_some, NameSet.ofList_toList]

/-- A map is read back when its values are. -/
theorem map?_map {α : Type} {read : Document → Option α} (write : α → Json) {m : NameMap α}
    (h : ∀ e ∈ m.toList, read (write e.2).document = some e.2) :
    map? read (Json.obj (m.toList.map fun e => (e.1, write e.2))).document = some m := by
  have hread : (m.toList.map fun e => (some e.1, (write e.2).document)).mapM (mapMember? read) =
      some m.toList := by
    refine mapM_map fun e he => ?_
    rw [mapMember?, h e he]
    rfl
  rw [Json.document, Json.documentMembers_eq_map, map?, List.map_map]
  simp only [Function.comp_def]
  rw [hread, Option.map_some, NameMap.ofList_toList]

/-- Names that tell the choices apart are read back. -/
theorem choice?_text {α : Type} {all : List α} {text : α → String}
    (h : ∀ x ∈ all, ∀ y ∈ all, text x = text y → x = y) {x : α} (hx : x ∈ all) :
    choice? (fun s => all.find? (text · == s)) (Json.str (text x)).document = some x := by
  show all.find? (text · == text x) = some x
  have hfound : (all.find? (text · == text x)).isSome := by
    rw [List.find?_isSome]
    exact ⟨x, hx, beq_self_eq_true _⟩
  obtain ⟨y, hy⟩ := Option.isSome_iff_exists.1 hfound
  have htext : text y = text x := by simpa using List.find?_some hy
  rw [hy, h y (List.mem_of_find?_eq_some hy) x hx htext]

end Document

end CatalogAccess
