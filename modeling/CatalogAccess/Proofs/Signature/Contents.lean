import CatalogAccess.Proofs.NameMap
import CatalogAccess.Proofs.Signature
import Mathlib.Data.Multiset.Defs

/-!
# What signatures tell of contents

The signature of a resource map depends on its contents only: on its dimensions, each with its values in
whatever order (`ResourceMap.canonicalBytes_congr`). The other way round it tells the contents of legible
maps (`ResourceMap.signatureWith_contents`). Not all maps are legible, since the canonical bytes hold the
lengths of values, but neither those of names nor the numbers of values. A name that holds a separator may
stand for two names and the values between them, and a name that begins like the length of a value may be
taken for this value (`ResourceMap.contents_not_told`).
-/

namespace CatalogAccess.ResourceMap

/-- The dimensions of a map, each with its values in whatever order. -/
def contents (m : ResourceMap) (d : String) : Option (Multiset String) := (m.get? d).map (↑)

/-- The map with the values of each dimension in increasing order. -/
def sorted (m : ResourceMap) : ResourceMap := m.mapValues fun _ vs => vs.mergeSort (· ≤ ·)

variable {m n : ResourceMap}

/-- Maps have the same contents exactly if they are the same once their values are sorted. -/
theorem contents_eq_iff : m.contents = n.contents ↔ m.sorted = n.sorted := by
  have hvalues : ∀ o o' : Option (List String), o.map Multiset.ofList = o'.map Multiset.ofList ↔
      o.map (·.mergeSort (· ≤ ·)) = o'.map (·.mergeSort (· ≤ ·)) := by
    intro o o'
    cases o <;> cases o' <;> simp [mergeSort_eq_iff]
  have hget : ∀ (m : ResourceMap) d, m.sorted.get? d = (m.get? d).map (·.mergeSort (· ≤ ·)) :=
    fun m d => NameMap.get?_mapValues
  constructor
  · intro h
    refine NameMap.ext_get? fun d => ?_
    rw [hget, hget, ← hvalues]
    exact congrFun h d
  · intro h
    funext d
    rw [contents, contents, hvalues, ← hget, ← hget, h]

/-- Maps with the same contents have the same canonical bytes. -/
theorem canonicalBytes_congr (h : m.contents = n.contents) : m.canonicalBytes = n.canonicalBytes := by
  have hsorted : ∀ m : ResourceMap, m.canonicalBytes = m.sorted.toList.flatMap fun e =>
      utf8 e.1 ++ 0x1f :: (e.2.flatMap valueBytes ++ [0x1e]) :=
    fun m => by rw [sorted, NameMap.mapValues, List.flatMap_map]; rfl
  rw [hsorted, hsorted, contents_eq_iff.1 h]

/-- Legible maps with the same canonical bytes have the same contents. -/
theorem contents_eq_of_canonicalBytes_eq (hm : Legible m.toList n.toList)
    (hn : Legible n.toList m.toList) (h : m.canonicalBytes = n.canonicalBytes) :
    m.contents = n.contents := by
  have hentries : m.sorted.toList = n.sorted.toList := hm.read hn h
  refine contents_eq_iff.2 (NameMap.ext_get? fun d => ?_)
  rw [NameMap.get?, NameMap.get?, hentries]

/-- Maps with the same contents have the same signature, whatever the digest. If the digest tells their
canonical bytes apart, two legible maps have the same signature exactly if they have the same
contents. -/
theorem signatureWith_contents (digest : List UInt8 → String) (m n : ResourceMap) :
    (m.contents = n.contents → m.signatureWith digest = n.signatureWith digest) ∧
    ((digest m.canonicalBytes = digest n.canonicalBytes → m.canonicalBytes = n.canonicalBytes) →
      Legible m.toList n.toList → Legible n.toList m.toList →
      (m.signatureWith digest = n.signatureWith digest ↔ m.contents = n.contents)) := by
  have hsame : m.contents = n.contents → m.signatureWith digest = n.signatureWith digest :=
    fun h => congrArg digest (canonicalBytes_congr h)
  exact ⟨hsame, fun hdigest hm hn =>
    ⟨fun h => contents_eq_of_canonicalBytes_eq hm hn (hdigest h), hsame⟩⟩

/-- A digest that writes every byte as a character gives maps with values in different order the same
signature, and tells maps with different values apart. -/
theorem signatureWith_contents_tables :
    let digest : List UInt8 → String := fun bytes => .ofList (bytes.map fun b => .ofNat b.toNat)
    let m : ResourceMap := .ofList [("entity", ["db", "db/*"]), ("entity-type", ["Table"])]
    let n : ResourceMap := .ofList [("entity-type", ["Table"]), ("entity", ["db/*", "db"])]
    let o : ResourceMap := .ofList [("entity", ["db"]), ("entity-type", ["Table"])]
    let p : ResourceMap := .ofList [("entity", ["db/*"]), ("entity-type", ["Table"])]
    m.signatureWith digest = n.signatureWith digest ∧
      o.signatureWith digest ≠ p.signatureWith digest := by
  intro digest m n o p
  have hm : m.toList = [("entity", ["db", "db/*"]), ("entity-type", ["Table"])] := by decide +kernel
  have hn : n.toList = [("entity", ["db/*", "db"]), ("entity-type", ["Table"])] := by decide +kernel
  have hcontents : m.contents = n.contents := by
    funext d
    simp only [contents, NameMap.get?, hm, hn, List.find?_cons]
    cases "entity" == d with
    | true => exact congrArg some (Multiset.coe_eq_coe.2 (.swap ..))
    | false => rfl
  have hdigest : digest o.canonicalBytes ≠ digest p.canonicalBytes := by decide +kernel
  have ho : Legible o.toList p.toList := ⟨by decide +kernel, by decide +kernel, by decide +kernel⟩
  have hp : Legible p.toList o.toList := ⟨by decide +kernel, by decide +kernel, by decide +kernel⟩
  have hother : o.contents ≠ p.contents := fun h => absurd (congrFun h "entity") (by decide +kernel)
  refine ⟨(signatureWith_contents digest m n).1 hcontents, fun h => hother ?_⟩
  exact ((signatureWith_contents digest o p).2 (fun h => absurd h hdigest) ho hp).1 h

/-- Maps with different contents have the same signature under every digest. In the one pair a name holds
another name and a value, and in the other a name follows a dimension without values. -/
theorem contents_not_told :
    let m : ResourceMap := .ofList [("entity", ["x"]), ("entity-type", ["y"])]
    let n : ResourceMap :=
      .ofList [("entity\x1f\x01\x00\x00\x00\x00\x00\x00\x00x\x1eentity-type", ["y"])]
    let m' : ResourceMap := .ofList [("", ["-----------------------------\x1f"])]
    let n' : ResourceMap :=
      .ofList [("", []), ("\x00\x00\x00\x00\x00\x00\x00-----------------------------", [])]
    (m.contents "entity" ≠ n.contents "entity" ∧
      ∀ digest, m.signatureWith digest = n.signatureWith digest) ∧
    m'.contents "" ≠ n'.contents "" ∧ ∀ digest, m'.signatureWith digest = n'.signatureWith digest := by
  intro m n m' n'
  have hbytes : m.canonicalBytes = n.canonicalBytes := by decide +kernel
  have hbytes' : m'.canonicalBytes = n'.canonicalBytes := by decide +kernel
  exact ⟨⟨by decide +kernel, fun digest => congrArg digest hbytes⟩, by decide +kernel,
    fun digest => congrArg digest hbytes'⟩

end CatalogAccess.ResourceMap
