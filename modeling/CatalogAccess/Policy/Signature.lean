import CatalogAccess.Hash.Sha256
import CatalogAccess.Policy

/-!
# Resource signatures

Two policies have the same target when they agree in service, kind and the canonical bytes of their
resource maps. The canonical bytes take the dimensions in increasing order and the values of each
dimension in increasing order too, so that neither order of the map matters; each value is preceded
by its length in bytes. The signature of a resource map is the digest of these bytes.
-/

namespace CatalogAccess

/-- The bytes of a text in UTF-8. -/
def utf8 (s : String) : List UInt8 := s.toByteArray.data.toList

/-- A number in eight bytes, the least significant first. -/
def littleEndian (n : Nat) : List UInt8 :=
  (List.range 8).map fun i => UInt8.ofNat (n / Nat.pow 256 i)

namespace ResourceMap

/-- The canonical bytes of a value: its length and its text. -/
def valueBytes (v : String) : List UInt8 := littleEndian (utf8 v).length ++ utf8 v

/-- The canonical bytes of a dimension: its name, and its values in increasing order, each part
closed by a separator. -/
def dimensionBytes (dimension : String) (values : List String) : List UInt8 :=
  utf8 dimension ++ 0x1f :: ((values.mergeSort (· ≤ ·)).flatMap valueBytes ++ [0x1e])

/-- The canonical bytes of a resource map. -/
def canonicalBytes (m : ResourceMap) : List UInt8 :=
  m.toList.flatMap fun e => dimensionBytes e.1 e.2

/-- The signature of a resource map under a digest. -/
def signatureWith (digest : List UInt8 → String) (m : ResourceMap) : String :=
  digest m.canonicalBytes

/-- The signature of a resource map. -/
def signature (m : ResourceMap) : String := m.signatureWith Sha256.hexDigest

end ResourceMap

namespace Policy

/-- The signature of the resource map. -/
def signature (p : Policy) : String := ResourceMap.signature p.resources

/-- Whether two policies have the same target. Resource maps are compared by the bytes under their
signatures, so that different targets are never taken for one another because of the digest. -/
def sameTarget (p q : Policy) : Bool :=
  p.kind == q.kind && p.service == q.service &&
    ResourceMap.canonicalBytes p.resources == ResourceMap.canonicalBytes q.resources

end Policy

end CatalogAccess
