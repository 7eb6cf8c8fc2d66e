/-!
# Fresh identifiers

Identifiers that the library assigns have the form of a random UUID. They are drawn in sequence, so
that no two draws of one sequence agree.
-/

namespace CatalogAccess.Uuid

/-- The last digits of a number in hexadecimal notation. -/
def hexDigits (count n : Nat) : List Char :=
  (List.range count).map fun i => Nat.digitChar (n / Nat.pow 16 (count - 1 - i) % 16)

/-- The digits of a number in hexadecimal notation, at least as many as given. -/
def paddedHex (count n : Nat) : List Char :=
  let digits := Nat.toDigits 16 n
  List.replicate (count - digits.length) '0' ++ digits

/-- The identifier of a draw: the digits of the number, leaving out those that mark the version and
the variant of random identifiers. -/
def ofDraw (n : Nat) : String :=
  String.ofList (paddedHex 8 (n / Nat.pow 16 22) ++
    '-' :: hexDigits 4 (n / Nat.pow 16 18) ++
    '-' :: '4' :: hexDigits 3 (n / Nat.pow 16 15) ++
    '-' :: '8' :: hexDigits 3 (n / Nat.pow 16 12) ++
    '-' :: hexDigits 12 n)

end CatalogAccess.Uuid
