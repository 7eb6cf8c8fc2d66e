/-!
# Numbers in double precision

Numbers with a fraction or an exponent are kept in double precision. A finite double is its sign
with an exact value `significand * 2 ^ exponent`, so that reading and printing are arithmetic on
natural numbers.

Reading (`Binary64.ofDecimal?`) rounds to nearest at each of its steps: the decimal significand,
the power of ten, and their product or quotient. Printing (`Binary64.toText`) takes the fewest
decimal digits that lie closer to the number than to any other double, and of two such decimals
the nearer one.
-/

namespace CatalogAccess

/-- A finite number in double precision: `significand * 2 ^ exponent` with a sign. The significand
is below `2 ^ 53` and the exponent is the least possible one, from `-1074` on. -/
structure Binary64 where
  /-- Whether the number, or the zero, carries a minus sign. -/
  negative : Bool
  /-- The significand, below `2 ^ 53`. -/
  significand : Nat
  /-- The power of two that the significand is scaled by. -/
  exponent : Int
deriving DecidableEq, Repr

namespace Binary64

/-- Positive zero. -/
def zero : Binary64 := ⟨false, 0, -1074⟩

/-- The least exponent of a double, that of the smallest ones. -/
def minExponent : Int := -1074

/-- The greatest exponent of a finite double. -/
def maxExponent : Int := 971

/-- The quotient rounded to the nearest natural number, a half going to the even neighbour. -/
def roundQuotient (num den : Nat) : Nat :=
  let q := num / den
  let r := 2 * (num % den)
  if r < den then q else if den < r then q + 1 else if q % 2 = 0 then q else q + 1

/-- Numerator and denominator of `num / den / 2 ^ e`. -/
def scaleDown (num den : Nat) (e : Int) : Nat × Nat :=
  (num * Nat.pow 2 (-e).toNat, den * Nat.pow 2 e.toNat)

/-- The double nearest to `num / den`, ties going to the even significand; nothing when it lies
beyond the finite range. -/
def ofRatio? (num den : Nat) : Option Binary64 :=
  if num = 0 then some zero
  else
    -- the quotient by `2 ^ low` is below `2 ^ 54`, so that the exponent is `low` or one more
    let low := max minExponent ((num.log2 : Int) - den.log2 - 53)
    let fits := (scaleDown num den low)
    let e := if fits.1 < Nat.pow 2 53 * fits.2 then low else low + 1
    let scaled := scaleDown num den e
    let m := roundQuotient scaled.1 scaled.2
    -- rounding up may reach the next power of two
    let r : Binary64 := if m < Nat.pow 2 53 then ⟨false, m, e⟩ else ⟨false, Nat.pow 2 52, e + 1⟩
    if r.exponent ≤ maxExponent then some r else none

/-- The magnitude as a fraction of natural numbers. -/
def magnitude (x : Binary64) : Nat × Nat :=
  (x.significand * Nat.pow 2 x.exponent.toNat, Nat.pow 2 (-x.exponent).toNat)

/-- The product of the magnitudes, rounded; nothing when it lies beyond the finite range. -/
def mul? (x y : Binary64) : Option Binary64 :=
  ofRatio? (x.magnitude.1 * y.magnitude.1) (x.magnitude.2 * y.magnitude.2)

/-- The quotient of the magnitudes, rounded; nothing when it lies beyond the finite range. -/
def div? (x y : Binary64) : Option Binary64 :=
  ofRatio? (x.magnitude.1 * y.magnitude.2) (x.magnitude.2 * y.magnitude.1)

/-- The greatest power of ten with a finite double. -/
def maxPowerOfTen : Nat := 308

/-- A double divided by `10 ^ k`, in steps of the greatest finite power of ten. -/
def divPowerOfTen? (x : Binary64) (k : Nat) : Option Binary64 :=
  if k ≤ maxPowerOfTen then (ofRatio? (Nat.pow 10 k) 1).bind x.div?
  else if x.significand = 0 then some x
  else
    (ofRatio? (Nat.pow 10 maxPowerOfTen) 1).bind fun p =>
      (x.div? p).bind fun y => y.divPowerOfTen? (k - maxPowerOfTen)
termination_by k
decreasing_by simp only [maxPowerOfTen] at *; omega

/-- A double multiplied by `10 ^ k`. A power beyond the finite range leaves zero alone and takes
any other number out of range. -/
def mulPowerOfTen? (x : Binary64) (k : Nat) : Option Binary64 :=
  if k ≤ maxPowerOfTen then (ofRatio? (Nat.pow 10 k) 1).bind x.mul?
  else if x.significand = 0 then some x
  else none

/-- The double read for `significand * 10 ^ exponent` with a sign: the significand is rounded
first, and then scaled by the power of ten. Nothing when the result lies beyond the finite
range. -/
def ofDecimal? (negative : Bool) (significand : Nat) (exponent : Int) : Option Binary64 :=
  (ofRatio? significand 1).bind fun x =>
    let scaled :=
      if 0 ≤ exponent then x.mulPowerOfTen? exponent.toNat else x.divPowerOfTen? (-exponent).toNat
    scaled.map fun y => { y with negative := negative }

/-- The decimal `p * 10 ^ k` on the grid of `10 ^ k` that is nearest to the number among those
that read as it, if there is one. A decimal reads as the number when it lies between the midpoints
to the two neighbouring doubles, the midpoints themselves included for an even significand. -/
def onGrid? (x : Binary64) (k : Int) : Option Nat :=
  let m := x.significand
  -- in quarters of the last place, the midpoints too are whole numbers
  let e := x.exponent - 2
  let below := if m = Nat.pow 2 52 ∧ minExponent < x.exponent then 4 * m - 1 else 4 * m - 2
  let above := 4 * m + 2
  let step := Nat.pow 10 k.toNat * Nat.pow 2 (-e).toNat
  let unit := Nat.pow 2 e.toNat * Nat.pow 10 (-k).toNat
  let reads (p : Nat) : Bool :=
    if m % 2 = 0 then below * unit ≤ p * step ∧ p * step ≤ above * unit
    else below * unit < p * step ∧ p * step < above * unit
  let p := 4 * m * unit / step
  let excess := (p + 1) * step - 4 * m * unit
  let deficit := 4 * m * unit - p * step
  match reads p, reads (p + 1) with
  | true, true => some (if deficit < excess ∨ (deficit = excess ∧ p % 2 = 0) then p else p + 1)
  | true, false => some p
  | false, true => some (p + 1)
  | false, false => none

/-- The shortest decimal of a non-zero number, as significand and power of ten. -/
def shortest (x : Binary64) : Nat × Int :=
  -- an upper bound of the decimal exponent, by the decimal logarithm of two
  let top : Int := ((x.significand.log2 : Int) + x.exponent) * 30103 / 100000 + 2
  ((List.range 22).findSome? fun (i : Nat) =>
    (x.onGrid? (top - i)).bind fun p =>
      if p = 0 then none else some (p, top - (i : Int))).getD (0, 0)

/-- Decimal exponents that are written without an exponent part. -/
def isPlainExponent (e : Int) : Bool := -5 ≤ e ∧ e ≤ 15

/-- The text of digits with the point after the first, and an exponent where the number is too
large or too small to be written without one. -/
def layout (digits : List Char) (exponent : Int) : List Char :=
  if isPlainExponent exponent then
    if exponent < 0 then
      '0' :: '.' :: (List.replicate (-exponent - 1).toNat '0' ++ digits)
    else
      let n := exponent.toNat + 1
      let whole := digits.take n ++ List.replicate (n - digits.length) '0'
      let fraction := digits.drop n
      whole ++ '.' :: (if fraction.isEmpty then ['0'] else fraction)
  else
    let fraction := digits.drop 1
    digits.take 1 ++ (if fraction.isEmpty then [] else '.' :: fraction) ++
      'e' :: (if exponent < 0 then '-' else '+') :: (Nat.repr exponent.natAbs).toList

/-- The shortest decimal text that reads back as the number. -/
def toText (x : Binary64) : String :=
  let unsigned :=
    if x.significand = 0 then ['0', '.', '0']
    else
      let d := x.shortest
      let digits := (Nat.repr d.1).toList
      layout digits (d.2 + digits.length - 1)
  String.ofList (if x.negative then '-' :: unsigned else unsigned)

end Binary64

end CatalogAccess
