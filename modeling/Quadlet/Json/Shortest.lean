/-!
# Shortest decimals — the fewest digits that read back as the same number

A binary floating-point number stands for all reals that round to it: an interval whose ends belong to it exactly when
its mantissa is even.  Of the decimal grids `10^k`, the coarsest that has a point in the interval gives the fewest
digits; of its points there, the one nearest to the number is taken, and the even one of two equally near.
-/
namespace Quadlet.Json.Shortest

/-- The positive number `mantissa * 2 ^ exponent`; `low` says that the next number below is twice as near as the next
one above. -/
structure Binary where
  mantissa : Nat
  exponent : Int
  low : Bool

/-- A decimal `digits * 10 ^ exponent`. -/
structure Decimal where
  digits : Nat
  exponent : Int
deriving DecidableEq, Repr

/-- The number of fractions that share an exponent: 52 bits hold them. -/
def fractions : Nat := 0x10000000000000

/-- The finite positive number with the given 63 bits below the sign. -/
def Binary.ofBits (bits : Nat) : Binary :=
  let fraction : Nat := bits % fractions
  let biased : Nat := bits / fractions
  if biased = 0 then ⟨fraction, -1074, false⟩
  else ⟨fractions + fraction, (biased : Int) - 1075, fraction = 0 && biased > 1⟩

/-- Four times the mantissa, on the scale that also holds the ends of the interval. -/
def Binary.center (b : Binary) : Nat := 4 * b.mantissa

def Binary.lower (b : Binary) : Nat := if b.low then b.center - 1 else b.center - 2

def Binary.upper (b : Binary) : Nat := b.center + 2

/-- Both sides of a comparison of `d * 10 ^ k` with `x * 2 ^ (exponent - 2)`, as whole numbers. -/
def Binary.sides (b : Binary) (k : Int) (d x : Nat) : Nat × Nat :=
  let p := b.exponent - 2
  (d * Nat.pow 10 k.toNat * Nat.pow 2 (-p).toNat, x * Nat.pow 2 p.toNat * Nat.pow 10 (-k).toNat)

/-- Whether `d * 10 ^ k` rounds to the number. -/
def Binary.holds (b : Binary) (k : Int) (d : Nat) : Bool :=
  let (pointLow, low) := b.sides k d b.lower
  let (pointHigh, high) := b.sides k d b.upper
  if b.mantissa % 2 = 0 then low ≤ pointLow && pointHigh ≤ high else low < pointLow && pointHigh < high

/-- The point of the grid `10 ^ k` that is taken, if one rounds to the number. -/
def Binary.onGrid (b : Binary) (k : Int) : Option Decimal :=
  let (one, number) := b.sides k 1 b.center
  let d := number / one
  let above := (d + 1) * one - number
  let below := number - d * one
  let up := above < below || (above = below && d % 2 = 1)
  match b.holds k d, b.holds k (d + 1) with
  | true, true => some ⟨if up then d + 1 else d, k⟩
  | true, false => some ⟨d, k⟩
  | false, true => some ⟨d + 1, k⟩
  | false, false => none

/-- The decimal of the coarsest grid that has one.  Every number of 64 bits lies on the grid `10 ^ -1076`. -/
def Binary.decimal (b : Binary) : Decimal :=
  ((List.range 1386).findSome? (fun (i : Nat) => b.onGrid (309 - i))).getD ⟨0, 0⟩

end Quadlet.Json.Shortest
