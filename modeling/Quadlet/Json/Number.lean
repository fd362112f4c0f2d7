import Quadlet.Json.Shortest
import Quadlet.Json.Token
/-!
# JSON numbers — the value of a number as written

A number without fraction and exponent is whole if 64 bits hold it, signed or not; minus zero is not whole.  All others
are floating-point: as many leading digits as 64 bits hold, then one multiplication or division by a power of ten.
One that is too large for a floating-point number is none at all.
-/
namespace Quadlet.Json

inductive Number where
  | natural (n : Nat)
  /-- Minus `n`, for `n` from 1 to 2⁶³. -/
  | negative (n : Nat)
  | float (x : Float)

namespace Number

/-! ## Reading -/

/-- What 64 bits count to, 2⁶⁴. -/
def wordSize : Nat := 0x10000000000000000

/-- The digits are taken on while the number that they spell stays below 2⁶⁴; the number, and those left out. -/
def accumulate (significand : Nat) : List Nat → Nat × List Nat
  | [] => (significand, [])
  | d :: rest =>
    if significand * 10 + d < wordSize then accumulate (significand * 10 + d) rest else (significand, d :: rest)

def infinity : Float := 1.0 / 0.0

/-- The product `x * 10 ^ exponent`, by powers of ten up to 10³⁰⁸; none if it is too large. -/
def scale (x : Float) (exponent : Int) : Option Float :=
  if exponent ≥ 0 then
    if exponent ≤ 308 then
      let y := x * Float.ofScientific 1 false exponent.toNat
      if y == infinity then none else some y
    else if x == 0.0 then some x else none
  else if -308 ≤ exponent then some (x / Float.ofScientific 1 false (-exponent).toNat)
  else if x == 0.0 then some x
  else scale (x / Float.ofScientific 1 false 308) (exponent + 308)
termination_by (-exponent).toNat
decreasing_by omega

/-- The value of a number that is not whole as written, its sign apart. -/
def magnitude (w : Lexeme) : Option Float :=
  let (s, left) := accumulate 0 w.integer
  let (s, dropped) := accumulate s w.fraction
  let places := w.fraction.length - dropped.length
  scale s.toUInt64.toFloat (left.length - places + w.exponent.getD 0)

def ofLexeme (w : Lexeme) : Option Number :=
  let n := Token.ofDigits w.integer
  if w.fraction.isEmpty && w.exponent.isNone && n < wordSize && (!w.negative || (0 < n && n ≤ wordSize / 2)) then
    some (if w.negative then .negative n else .natural n)
  else (magnitude w).map (fun x => .float (if w.negative then -x else x))

/-! ## Writing -/

/-- An exponent with its sign, in two digits or more. -/
def exponentText (n : Int) : String :=
  (if n < 0 then "e-" else "e+") ++ (if n.natAbs < 10 then "0" else "") ++ toString n.natAbs

/-- How a decimal is laid out: a point inside or beside up to sixteen digits, up to four zeros after `0.`, and an
exponent for all others. -/
def layout (d : Shortest.Decimal) : String :=
  let digits := toString d.digits
  let length : Int := digits.length
  let point := length + d.exponent
  let zeros (n : Int) := String.ofList (List.replicate n.toNat '0')
  if 0 ≤ d.exponent ∧ point ≤ 16 then digits ++ zeros d.exponent ++ ".0"
  else if 0 < point ∧ point ≤ 16 then
    String.ofList (digits.toList.take point.toNat) ++ "." ++ String.ofList (digits.toList.drop point.toNat)
  else if -5 < point ∧ point ≤ 0 then "0." ++ zeros (-point) ++ digits
  else if digits.length = 1 then digits ++ exponentText (point - 1)
  else
    String.ofList (digits.toList.take 1) ++ "." ++ String.ofList (digits.toList.drop 1) ++ exponentText (point - 1)

/-- A finite number in the fewest digits that read back. -/
def floatText (x : Float) : String :=
  let bits := x.toBits.toNat
  let body := bits % (wordSize / 2)
  (if bits / (wordSize / 2) = 1 then "-" else "") ++
    (if body = 0 then "0.0" else layout (Shortest.Binary.ofBits body).decimal)

def text : Number → String
  | .natural n => toString n
  | .negative n => "-" ++ toString n
  | .float x => floatText x

end Number
end Quadlet.Json
