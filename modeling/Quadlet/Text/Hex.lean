import Quadlet.Text.Bytes
import Quadlet.Text.Error
/-!
# Hexadecimal — an octet in two digits

Written in lowercase, read in either case, pair by pair from the left.  An odd length is an error of its own and is
found before any bad digit.
-/
namespace Quadlet.Hex

/-! ## Digits -/

/-- The lowercase digit of the low four bits of `n`. -/
def digit (n : Nat) : UInt8 :=
  if n % 16 < 10 then UInt8.ofNat ('0'.toNat + n % 16) else UInt8.ofNat ('a'.toNat + (n % 16 - 10))

/-- The value of a digit, in either case. -/
def value? (c : UInt8) : Option Nat :=
  if '0'.toUInt8 ≤ c ∧ c ≤ '9'.toUInt8 then some (c.toNat - '0'.toNat)
  else if 'a'.toUInt8 ≤ c ∧ c ≤ 'f'.toUInt8 then some (c.toNat - 'a'.toNat + 10)
  else if 'A'.toUInt8 ≤ c ∧ c ≤ 'F'.toUInt8 then some (c.toNat - 'A'.toNat + 10)
  else none

/-- A digit is read back as the four bits that it was written for. -/
theorem value?_digit (n : Nat) : value? (digit n) = some (n % 16) := by
  have h : ∀ m < 16, value? (digit m) = some m := by decide
  have hd : digit n = digit (n % 16) := by simp [digit]
  rw [hd]
  exact h _ (Nat.mod_lt _ (by decide))

/-- A number in lowercase, without leading zeros. -/
def ofNat (n : Nat) : Bytes :=
  if n < 16 then [digit n] else ofNat (n / 16) ++ [digit n]

/-! ## Octets -/

/-- Two digits for each octet, the high half first. -/
def encode (octets : Bytes) : Bytes :=
  octets.flatMap (fun x => [digit (x.toNat / 16), digit x.toNat])

/-- The value of the digit at offset `i`. -/
def valueAt (i : Nat) (c : UInt8) : Except TextError Nat :=
  match value? c with
  | none => .error (.invalidCharacter c i)
  | some v => .ok v

/-- The octets of the pairs from offset `i` on; a last single digit is left out. -/
def decodePairs (i : Nat) : Bytes → Except TextError Bytes
  | high :: low :: rest => do
    let h ← valueAt i high
    let l ← valueAt (i + 1) low
    let octets ← decodePairs (i + 2) rest
    return UInt8.ofNat (h * 16 + l) :: octets
  | _ => .ok []

def decode (text : Bytes) : Except TextError Bytes :=
  if text.length % 2 = 1 then .error (.invalidLength text.length) else decodePairs 0 text

/-- The number that octets spell, the most significant first. -/
def bigEndian (octets : Bytes) : Nat := octets.foldl (fun n x => n * 256 + x.toNat) 0

/-- The number that the digits spell.  More than eight octets are refused, and only once they are read. -/
def decodeNat (text : Bytes) : Except TextError Nat := do
  let octets ← decode text
  if octets.length > 8 then .error (.invalidLength text.length) else .ok (bigEndian octets)

end Quadlet.Hex
