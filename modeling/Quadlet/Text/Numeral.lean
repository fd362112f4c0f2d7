import Quadlet.Text.Base64
/-!
# Numerals — base64 digits read as one number

The soft part of a code is a number in base 64, most significant digit first, of a width that the code fixes.  Ten
digits always fit in 64 bits, so ten is the widest numeral that is read.
-/
namespace Quadlet.Numeral

open Base64 (Alphabet)

def maxWidth : Nat := 10

/-- The number that digit values spell, most significant first. -/
def ofValues (values : List Nat) : Nat := values.foldl (fun n v => n * 64 + v) 0

/-- The number a text spells; the empty text is zero. -/
def read (text : Bytes) : Except TextError Nat :=
  if text.length > maxWidth then .error (.invalidLength text.length)
  else (Alphabet.url.values 0 text).map ofValues

/-- The last `width` digits of a number, before `tail`. -/
def digitsOnto (tail : Bytes) : (width value : Nat) → Bytes
  | 0, _ => tail
  | width + 1, value => digitsOnto (Alphabet.url.char value :: tail) width (value / 64)

theorem length_digitsOnto (tail : Bytes) :
    ∀ width value, (digitsOnto tail width value).length = width + tail.length
  | 0, _ => (Nat.zero_add _).symm
  | width + 1, value => by
    rw [digitsOnto, length_digitsOnto _ width, List.length_cons]
    omega

/-- How many numbers `width` digits write. -/
def capacity (width : Nat) : Nat := Nat.pow 64 width

/-- No bit of a word is above those of `width` digits: none of it is in no digits, and all of it in more than ten. -/
def fits (v : UInt64) (width : Nat) : Bool :=
  match width with
  | 0 => v == 0
  | width => maxWidth + 1 ≤ width || v >>> UInt64.ofNat (6 * width) == 0

/-- A number in exactly `width` digits.  Those that hold a word are the ones that its bits are tested for (`fits`): the
two tests are one by `fits_iff`. -/
def write (value width : Nat) : Except TextError Bytes :=
  if value < capacity width then .ok (digitsOnto [] width value) else .error (.valueTooLarge value width)

end Quadlet.Numeral
