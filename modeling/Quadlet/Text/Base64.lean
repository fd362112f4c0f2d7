import Quadlet.Text.Bytes
import Quadlet.Text.Error
/-!
# Base64 — three octets in four characters

An alphabet gives a character to every value below 64.  The bits of three octets are those of four values; a tail of
one or two octets is filled up with zeros to the next value, so the low bits of its last character are zero.  `decode`
accepts padded and unpadded text, and ignores those low bits.
-/
namespace Quadlet.Base64

/-! ## Alphabets -/

/-- The characters of the values 0 to 63, in order. -/
structure Alphabet where
  chars : List UInt8
  length_chars : chars.length = 64

namespace Alphabet

/-- A run of `n` characters that follow each other in ASCII. -/
def run (first : Char) (n : Nat) : List UInt8 :=
  (List.range n).map (fun i => UInt8.ofNat (first.toNat + i))

/-- The URL-safe alphabet: `A-Z a-z 0-9 - _`. -/
def url : Alphabet where
  chars := run 'A' 26 ++ run 'a' 26 ++ run '0' 10 ++ ['-'.toUInt8, '_'.toUInt8]
  length_chars := by decide

/-- The alphabet written as one text of 64 characters. -/
def ofBytes? (chars : Bytes) : Option Alphabet :=
  if h : chars.length = 64 then some ⟨chars, h⟩ else none

/-- The character of the low six bits of `n`. -/
def char (a : Alphabet) (n : Nat) : UInt8 :=
  a.chars.get ⟨n % 64, by rw [a.length_chars]; exact Nat.mod_lt _ (by decide)⟩

/-- The last position from `i` on at which `c` stands. -/
def lastIndexFrom (c : UInt8) (i : Nat) : List UInt8 → Option Nat
  | [] => none
  | x :: rest => (lastIndexFrom c (i + 1) rest).or (if x = c then some i else none)

/-- The value of a character: where an alphabet holds it twice, the later position. -/
def value? (a : Alphabet) (c : UInt8) : Option Nat := lastIndexFrom c 0 a.chars

/-- The values of a text whose first character stands at offset `i`. -/
def values (a : Alphabet) (i : Nat) : Bytes → Except TextError (List Nat)
  | [] => .ok []
  | c :: rest =>
    match a.value? c with
    | none => .error (.invalidCharacter c i)
    | some v => (a.values (i + 1) rest).map (v :: ·)

end Alphabet

/-! ## Encoding -/

def pad : UInt8 := '='.toUInt8

/-- The characters of the octets, without padding. -/
def encode (a : Alphabet) : Bytes → Bytes
  | x :: y :: z :: rest =>
    a.char (x >>> 2).toNat :: a.char ((x &&& 3) <<< 4 ||| y >>> 4).toNat ::
      a.char ((y &&& 15) <<< 2 ||| z >>> 6).toNat :: a.char (z &&& 63).toNat :: encode a rest
  | [x, y] =>
    [a.char (x >>> 2).toNat, a.char ((x &&& 3) <<< 4 ||| y >>> 4).toNat, a.char ((y &&& 15) <<< 2).toNat]
  | [x] => [a.char (x >>> 2).toNat, a.char ((x &&& 3) <<< 4).toNat]
  | [] => []

/-- The characters of the octets, filled up with `=` to a multiple of four. -/
def encodePadded (a : Alphabet) (octets : Bytes) : Bytes :=
  encode a octets ++ List.replicate ((3 - octets.length % 3) % 3) pad

/-! ## Decoding -/

/-- The octets of values, each an octet itself: the six bits of one are moved up to those of the next. -/
def join : List UInt8 → Bytes
  | s :: t :: u :: v :: rest => (s <<< 2 ||| t >>> 4) :: (t <<< 4 ||| u >>> 2) :: (u <<< 6 ||| v) :: join rest
  | [s, t, u] => [s <<< 2 ||| t >>> 4, t <<< 4 ||| u >>> 2]
  | [s, t] => [s <<< 2 ||| t >>> 4]
  | _ => []

/-- Four values are three octets; the tail's unused low bits are dropped. -/
def joinValues (values : List Nat) : Bytes := join (values.map UInt8.ofNat)

/-- The text without its padding: one or two `=` at the end, of a text whose length is a multiple of four. -/
def withoutPadding (text : Bytes) : Bytes :=
  if text.length % 4 = 0 ∧ text.getLast? = some pad then
    if text.dropLast.getLast? = some pad then text.dropLast.dropLast else text.dropLast
  else text

/-- The octets of a text.  A single character in the last group holds less than an octet, whatever it is. -/
def decode (a : Alphabet) (text : Bytes) : Except TextError Bytes :=
  let body := withoutPadding text
  if body.length % 4 = 1 then .error (.invalidLength body.length)
  else (a.values 0 body).map joinValues

end Quadlet.Base64
