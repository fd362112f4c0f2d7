import Quadlet.Text.Bytes
import Quadlet.Text.Error
/-!
# UTF-8 — one to four octets for a character

A first octet fixes how many follow and the range of each: the ranges leave out overlong forms, surrogates and
everything above U+10FFFF, so whatever fits them is a character.  The strict reader stops where no character starts;
the lenient one puts U+FFFD for the longest run that a character could have started with, and goes on behind it.
-/
namespace Quadlet.Utf8

/-- A range of octets, both ends included. -/
structure Range where
  first : UInt8
  last : UInt8

def Range.contains (r : Range) (c : UInt8) : Bool := r.first ≤ c && c ≤ r.last

/-- Any continuation octet. -/
def tail : Range := ⟨0x80, 0xbf⟩

/-- The ranges of the octets that follow a first octet, if it is one. -/
def continuation (lead : UInt8) : Option (List Range) :=
  if lead < 0x80 then some []
  else if lead < 0xc2 then none
  else if lead < 0xe0 then some [tail]
  else if lead = 0xe0 then some [⟨0xa0, 0xbf⟩, tail]
  else if lead = 0xed then some [⟨0x80, 0x9f⟩, tail]
  else if lead < 0xf0 then some [tail, tail]
  else if lead = 0xf0 then some [⟨0x90, 0xbf⟩, tail, tail]
  else if lead < 0xf4 then some [tail, tail, tail]
  else if lead = 0xf4 then some [⟨0x80, 0x8f⟩, tail, tail]
  else none

/-- How many of the octets fit the ranges, one after the other. -/
def matched : List Range → Bytes → Nat
  | r :: ranges, c :: rest => if r.contains c then matched ranges rest + 1 else 0
  | _, _ => 0

/-- The code point of a first octet and the octets that follow it. -/
def codePoint (lead : UInt8) (following : Bytes) : Nat :=
  let high := match following.length with
    | 0 => lead.toNat
    | 1 => lead.toNat % 32
    | 2 => lead.toNat % 16
    | _ => lead.toNat % 8
  following.foldl (fun n c => n * 64 + c.toNat % 64) high

/-- What stands at the start of a non-empty string. -/
inductive Piece where
  /-- A character, and the number of octets after its first. -/
  | character (c : Char) (following : Nat)
  /-- No character; `following` octets after the first could have continued one. -/
  | illFormed (following : Nat)

def piece (lead : UInt8) (rest : Bytes) : Piece :=
  match continuation lead with
  | none => .illFormed 0
  | some ranges =>
    let n := matched ranges rest
    if n = ranges.length then .character (Char.ofNat (codePoint lead (rest.take n))) n else .illFormed n

/-- The characters up to the first place where none starts, and the octets from there on. -/
def scan : Bytes → List Char × Bytes
  | [] => ([], [])
  | lead :: rest =>
    match piece lead rest with
    | .illFormed _ => ([], lead :: rest)
    | .character c n =>
      let (cs, remainder) := scan (rest.drop n)
      (c :: cs, remainder)
termination_by b => b.length
decreasing_by simp only [List.length_drop, List.length_cons]; omega

/-- The text that octets spell. -/
def decode (b : Bytes) : Except TextError String :=
  match scan b with
  | (cs, []) => .ok (String.ofList cs)
  | (_, remainder) => .error (.invalidUtf8 (b.length - remainder.length))

/-- The octets are a text. -/
def isValid (b : Bytes) : Bool := (scan b).2.isEmpty

/-- ASCII octets are a text. -/
theorem isValid_of_isAscii : ∀ b : Bytes, Bytes.isAscii b = true → isValid b = true
  | [], _ => by rw [isValid, scan]; rfl
  | lead :: rest, h => by
    rw [Bytes.isAscii, List.all_cons, Bool.and_eq_true] at h
    obtain ⟨hlead, hrest⟩ := h
    have hpiece : piece lead rest = .character (Char.ofNat (codePoint lead [])) 0 := by
      rw [piece, continuation, if_pos (of_decide_eq_true hlead)]
      rfl
    rw [isValid, scan, hpiece]
    exact isValid_of_isAscii rest hrest

def replacement : Char := Char.ofNat 0xfffd

/-- The characters of the octets, with U+FFFD for each ill-formed run. -/
def lenient : Bytes → List Char
  | [] => []
  | lead :: rest =>
    match piece lead rest with
    | .illFormed n => replacement :: lenient (rest.drop n)
    | .character c n => c :: lenient (rest.drop n)
termination_by b => b.length
decreasing_by all_goals (simp only [List.length_drop, List.length_cons]; omega)

/-- The text of octets that need not be UTF-8. -/
def decodeLenient (b : Bytes) : String := String.ofList (lenient b)

end Quadlet.Utf8
