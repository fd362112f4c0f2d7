import Quadlet.Header
/-!
# Primitives and counters — codes with their bodies

The body of a primitive is base64 of zero bytes and the raw bytes.  As many pad bytes come first as the code has
characters beyond a multiple of four, so that code and body together stand on the grid of quadlets: the characters of
the pad bytes are those that the code takes the place of.  The lead bytes come next.
-/
namespace Quadlet

open Base64 (Alphabet)

structure Primitive where
  selector : Bytes
  /-- Selector and digits. -/
  code : Bytes
  totalLength : Nat
  raw : Bytes
deriving DecidableEq, Repr

/-- A counter and what its digits say, unmultiplied. -/
structure Counter where
  selector : Bytes
  code : Bytes
  count : Nat
  descriptor : Descriptor
deriving DecidableEq, Repr

def Counter.codeLength (c : Counter) : Nat := c.descriptor.cs

/-! ## Cutting the input -/

/-- Refuses an input of less than `want` bytes. -/
def ensure (input : Bytes) (want : Nat) : Except DecodeError Unit :=
  if input.length < want then .error (.shortageOf input.length want) else .ok ()

/-- The first `n` bytes, which must be there and be ASCII. -/
def codeText (input : Bytes) (n : Nat) : Except DecodeError Bytes := do
  ensure input n
  if Bytes.isAscii (input.take n) then .ok (input.take n) else .error (.unexpectedCode (input.take n))

namespace Primitive

/-! ## Decoding -/

/-- The raw bytes of the body behind `code`. -/
def decodeBody (d : Descriptor) (code body : Bytes) : Except DecodeError Bytes := do
  let padBytes := code.length % 4
  let octets ← (Base64.decode .url (List.replicate padBytes (Alphabet.url.char 0) ++ body)).mapError .text
  let zeros := wrap (padBytes + d.ls)
  if octets.length < zeros then .error (.conversion code zeros octets.length)
  else
    let pad ← part octets 0 padBytes
    if pad.any (· != 0) then .error (.nonZeroPadBits code)
    else
      let lead ← part octets padBytes zeros
      if lead.any (· != 0) then .error (.nonZeroLeadBytes code)
      else
        let raw := octets.drop zeros
        let expected := body.length * 3 / 4 - d.ls
        if raw.length ≠ expected then .error (.conversion code expected raw.length) else .ok raw

/-- The size of the selector at the start of the input, which must not start a counter. -/
def hardSize (r : Registry) (input : Bytes) : Except DecodeError Nat :=
  if input.head? = some counterStart then .error (.unexpectedCountCode [counterStart]) else r.selectorSize input

/-- The characters of the whole primitive: those that its code fixes, or those that its digits count. -/
def extent (d : Descriptor) (input : Bytes) (hs : Nat) : Except DecodeError Nat :=
  match d.fs with
  | some fs => .ok fs
  | none => do
    let digits ← part input hs d.cs
    let quadlets ← readDigits digits
    return quadlets * 4 + d.cs

/-- The primitive at the start of the input.  A full size that the code fixes is asked for before the digits are. -/
def extract (r : Registry) (input : Bytes) : Except DecodeError Primitive := do
  let hs ← hardSize r input
  let selector ← codeText input hs
  let d ← r.lookup selector
  ensure input (d.fs.getD 0)
  let code ← codeText input d.cs
  let totalLength ← extent d input hs
  ensure input totalLength
  let raw ← decodeBody d code (input.slice d.cs totalLength)
  return { selector, code, totalLength, raw }

/-! ## Encoding -/

/-- The text of raw bytes under a code of fixed size without digits. -/
def encode (r : Registry) (raw code : Bytes) : Except DecodeError Bytes := do
  let d ← r.lookup code
  match d.kind, d.ss, d.fs with
  | .fixedSize, 0, some fs =>
    let expected := wrap ((fs - d.cs) * 3) / 4 - d.ls
    let padBytes := (3 - (raw.length + d.ls) % 3) % 3
    if raw.length ≠ expected then .error (.conversion code expected raw.length)
    else if d.cs % 4 ≠ padBytes then .error (.argument (.misaligned code d.cs padBytes))
    else
      let text := Base64.encode .url (List.replicate (padBytes + d.ls) 0 ++ raw)
      return code ++ text.drop padBytes
  | _, _, _ => .error (.argument (.notFixedSize code))

end Primitive

/-- The size of the selector at the start of the input, which must not start a primitive. -/
def Counter.hardSize (r : Registry) (input : Bytes) : Except DecodeError Nat :=
  match input with
  | [] => r.selectorSize []
  | first :: rest =>
    if first = counterStart || first = opStart then r.selectorSize (first :: rest)
    else .error (.unexpectedCode [first])

/-- The counter at the start of the input. -/
def Counter.extract (r : Registry) (input : Bytes) : Except DecodeError Counter := do
  let hs ← hardSize r input
  let selector ← codeText input hs
  let descriptor ← r.lookup selector
  let code ← codeText input descriptor.cs
  let digits ← part input hs descriptor.cs
  let count ← readDigits digits
  return { selector, code, count, descriptor }

/-! ## Seal source triples -/

/-- Where an event was sealed: the prefix, sequence number and digest of the sealing event. -/
structure SealTriple where
  identifier : Primitive
  sequence : Primitive
  digest : Primitive
deriving DecidableEq, Repr

/-- A counter and as many triples as its digits say. -/
structure SealTriples where
  counter : Counter
  triples : List SealTriple
  /-- The characters of the counter and of every triple. -/
  length : Nat
deriving DecidableEq, Repr

namespace SealTriples

/-- The first `n` triples of the input, and their length. -/
def extractTriples (r : Registry) : (n : Nat) → Bytes → Except DecodeError (List SealTriple × Nat)
  | 0, _ => .ok ([], 0)
  | n + 1, input => do
    let identifier ← Primitive.extract r input
    let input := input.drop identifier.totalLength
    let sequence ← Primitive.extract r input
    let input := input.drop sequence.totalLength
    let digest ← Primitive.extract r input
    let input := input.drop digest.totalLength
    let (triples, length) ← extractTriples r n input
    return (⟨identifier, sequence, digest⟩ :: triples,
      identifier.totalLength + sequence.totalLength + digest.totalLength + length)

def extract (r : Registry) (input : Bytes) : Except DecodeError SealTriples := do
  let counter ← Counter.extract r input
  let (triples, length) ← extractTriples r counter.count (input.drop counter.codeLength)
  return { counter, triples, length := counter.codeLength + length }

end SealTriples
end Quadlet
