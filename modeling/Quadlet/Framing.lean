import Quadlet.Primitive
import Quadlet.Text.Utf8
import Quadlet.Version
/-!
# Framing — the one value at the start of a span

Inside a coded container every value starts with a code.  Where nothing says what comes next, the top three bits of
the first byte do: a counter, a serialization, or something that is not read.
-/
namespace Quadlet

/-- What the top three bits of a first byte announce. -/
inductive ColdStart where
  | annotated
  | countText
  | opText
  | json
  | msgPack1
  | cbor
  | msgPack2
  | countBinary
deriving DecidableEq, Repr

namespace ColdStart

/-- The three bits. -/
def tritet : ColdStart → Nat
  | .annotated => 0
  | .countText => 1
  | .opText => 2
  | .json => 3
  | .msgPack1 => 4
  | .cbor => 5
  | .msgPack2 => 6
  | .countBinary => 7

def ofByte (byte : UInt8) : ColdStart :=
  match byte.toNat / 32 with
  | 0 => .annotated
  | 1 => .countText
  | 2 => .opText
  | 3 => .json
  | 4 => .msgPack1
  | 5 => .cbor
  | 6 => .msgPack2
  | _ => .countBinary

end ColdStart

namespace Value

/-- The name of the one counter whose extent is that of its contents. -/
def sealTriplesName : String := "SealSourceTriples"

/-- The primitive at the start of the input, as a value. -/
def primitive (r : Registry) (input : Bytes) : Except DecodeError Value := do
  let p ← Primitive.extract r input
  let d ← r.lookup p.selector
  let header ← CodeHeader.read d p.code
  return ⟨.code header, 0, p.totalLength⟩

/-- The first `n` bytes, which must be there and be UTF-8. -/
def leadingText (input : Bytes) (n : Nat) : Except DecodeError Bytes := do
  ensure input n
  if Utf8.isValid (input.take n) then .ok (input.take n) else .error (.unexpectedCode (input.take n))

/-- The length of the contents of a seal triples counter; a shortage inside is one of the whole input. -/
def sealTriplesLength (r : Registry) (input : Bytes) : Except DecodeError Nat :=
  match SealTriples.extract r input with
  | .ok triples => .ok triples.length
  | .error (.shortage _ need) => .error (.shortage input.length need)
  | .error e => .error e

/-- The extent of a counter, its code among it. -/
def counterLength (r : Registry) (input : Bytes) (h : CodeHeader) : Except DecodeError Nat :=
  if h.descriptor.name = some sealTriplesName then sealTriplesLength r input else h.totalLength

/-- The counter at the start of the input, with all that it counts in quadlets. -/
def counter (r : Registry) (input : Bytes) : Except DecodeError Value := do
  let hs ← r.selectorSize input
  let selector ← leadingText input hs
  let d ← r.lookup selector
  let text ← leadingText input d.cs
  let header ← CodeHeader.read d text
  let length ← counterLength r input header
  ensure input length
  return ⟨.code header, 0, length⟩

/-- The value with a code at the start of the input. -/
def coded (r : Registry) (input : Bytes) : Except DecodeError Value :=
  if input.head? = some counterStart then counter r input else primitive r input

/-- The serialization at the start of the input. -/
def serialization (input : Bytes) : Except DecodeError Value := do
  let header ← VersionHeader.read input
  ensure input header.size
  return ⟨.version header, 0, header.size⟩

/-- The value at the start of a span of which nothing is known. -/
def sniff (r : Registry) (input : Bytes) : Except DecodeError Value :=
  match input with
  | [] => .error (.shortage 0 1)
  | first :: _ =>
    match ColdStart.ofByte first with
    | .countText => coded r input
    | .json => serialization input
    | other => .error (.unsupportedColdStart other.tritet)

end Value
end Quadlet
