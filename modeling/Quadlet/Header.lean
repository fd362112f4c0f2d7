import Quadlet.Registry
import Quadlet.Text.Numeral
/-!
# Headers — the typed fields of a code

The characters of a code are read once, into the fields that its kind has; the length of the value and what follows it
are then found from the header alone.  A field that a kind does not have is `none`.
-/
namespace Quadlet

/-- The version string of a serialization. -/
structure VersionHeader where
  /-- The protocol, and its version digits. -/
  protocol : Bytes
  kind : Bytes
  digits : Bytes
  /-- The length of the serialization in bytes. -/
  size : Nat
deriving DecidableEq, Repr

/-- The code of a primitive or a counter. -/
structure CodeHeader where
  descriptor : Descriptor
  /-- The soft part. -/
  digits : Bytes
  leadBytes : Option Nat := none
  /-- The quadlets of a body of variable size. -/
  size : Option Nat := none
  /-- The quadlets that a counter without multiplier counts. -/
  quadlets : Option Nat := none
  /-- What a counter counts, multiplied. -/
  count : Option Nat := none
  index : Option Nat := none
  ondex : Option Nat := none
  version : Option Bytes := none
deriving DecidableEq, Repr

inductive Header where
  | version (header : VersionHeader)
  | code (header : CodeHeader)
deriving DecidableEq, Repr

namespace Header

def asVersion? : Header → Option VersionHeader
  | .version h => some h
  | .code _ => none

def asCode? : Header → Option CodeHeader
  | .version _ => none
  | .code h => some h

end Header

/-- A number in the soft part. -/
def readDigits (digits : Bytes) : Except DecodeError Nat := (Numeral.read digits).mapError .text

namespace CodeHeader

/-! ## Reading -/

/-- The fields of the digits that belong to `d`. -/
def ofDigits (d : Descriptor) (digits : Bytes) : Except DecodeError CodeHeader :=
  match d.kind with
  | .fixedSize => .ok { descriptor := d, digits, leadBytes := some d.ls }
  | .variableSize => do
    let size ← readDigits digits
    return { descriptor := d, digits, leadBytes := some d.ls, size := some size }
  | .counter => do
    let n ← readDigits digits
    match d.multiplier with
    | none => return { descriptor := d, digits, quadlets := some n, count := some n }
    | some text =>
      match Multiplier.ofString? text with
      | none => .error (.unknownCode (.multiplier text) d.selector)
      | some multiplier => return { descriptor := d, digits, count := some (multiplier.apply n) }
  | .indexer =>
    if 0 < d.os ∧ d.os ≤ digits.length then do
      let index ← readDigits (digits.take d.os)
      let ondex ← readDigits (digits.drop d.os)
      return { descriptor := d, digits, leadBytes := some d.ls, index := some index, ondex := some ondex }
    else do
      let index ← readDigits digits
      return { descriptor := d, digits, leadBytes := some d.ls, index := some index }
  | .version => .ok { descriptor := d, digits, version := some digits }

/-- The header of a text that starts with a code of `d`. -/
def read (d : Descriptor) (text : Bytes) : Except DecodeError CodeHeader :=
  if !Bytes.isAscii text then .error (.unexpectedCode text)
  else if text.length < d.cs then .error (.shortageOf text.length d.cs)
  else part text d.hs d.cs >>= ofDigits d

/-! ## What follows the code -/

/-- The number of characters of the code. -/
def codeLength (h : CodeHeader) : Nat := h.descriptor.cs

def fixedLength (h : CodeHeader) : Except DecodeError Nat :=
  match h.descriptor.fs with
  | some fs => .ok fs
  | none => .error (.unknownCode .fixedSize h.descriptor.selector)

/-- The characters of the whole value, its code among them. -/
def totalLength (h : CodeHeader) : Except DecodeError Nat :=
  match h.descriptor.kind with
  | .fixedSize | .indexer | .version => h.fixedLength
  | .variableSize =>
    match h.size with
    | some size => .ok (h.codeLength + 4 * size)
    | none => .error (.unknownCode .sizeDigits h.descriptor.selector)
  | .counter =>
    match h.quadlets with
    | some quadlets => .ok (h.codeLength + 4 * quadlets)
    | none => h.fixedLength

/-- A counter whose body is a stream of its own. -/
def isFrame (h : CodeHeader) : Bool :=
  h.descriptor.kind == .counter && h.descriptor.multiplier.isNone && h.descriptor.frame

/-- A counter that announces grouped values. -/
def isGroup (h : CodeHeader) : Bool := h.descriptor.kind == .counter && h.descriptor.multiplier.isSome

def hasContext (h : CodeHeader) : Bool := h.descriptor.context.isSome

/-- The registry of the context that the header names. -/
def context (h : CodeHeader) (r : Registry) : Except DecodeError Registry :=
  match h.descriptor.context with
  | some name => r.context name
  | none => .error (.unknownCode .headerContext h.descriptor.selector)

end CodeHeader

/-- A header, and the span of the input that it covers. -/
structure Value where
  header : Header
  start : Nat
  length : Nat
deriving DecidableEq, Repr

namespace Value

/-- The offset just behind the value. -/
def stop (v : Value) : Nat := v.start + v.length

/-- The bytes of the span, if the input has them all. -/
def bytes (v : Value) (input : Bytes) : Bytes := if v.stop ≤ input.length then input.slice v.start v.stop else []

def shift (v : Value) (offset : Nat) : Value := { v with start := v.start + offset }

end Value
end Quadlet
