import Quadlet.Error
import Quadlet.Json.Value
import Quadlet.Message
/-!
# Input — what a stream is given as

A stream is a text or a string of bytes.  It is read from raw bytes, without the line breaks at their end, or from a
JSON string, or from a JSON array of numbers below 256.
-/
namespace Quadlet

inductive Input where
  | text (s : String)
  | bytes (b : Bytes)
deriving DecidableEq, Repr

/-- Why a command fails. -/
inductive CommandError where
  /-- The stream does not decode from the byte at `offset` on. -/
  | decode (offset : Nat) (cause : DecodeError)
  | refused (cause : DecodeError)
  /-- The input is not JSON. -/
  | notJson
  /-- The input cannot be read. -/
  | unreadable
deriving DecidableEq, Repr

/-- The wording, where there is one. -/
def CommandError.message? : CommandError → Option String
  | .decode offset cause => some ("at byte " ++ toString offset ++ ": " ++ cause.message)
  | .refused cause => some cause.message
  | .notJson => none
  | .unreadable => none

namespace Input

def toBytes : Input → Bytes
  | .text s => Bytes.ofString s
  | .bytes b => b

/-! ## JSON -/

def kindName : Json.Value → String
  | .null => "null"
  | .bool _ => "boolean"
  | .number _ => "number"
  | .string _ => "string"
  | .array _ => "array"
  | .object _ => "object"

/-- A whole number below 256. -/
def byte? : Json.Value → Option UInt8
  | .number (.natural n) => if n < 256 then some (UInt8.ofNat n) else none
  | _ => none

/-- The bytes of the elements from position `i` on. -/
def bytesFrom (i : Nat) : List Json.Value → Except DecodeError Bytes
  | [] => .ok []
  | v :: rest =>
    match byte? v with
    | none => .error (.argument (.notByte i v.text))
    | some b => (bytesFrom (i + 1) rest).map (b :: ·)

def ofJson : Json.Value → Except DecodeError Input
  | .string s => .ok (.text s)
  | .array items => (bytesFrom 0 items).map .bytes
  | v => .error (.argument (.notTextOrBytes (kindName v)))

/-! ## Reading -/

def isLineBreak (c : UInt8) : Bool := c == '\n'.toUInt8 || c == '\r'.toUInt8

/-- The bytes without the line breaks at their end. -/
def dropLineBreaks (b : Bytes) : Bytes := (b.reverse.dropWhile isLineBreak).reverse

/-- The stream in the bytes of an input, which are JSON if `json`. -/
def read (b : Bytes) (json : Bool) : Except CommandError Input :=
  if json then
    match (Utf8.decode b).toOption.bind Json.Value.ofString? with
    | none => .error .notJson
    | some v => (ofJson v).mapError .refused
  else .ok (.bytes (dropLineBreaks b))

end Input
end Quadlet
