import Quadlet.Text.Bytes
import Quadlet.Text.Error
/-!
# Errors — why tables are refused and why a stream does not decode

Each cause carries what a message shows of it.  Codes are octets, since a stream may hold anything where a code should
stand.
-/
namespace Quadlet

/-- The three texts that describe a set of code tables. -/
inductive Document where
  | sizes
  | codex
  | counter
deriving DecidableEq, Repr

/-- Why code tables are refused. -/
inductive TableError where
  /-- The text is not JSON, or has another shape. -/
  | malformed (document : Document)
  /-- The file cannot be read as a text. -/
  | unreadable (path : String)
  /-- The code is not ASCII, has another length than its hard size, or is too short to have a selector. -/
  | hardSize (code : Bytes) (hs : Nat)
  /-- A code without full size whose code size is no multiple of four. -/
  | codeSize (code : Bytes) (cs : Nat)
  /-- A full size that is no multiple of four, or less than the code size. -/
  | fullSize (code : Bytes) (fs : Nat)
  /-- More digits for the other index than there are soft digits. -/
  | otherIndex (code : Bytes)
  /-- Two codes with the same first characters and different hard sizes. -/
  | hardSizeClash (code lead : Bytes)
  | indexerWithoutFullSize (code : Bytes)
  | counterWithoutDash (code : Bytes)
  | frameAndGroup (code : Bytes)
  /-- A counter that is described and has no sizes. -/
  | counterWithoutSizes (code : Bytes)
deriving DecidableEq, Repr

/-- What was sought and is not there. -/
inductive Missing where
  /-- A counter that starts with these two characters. -/
  | counterHardSize
  /-- A multiplier with this spelling. -/
  | multiplier (text : String)
  | fixedSize
  | sizeDigits
  /-- A code of the named table of the named registry. -/
  | code (registry table : String)
  /-- A context of the named registry. -/
  | context (registry : String)
  /-- Any context: the named registry has none. -/
  | contexts (registry : String)
  /-- The context of a header that names none. -/
  | headerContext
deriving DecidableEq, Repr

/-- What an operation does not take. -/
inductive ArgumentError where
  | notFixedSize (code : Bytes)
  /-- A code size that leaves another number of pad bytes than the raw bytes need. -/
  | misaligned (code : Bytes) (cs padBytes : Nat)
  | notByte (index : Nat) (element : String)
  /-- JSON input that is neither a string nor an array; `got` names its kind. -/
  | notTextOrBytes (got : String)
  /-- Offsets without a slice in a text of `length` octets.  The program stops there. -/
  | outOfBounds (start stop length : Nat)
deriving DecidableEq, Repr

/-- Why a stream, or an operation on its codes, fails. -/
inductive DecodeError where
  /-- A lack of `need` bytes beyond the `available` ones. -/
  | shortage (available need : Nat)
  | unknownCode (missing : Missing) (code : Bytes)
  | unexpectedCountCode (code : Bytes)
  | unexpectedOpCode (code : Bytes)
  | unexpectedCode (code : Bytes)
  | nonZeroPadBits (code : Bytes)
  | nonZeroLeadBytes (code : Bytes)
  /-- A body that holds another number of raw bytes than its code asks for. -/
  | conversion (code : Bytes) (expected actual : Nat)
  | unsupportedColdStart (tritet : Nat)
  | unsupportedSerialization (kind : Bytes)
  | unsupportedHeader (header : Bytes)
  | argument (cause : ArgumentError)
  /-- A frame that ends while its groups wait for more values. -/
  | unclosedGroup (remaining : Nat)
  | frameUnderflow
  | table (cause : TableError)
  | text (cause : TextError)
deriving DecidableEq, Repr

namespace DecodeError

/-- The shortage of `want` bytes when `available` are there. -/
def shortageOf (available want : Nat) : DecodeError := .shortage available (want - available)

end DecodeError
end Quadlet
