import Quadlet.Error
import Quadlet.Text.Quoted
import Quadlet.Text.Utf8
/-!
# Messages — the wording of every error

What comes from the input stands in quotes.  A code that is not UTF-8 is shown with U+FFFD in its ill-formed places.
-/
namespace Quadlet

/-- A code as messages show it. -/
def quoted (code : Bytes) : String := Quoted.string (Utf8.decodeLenient code)

def TextError.message : TextError → String
  | .invalidCharacter byte index =>
    "invalid character " ++ Quoted.character (Char.ofNat byte.toNat) ++ " at offset " ++ toString index
  | .invalidLength length => "invalid input length " ++ toString length
  | .invalidUtf8 validUpTo => "invalid utf-8 after " ++ toString validUpTo ++ " bytes"
  | .valueTooLarge value width =>
    "value " ++ toString value ++ " does not fit in " ++ toString width ++ " base64 digits"

def Document.name : Document → String
  | .sizes => "sizes"
  | .codex => "codex"
  | .counter => "counter"

def TableError.message : TableError → String
  | .malformed document => document.name ++ ":"
  | .unreadable path => path ++ ":"
  | .hardSize code hs => "code " ++ quoted code ++ " does not match its hard size " ++ toString hs
  | .codeSize code cs =>
    "variable code " ++ quoted code ++ " has code size " ++ toString cs ++ ", not a multiple of 4"
  | .fullSize code fs => "code " ++ quoted code ++ " has invalid full size " ++ toString fs
  | .otherIndex code => "code " ++ quoted code ++ " has other index wider than its soft part"
  | .hardSizeClash code lead =>
    "code " ++ quoted code ++ " disagrees on hard size for prefix " ++ quoted lead
  | .indexerWithoutFullSize code => "indexer code " ++ quoted code ++ " has no full size"
  | .counterWithoutDash code => "counter code " ++ quoted code ++ " must start with '-'"
  | .frameAndGroup code => "counter code " ++ quoted code ++ " cannot be both a frame and a group"
  | .counterWithoutSizes code => "counter.json describes " ++ quoted code ++ " which has no size entry"

def Missing.message : Missing → String
  | .counterHardSize => "counter hard size"
  | .multiplier text => "repeat multiplier " ++ Quoted.string text
  | .fixedSize => "no fixed size"
  | .sizeDigits => "no size digits"
  | .code registry table => registry ++ " " ++ table
  | .context registry => registry ++ " context"
  | .contexts registry => registry ++ " has no contexts"
  | .headerContext => "no context"

def ArgumentError.message : ArgumentError → String
  | .notFixedSize code => quoted code ++ " is not a fixed-size code without soft digits"
  | .misaligned code cs padBytes =>
    "code size " ++ toString cs ++ " of " ++ quoted code ++ " does not align " ++ toString padBytes ++
      " pad bytes"
  | .notByte index element => "element " ++ toString index ++ " is not a byte: " ++ element
  | .notTextOrBytes got => "expected text or bytes, got " ++ got
  | .outOfBounds start stop length =>
    if start ≤ stop then
      "range end index " ++ toString stop ++ " out of range for slice of length " ++ toString length
    else "slice index starts at " ++ toString start ++ " but ends at " ++ toString stop

/-- The three bits of a number below eight. -/
def tritetText (n : Nat) : String :=
  toString (n / 4 % 2) ++ toString (n / 2 % 2) ++ toString (n % 2)

def DecodeError.message : DecodeError → String
  | .shortage available need =>
    "shortage: need " ++ toString need ++ " more bytes, have " ++ toString available
  | .unknownCode missing code => "unknown code " ++ quoted code ++ " (" ++ missing.message ++ ")"
  | .unexpectedCountCode code => "unexpected count code start " ++ quoted code
  | .unexpectedOpCode code => "unexpected op code start " ++ quoted code
  | .unexpectedCode code => "unexpected code start " ++ quoted code
  | .nonZeroPadBits code => "non-zero pad bits in " ++ quoted code
  | .nonZeroLeadBytes code => "non-zero lead bytes in " ++ quoted code
  | .conversion code expected actual =>
    "conversion error in " ++ quoted code ++ ": expected " ++ toString expected ++ " raw bytes, got " ++
      toString actual
  | .unsupportedColdStart tritet => "unsupported cold start 0b" ++ tritetText tritet
  | .unsupportedSerialization kind => "unsupported serialization " ++ quoted kind
  | .unsupportedHeader header => "unsupported header " ++ quoted header
  | .argument (.outOfBounds start stop length) => (ArgumentError.outOfBounds start stop length).message
  | .argument cause => "invalid argument: " ++ cause.message
  | .unclosedGroup remaining =>
    "frame ended with " ++ toString remaining ++ " grouped values outstanding"
  | .frameUnderflow => "cannot pop the root frame"
  | .table cause => "invalid code table: " ++ cause.message
  | .text cause => cause.message

end Quadlet
