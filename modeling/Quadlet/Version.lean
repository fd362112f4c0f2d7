import Quadlet.Header
import Quadlet.Text.Hex
/-!
# Version strings — how long a serialization is

A serialization starts with an object whose first member is its version string: protocol, version, kind and length in
a window of 24 bytes, such as the one that `pattern` spells.  Nothing behind the window is looked at.
-/
namespace Quadlet.VersionHeader

/-! ## The window -/

def windowSize : Nat := 24

def isLower (c : UInt8) : Bool := 'a'.toUInt8 ≤ c && c ≤ 'z'.toUInt8

def isUpper (c : UInt8) : Bool := 'A'.toUInt8 ≤ c && c ≤ 'Z'.toUInt8

/-- A hexadecimal digit in lowercase. -/
def isHex (c : UInt8) : Bool := ('0'.toUInt8 ≤ c && c ≤ '9'.toUInt8) || ('a'.toUInt8 ≤ c && c ≤ 'f'.toUInt8)

/-- What each character of the window is. -/
def pattern : List (UInt8 → Bool) :=
  let is (c : Char) (x : UInt8) : Bool := x == c.toUInt8
  [is '\x7b', is '"', isLower, is '"', is ':', is '"'] ++
    List.replicate 4 isUpper ++ List.replicate 2 isHex ++ List.replicate 4 isUpper ++ List.replicate 6 isHex ++
    [is '_', is '"']

/-- The window is as long as the pattern, and every character is what it should be. -/
def fits (window : Bytes) : Bool :=
  window.length == windowSize && (window.zip pattern).all (fun p => p.2 p.1)

/-- The four letters and two digits of the protocol. -/
def protocolOf (window : Bytes) : Bytes := window.slice 6 12

def kindOf (window : Bytes) : Bytes := window.slice 12 16

def digitsOf (window : Bytes) : Bytes := window.slice 16 22

/-! ## Reading -/

/-- The one kind of serialization that is read. -/
def json : Bytes := Bytes.ofString "JSON"

/-- The version string at the start of the input.  Its length must cover the window itself. -/
def read (input : Bytes) : Except DecodeError VersionHeader :=
  if input.length < windowSize then .error (.shortageOf input.length windowSize)
  else
    let window := input.take windowSize
    if !fits window then .error (.unsupportedHeader window)
    else if kindOf window ≠ json then .error (.unsupportedSerialization (kindOf window))
    else do
      let size ← (Hex.decodeNat (digitsOf window)).mapError .text
      if size < windowSize then .error (.unsupportedHeader window)
      else return { protocol := protocolOf window, kind := kindOf window, digits := digitsOf window, size }

end Quadlet.VersionHeader
