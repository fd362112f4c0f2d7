/-!
# Text errors — why a text is not what a codec reads

Base64, base64 numerals, hexadecimal and UTF-8 share these four causes.
-/
namespace Quadlet

inductive TextError where
  /-- An octet outside the alphabet, and its offset. -/
  | invalidCharacter (byte : UInt8) (index : Nat)
  /-- No text of this length is in the format. -/
  | invalidLength (length : Nat)
  /-- The octets before `validUpTo` are UTF-8, and no character starts there. -/
  | invalidUtf8 (validUpTo : Nat)
  /-- A number that `width` base64 digits do not hold. -/
  | valueTooLarge (value width : Nat)
deriving DecidableEq, Repr

end Quadlet
