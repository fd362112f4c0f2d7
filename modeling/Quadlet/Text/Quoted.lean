import Quadlet.Text.Hex
import Quadlet.Text.Property
/-!
# Quoted text — how a message shows a character or a code

Text that comes from the input stands in quotes, so that a message stays one line of printable characters.  A
combining mark would attach to the opening quote, so it is escaped where it would: alone, or first in a string.
-/
namespace Quadlet.Quoted

/-- A backslash and `u`, then the code point in braces: lowercase hexadecimal without leading zeros. -/
def codePoint (c : Char) : List Char :=
  ['\\', 'u', '\x7b'] ++ (Hex.ofNat c.toNat).map (fun d => Char.ofNat d.toNat) ++ ['\x7d']

/-- The escape of `c` between quotes `quote`; `first` says that the quote is just before it. -/
def escape (quote : Char) (first : Bool) (c : Char) : List Char :=
  if c = '\x00' then ['\\', '0']
  else if c = '\t' then ['\\', 't']
  else if c = '\n' then ['\\', 'n']
  else if c = '\r' then ['\\', 'r']
  else if c = '\\' || c = quote then ['\\', c]
  else if (first && Property.isCombining c) || !Property.isPrintable c then codePoint c
  else [c]

/-- A character in single quotes. -/
def character (c : Char) : String :=
  String.ofList (['\''] ++ escape '\'' true c ++ ['\''])

/-- A text in double quotes. -/
def string (s : String) : String :=
  let body := match s.toList with
    | [] => []
    | c :: rest => escape '"' true c ++ rest.flatMap (escape '"' false)
  String.ofList (['"'] ++ body ++ ['"'])

end Quadlet.Quoted
