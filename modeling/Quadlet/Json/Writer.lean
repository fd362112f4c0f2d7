import Quadlet.Text.Hex
/-!
# Writing JSON — one line, without blanks

A string escapes the quote, the backslash and everything below U+0020, and shows all other characters as they are: so
what is written never breaks a line.
-/
namespace Quadlet.Json.Writer

/-- A character inside a string. -/
def escape (c : Char) : List Char :=
  if c = '"' then ['\\', '"']
  else if c = '\\' then ['\\', '\\']
  else if c = '\x08' then ['\\', 'b']
  else if c = '\x0c' then ['\\', 'f']
  else if c = '\n' then ['\\', 'n']
  else if c = '\r' then ['\\', 'r']
  else if c = '\t' then ['\\', 't']
  else if c.toNat < 0x20 then
    ['\\', 'u', '0', '0', Char.ofNat (Hex.digit (c.toNat / 16)).toNat, Char.ofNat (Hex.digit c.toNat).toNat]
  else [c]

def string (s : String) : String := String.ofList (['"'] ++ s.toList.flatMap escape ++ ['"'])

def array (items : List String) : String := "[" ++ String.intercalate "," items ++ "]"

/-- An object of members whose values are written already. -/
def object (members : List (String × String)) : String :=
  "\x7b" ++ String.intercalate "," (members.map (fun m => string m.1 ++ ":" ++ m.2)) ++ "\x7d"

end Quadlet.Json.Writer
