/-!
# JSON tokens — the lexical half of JSON

A text falls into brackets, commas, colons, words, numbers and strings, with blanks between them.  Numbers are kept as
they are written, because how large a number may be depends on where it stands.  A string that escapes one half of a
surrogate pair has the form of a string but is no text: it is kept as `none`, since only some readers mind.
-/
namespace Quadlet.Json

/-- A number as written: the digits as values, and the exponent if there is one. -/
structure Lexeme where
  negative : Bool
  integer : List Nat
  fraction : List Nat
  exponent : Option Int
deriving DecidableEq, Repr

inductive Token where
  | openArray
  | closeArray
  | openObject
  | closeObject
  | comma
  | colon
  | null
  | bool (value : Bool)
  | number (written : Lexeme)
  | string (text : Option String)
deriving DecidableEq, Repr

namespace Token

/-! ## Numbers -/

def isDigit (c : Char) : Bool := '0' ≤ c && c ≤ '9'

/-- The digits at the start, as values, and what follows them. -/
def digits (cs : List Char) : List Nat × List Char :=
  ((cs.takeWhile isDigit).map (fun c => c.toNat - '0'.toNat), cs.dropWhile isDigit)

def ofDigits (ds : List Nat) : Nat := ds.foldl (fun n d => n * 10 + d) 0

/-- A point and at least one digit; nothing when no point is there. -/
def fraction? : List Char → Option (List Nat × List Char)
  | '.' :: rest => if (digits rest).1.isEmpty then none else some (digits rest)
  | cs => some ([], cs)

/-- The sign of an exponent: whether it is negative. -/
def sign : List Char → Bool × List Char
  | '-' :: rest => (true, rest)
  | '+' :: rest => (false, rest)
  | cs => (false, cs)

/-- A mark, a sign and at least one digit; nothing when no mark is there. -/
def exponent? : List Char → Option (Option Int × List Char)
  | c :: rest =>
    if c = 'e' || c = 'E' then
      let (negative, rest) := sign rest
      let (ds, rest) := digits rest
      if ds.isEmpty then none
      else some (some (if negative then -(ofDigits ds : Int) else ofDigits ds), rest)
    else some (none, c :: rest)
  | [] => some (none, [])

/-- The digits of a number, sign apart.  Only a lone zero may start with zero. -/
def number? (negative : Bool) (cs : List Char) : Option (Token × List Char) :=
  let (integer, rest) := digits cs
  if integer.isEmpty || (integer.head? = some 0 && integer.length ≠ 1) then none
  else do
    let (fraction, rest) ← fraction? rest
    let (exponent, rest) ← exponent? rest
    return (.number ⟨negative, integer, fraction, exponent⟩, rest)

/-! ## Strings -/

/-- A character that stands for itself or after a backslash, or a UTF-16 unit given by its number. -/
inductive Piece where
  | plain (c : Char)
  | unit (n : Nat)

def hexValue? (c : Char) : Option Nat :=
  if '0' ≤ c && c ≤ '9' then some (c.toNat - '0'.toNat)
  else if 'a' ≤ c && c ≤ 'f' then some (c.toNat - 'a'.toNat + 10)
  else if 'A' ≤ c && c ≤ 'F' then some (c.toNat - 'A'.toNat + 10)
  else none

/-- What a character stands for after a backslash, `u` apart. -/
def escaped? : Char → Option Char
  | '"' => some '"'
  | '\\' => some '\\'
  | '/' => some '/'
  | 'b' => some '\x08'
  | 'f' => some '\x0c'
  | 'n' => some '\n'
  | 'r' => some '\r'
  | 't' => some '\t'
  | _ => none

/-- The pieces up to the closing quote, and what follows it. -/
def pieces? : List Char → Option (List Piece × List Char)
  | [] => none
  | '"' :: rest => some ([], rest)
  | '\\' :: 'u' :: a :: b :: c :: d :: rest => do
    let a ← hexValue? a
    let b ← hexValue? b
    let c ← hexValue? c
    let d ← hexValue? d
    let (ps, rest) ← pieces? rest
    return (.unit (((a * 16 + b) * 16 + c) * 16 + d) :: ps, rest)
  | '\\' :: c :: rest => do
    let c ← escaped? c
    let (ps, rest) ← pieces? rest
    return (.plain c :: ps, rest)
  | c :: rest =>
    if c.toNat < 0x20 || c = '\\' then none
    else do
      let (ps, rest) ← pieces? rest
      return (.plain c :: ps, rest)

def isLeading (n : Nat) : Bool := 0xd800 ≤ n && n < 0xdc00

def isTrailing (n : Nat) : Bool := 0xdc00 ≤ n && n < 0xe000

/-- The characters of the pieces: a leading unit and the trailing one right after it are one character. -/
def join? : List Piece → Option (List Char)
  | [] => some []
  | .plain c :: rest => (join? rest).map (c :: ·)
  | .unit m :: .unit n :: rest =>
    if isLeading m then
      if isTrailing n then
        (join? rest).map (Char.ofNat (0x10000 + (m - 0xd800) * 0x400 + (n - 0xdc00)) :: ·)
      else none
    else if isTrailing m then none
    else (join? (.unit n :: rest)).map (Char.ofNat m :: ·)
  | .unit m :: rest =>
    if isLeading m || isTrailing m then none else (join? rest).map (Char.ofNat m :: ·)

/-! ## Tokens -/

def isBlank (c : Char) : Bool := c = ' ' || c = '\t' || c = '\n' || c = '\r'

/-- The token that starts with a character that is not blank. -/
def next? : List Char → Option (Token × List Char)
  | '[' :: rest => some (.openArray, rest)
  | ']' :: rest => some (.closeArray, rest)
  | '\x7b' :: rest => some (.openObject, rest)
  | '\x7d' :: rest => some (.closeObject, rest)
  | ',' :: rest => some (.comma, rest)
  | ':' :: rest => some (.colon, rest)
  | 'n' :: 'u' :: 'l' :: 'l' :: rest => some (.null, rest)
  | 't' :: 'r' :: 'u' :: 'e' :: rest => some (.bool true, rest)
  | 'f' :: 'a' :: 'l' :: 's' :: 'e' :: rest => some (.bool false, rest)
  | '"' :: rest => (pieces? rest).map (fun p => (.string ((join? p.1).map String.ofList), p.2))
  | '-' :: rest => number? true rest
  | cs => number? false cs

/-- The tokens of at most `fuel` characters. -/
def scanUpTo : (fuel : Nat) → List Char → Option (List Token)
  | 0, cs => if cs.isEmpty then some [] else none
  | fuel + 1, cs =>
    match cs.dropWhile isBlank with
    | [] => some []
    | cs =>
      match next? cs with
      | none => none
      | some (token, rest) => (scanUpTo fuel rest).map (token :: ·)

/-- The tokens of a text: each takes at least one character, so its length bounds their number. -/
def scan (cs : List Char) : Option (List Token) := scanUpTo cs.length cs

end Token
end Quadlet.Json
