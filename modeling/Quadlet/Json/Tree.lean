import Quadlet.Json.Token
/-!
# JSON trees — what a JSON text says, before any meaning is given to it

A tree keeps all that readers may differ on: numbers as written, members in the order and number in which they occur,
strings that are no text.  Nesting is not limited here.
-/
namespace Quadlet.Json

inductive Tree where
  | null
  | bool (value : Bool)
  | number (written : Lexeme)
  | string (text : Option String)
  | array (items : List Tree)
  | object (members : List (Option String × Tree))

namespace Tree

/-! ## Reading

`fuel` bounds the calls that one chain of calls can make; each takes a token, so the number of tokens is enough. -/

mutual

/-- The value at the start of the tokens, and the tokens after it. -/
def value? : (fuel : Nat) → List Token → Option (Tree × List Token)
  | 0, _ => none
  | fuel + 1, tokens =>
    match tokens with
    | .null :: rest => some (.null, rest)
    | .bool b :: rest => some (.bool b, rest)
    | .number n :: rest => some (.number n, rest)
    | .string s :: rest => some (.string s, rest)
    | .openArray :: .closeArray :: rest => some (.array [], rest)
    | .openArray :: rest => (items? fuel rest).map (fun p => (.array p.1, p.2))
    | .openObject :: .closeObject :: rest => some (.object [], rest)
    | .openObject :: rest => (members? fuel rest).map (fun p => (.object p.1, p.2))
    | _ => none

/-- One item or more, up to the closing bracket. -/
def items? : (fuel : Nat) → List Token → Option (List Tree × List Token)
  | 0, _ => none
  | fuel + 1, tokens =>
    match value? fuel tokens with
    | some (v, .comma :: rest) => (items? fuel rest).map (fun p => (v :: p.1, p.2))
    | some (v, .closeArray :: rest) => some ([v], rest)
    | _ => none

/-- One member or more, up to the closing brace. -/
def members? : (fuel : Nat) → List Token → Option (List (Option String × Tree) × List Token)
  | 0, _ => none
  | fuel + 1, .string key :: .colon :: tokens =>
    match value? fuel tokens with
    | some (v, .comma :: rest) => (members? fuel rest).map (fun p => ((key, v) :: p.1, p.2))
    | some (v, .closeObject :: rest) => some ([(key, v)], rest)
    | _ => none
  | _ + 1, _ => none

end

/-- The tree of a text that is one JSON value, blanks around it allowed. -/
def ofString? (s : String) : Option Tree := do
  let tokens ← Token.scan s.toList
  match value? (tokens.length + 1) tokens with
  | some (tree, []) => some tree
  | _ => none

/-! ## Nesting -/

mutual

/-- How many arrays and objects stand inside each other. -/
def depth : Tree → Nat
  | .array items => itemsDepth items + 1
  | .object members => membersDepth members + 1
  | _ => 0

def itemsDepth : List Tree → Nat
  | [] => 0
  | t :: rest => max (depth t) (itemsDepth rest)

def membersDepth : List (Option String × Tree) → Nat
  | [] => 0
  | (_, t) :: rest => max (depth t) (membersDepth rest)

end

end Tree
end Quadlet.Json
