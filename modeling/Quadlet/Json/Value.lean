import Quadlet.Json.Number
import Quadlet.Json.Tree
import Quadlet.Json.Writer
/-!
# JSON values — a tree whose every part has a meaning

All strings are texts, all numbers have a value, and an object has one value for a key, the last one written, in the
order of the keys.  Texts nested 128 deep are refused.
-/
namespace Quadlet.Json

inductive Value where
  | null
  | bool (value : Bool)
  | number (value : Number)
  | string (text : String)
  | array (items : List Value)
  | object (members : List (String × Value))

namespace Value

def maxDepth : Nat := 128

/-- The members with the value of `key`, in the order of the keys. -/
def insert (key : String) (v : Value) : List (String × Value) → List (String × Value)
  | [] => [(key, v)]
  | (k, w) :: rest =>
    if key = k then (key, v) :: rest
    else if key < k then (key, v) :: (k, w) :: rest
    else (k, w) :: insert key v rest

mutual

def ofTree? : Tree → Option Value
  | .null => some .null
  | .bool b => some (.bool b)
  | .number w => (Number.ofLexeme w).map .number
  | .string s => s.map .string
  | .array items => (ofItems? items).map .array
  | .object members => (ofMembers? [] members).map .object

def ofItems? : List Tree → Option (List Value)
  | [] => some []
  | t :: rest => do
    let v ← ofTree? t
    let vs ← ofItems? rest
    return v :: vs

/-- The members read so far are `before`. -/
def ofMembers? (before : List (String × Value)) : List (Option String × Tree) → Option (List (String × Value))
  | [] => some before
  | (none, _) :: _ => none
  | (some key, t) :: rest => do
    let v ← ofTree? t
    ofMembers? (insert key v before) rest

end

/-- The value of a text that is one JSON value. -/
def ofString? (s : String) : Option Value := do
  let tree ← Tree.ofString? s
  if tree.depth < maxDepth then ofTree? tree else none

mutual

/-- The value on one line, without blanks. -/
def text : Value → String
  | .null => "null"
  | .bool b => if b then "true" else "false"
  | .number n => n.text
  | .string s => Writer.string s
  | .array items => Writer.array (itemTexts items)
  | .object members => Writer.object (memberTexts members)

def itemTexts : List Value → List String
  | [] => []
  | v :: rest => text v :: itemTexts rest

def memberTexts : List (String × Value) → List (String × String)
  | [] => []
  | (k, v) :: rest => (k, text v) :: memberTexts rest

end

end Value
end Quadlet.Json
