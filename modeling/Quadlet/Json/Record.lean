import Quadlet.Json.Number
import Quadlet.Json.Tree
import Quadlet.Text.KeyMap
/-!
# Records and maps in JSON — trees read as typed data

A record is an object with known fields, each written at most once, or an array of its fields in their order; unknown
members of the object are passed over unread.  A map is an object with arbitrary keys, of which the last one counts.
-/
namespace Quadlet.Json

/-! ## Scalars -/

/-- A whole number below 2⁶⁴. -/
def Tree.word? : Tree → Option UInt64
  | .number w =>
    match Number.ofLexeme w with
    | some (.natural n) => some (UInt64.ofNat n)
    | _ => none
  | _ => none

def Tree.bool? : Tree → Option Bool
  | .bool b => some b
  | _ => none

def Tree.text? : Tree → Option String
  | .string s => s
  | _ => none

/-! ## Records -/

/-- The fields of a record, in the order of their names. -/
structure Record where
  fields : List (Option Tree)
  /-- The record was written as an array, where a field can be left out only with all after it. -/
  positional : Bool

namespace Record

def ofTree? (names : List String) : Tree → Option Record
  | .array items =>
    if items.length ≤ names.length then some ⟨items.map some, true⟩ else none
  | .object members =>
    if members.any (fun m => m.1.isNone) then none
    else if names.any (fun name => 1 < members.countP (fun m => m.1 == some name)) then none
    else some ⟨names.map (fun name => (members.find? (fun m => m.1 == some name)).map Prod.snd), false⟩
  | _ => none

def field? (r : Record) (i : Nat) : Option Tree := (r.fields[i]?).join

/-- A field that must be written. -/
def required {α : Type} (r : Record) (i : Nat) (read : Tree → Option α) : Option α :=
  match r.field? i with
  | none => none
  | some t => read t

/-- A field with a value for when it is not written. -/
def defaulted {α : Type} (r : Record) (i : Nat) (default : α) (read : Tree → Option α) : Option α :=
  match r.field? i with
  | none => some default
  | some t => read t

/-- A field that may be `null`, or missing where the fields have names. -/
def nullable {α : Type} (r : Record) (i : Nat) (read : Tree → Option α) : Option (Option α) :=
  match r.field? i with
  | none => if r.positional then none else some none
  | some .null => some none
  | some t => (read t).map some

end Record

/-! ## Maps -/

/-- An object whose every value is read, under keys that are texts. -/
def Tree.map? {α : Type} (read : Tree → Option α) : Tree → Option (KeyMap α)
  | .object members =>
    members.foldlM (fun map m => do
      let key ← m.1
      let value ← read m.2
      return map.insert (Bytes.ofString key) value) .empty
  | _ => none

end Quadlet.Json
