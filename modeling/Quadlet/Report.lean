import Quadlet.Input
import Quadlet.Json.Writer
import Quadlet.Session.Basic
/-!
# Reports — a line for every value

A report is a list of JSON objects, or a tree in which a value stands under the frames and groups that it is in.  A
line is written when its value is found, so a stream that fails has a report of what came before.
-/
namespace Quadlet

inductive Format where
  | json
  | text
deriving DecidableEq, Repr

def Format.ofString? : String → Option Format
  | "json" => some .json
  | "text" => some .text
  | _ => none

namespace Report

/-! ## JSON lines -/

def kindName : CodeKind → String
  | .fixedSize => "fixed_size"
  | .variableSize => "variable_size"
  | .indexer => "indexer"
  | .counter => "counter"
  | .version => "version"

def valueKindName : ValueKind → String
  | .serialization => "serialization"
  | .frame => "frame"
  | .group => "group"
  | .leaf => "leaf"

/-- Bytes as a JSON string. -/
def bytesText (b : Bytes) : String := Json.Writer.string (Utf8.decodeLenient b)

/-- A member that is left out when it has no value. -/
def optional {α : Type} (name : String) (write : α → String) : Option α → List (String × String)
  | none => []
  | some v => [(name, write v)]

def versionMembers (h : VersionHeader) : List (String × String) :=
  [("protocol", bytesText h.protocol), ("kind", bytesText h.kind), ("digits", bytesText h.digits),
    ("size", toString h.size)]

def codeMembers (h : CodeHeader) : List (String × String) :=
  [("selector", bytesText h.descriptor.selector)] ++
    optional "name" Json.Writer.string h.descriptor.name ++
    [("kind", Json.Writer.string (kindName h.descriptor.kind)), ("digits", bytesText h.digits),
      ("code_length", toString h.codeLength)] ++
    optional "lead_bytes" toString h.leadBytes ++
    optional "size" toString h.size ++
    optional "quadlets" toString h.quadlets ++
    optional "count" toString h.count ++
    optional "index" toString h.index ++
    optional "ondex" toString h.ondex ++
    optional "version" bytesText h.version

def headerText : Header → String
  | .version h => Json.Writer.object (("type", Json.Writer.string "version") :: versionMembers h)
  | .code h => Json.Writer.object (("type", Json.Writer.string "code") :: codeMembers h)

def jsonLine (input : Bytes) (kind : ValueKind) (context : HookContext) (v : Value) : String :=
  Json.Writer.object
    ([("kind", Json.Writer.string (valueKindName kind)), ("depth", toString context.depth)] ++
      optional "group" (fun g => bytesText g.selector) context.group ++
      [("start", toString v.start), ("length", toString v.length), ("header", headerText v.header),
        ("text", bytesText (v.bytes input))])

/-! ## Text lines -/

def treeKindName : ValueKind → String
  | .serialization => "body"
  | .frame => "frame"
  | .group => "group"
  | .leaf => "leaf"

/-- How many frames and groups the value stands under. -/
def nesting (context : HookContext) : Nat := context.depth - 1 + (if context.group.isSome then 1 else 0)

/-- What a line says of a header. -/
def label : Header → String
  | .version h =>
    Utf8.decodeLenient h.protocol ++ " " ++ Utf8.decodeLenient h.kind ++ " (" ++ toString h.size ++ " bytes)"
  | .code h =>
    let field (name : String) (n : Option Nat) := (n.map (fun n => " " ++ name ++ "=" ++ toString n)).getD ""
    Utf8.decodeLenient h.descriptor.selector ++ (h.descriptor.name.map (" " ++ ·)).getD "" ++
      field "count" h.count ++ field "index" h.index ++ field "ondex" h.ondex

def textLine (kind : ValueKind) (context : HookContext) (v : Value) : String :=
  String.ofList (List.replicate (2 * nesting context) ' ') ++ treeKindName kind ++ " " ++ label v.header ++
    " @" ++ toString v.start ++ "+" ++ toString v.length

/-! ## The report -/

def line (format : Format) (input : Bytes) (kind : ValueKind) (context : HookContext) (v : Value) : String :=
  match format with
  | .json => jsonLine input kind context v
  | .text => textLine kind context v

/-- Writes every value as a line. -/
def hooks (format : Format) (input : Bytes) : Hooks Id String :=
  { fallback := fun kind context v => pure (line format input kind context v) }

/-- The lines of a stream, and their number or the error behind them. -/
def render (input : Bytes) (r : Registry) (format : Format) : List String × Except CommandError Nat :=
  let (found, ending, last) := Id.run ((Session.start input r).run (hooks format input))
  let lines := found.map Prod.fst
  match ending with
  | .failed e => (lines, .error (.decode last.state.cursor e))
  | _ => (lines, .ok lines.length)

end Report
end Quadlet
