import Quadlet.Table.KeriV1
import Quadlet.Table.Reader
import Quadlet.Text.Quoted
/-!
# Registries — which codes are in force

A registry is a set of tables seen through one view: its primitives come from the matter table or from the indexer
table, its counters are the same in both.  A counter may name a context, another registry in which its group is read:
the two views of the registry itself are always contexts of it, others are registered by name.
-/
namespace Quadlet

/-- The table that primitives are read from. -/
inductive View where
  | matter
  | indexer
deriving DecidableEq, Repr

def View.name : View → String
  | .matter => "Matter"
  | .indexer => "Indexer"

structure Registry where
  tables : Tables
  view : View
  name : String
  /-- The registered contexts; `none` for a registry that has no contexts, not even its own views. -/
  contexts : Option (List (String × Registry))

namespace Registry

/-! ## Making registries -/

/-- The tables under a name, with primitives from the matter table and no registered contexts. -/
def ofTables (tables : Tables) (name : String) : Registry := ⟨tables, .matter, name, some []⟩

def keriV1 : Registry := ofTables KeriV1.tables "KERI v1"

/-- The registry of three table documents. -/
def ofJson (sizes codex counter : String) : Except TableError Registry :=
  (Tables.ofJson sizes codex counter).map (ofTables · "CodeTable")

def named (r : Registry) (name : String) : Registry := { r with name }

def withView (r : Registry) (view : View) : Registry := { r with view }

/-- The registry with one more context, in place of any of that name. -/
def withContext (r : Registry) (name : String) (context : Registry) : Registry :=
  { r with contexts := r.contexts.map (fun cs => (name, context) :: cs.filter (fun c => c.1 != name)) }

/-- The same codes, for counters that name no context. -/
def withoutContexts (r : Registry) : Registry := { r with contexts := none }

/-! ## Looking up -/

/-- The codes of primitives in this view. -/
def primitives (r : Registry) : CodeSet :=
  match r.view with
  | .matter => r.tables.matter
  | .indexer => r.tables.indexer

/-- The hard size of the primitives that start with a character. -/
def primitiveHardSize (r : Registry) (first : UInt8) : Option Nat := r.primitives.hardSizes.find? [first]

/-- The hard size of the counters that start with two characters. -/
def counterHardSize (r : Registry) (lead : Bytes) : Option Nat := r.tables.counter.hardSizes.find? lead

/-- A selector that starts like a counter is one, whatever table it stands in. -/
def lookup (r : Registry) (selector : Bytes) : Except DecodeError Descriptor :=
  if selector.head? = some counterStart then
    match r.tables.counter.codes.find? selector with
    | some d => .ok d
    | none => .error (.unknownCode (.code r.name "Counter") selector)
  else
    match r.primitives.codes.find? selector with
    | some d => .ok d
    | none => .error (.unknownCode (.code r.name r.view.name) selector)

/-- The registry of a context. -/
def context (r : Registry) (name : String) : Except DecodeError Registry :=
  match r.contexts with
  | none => .error (.unknownCode (.contexts r.name) (Bytes.ofString name))
  | some contexts =>
    if name = View.matter.name then .ok (r.withView .matter)
    else if name = View.indexer.name then .ok (r.withView .indexer)
    else
      match contexts.lookup name with
      | some context => .ok context
      | none => .error (.unknownCode (.context r.name) (Bytes.ofString name))

/-- The size of the selector at the start of a candidate. -/
def selectorSize (r : Registry) (candidate : Bytes) : Except DecodeError Nat :=
  match candidate with
  | [] => .error (.shortage 0 1)
  | first :: rest =>
    if first = counterStart then
      match rest with
      | [] => .error (.shortageOf 1 2)
      | second :: _ =>
        match r.counterHardSize [first, second] with
        | some hs => .ok hs
        | none => .error (.unknownCode .counterHardSize [first, second])
    else if first = opStart then .error (.unexpectedOpCode [first])
    else
      match r.primitiveHardSize first with
      | some hs => .ok hs
      | none => .error (.unexpectedCode [first])

/-! ## Showing -/

/-- The descriptors of the view's primitives, then those of the counters. -/
def descriptors (r : Registry) : List Descriptor := r.primitives.codes.values ++ r.tables.counter.codes.values

/-- A summary for diagnostics: the sizes of the tables, and the names of the registered contexts in order. -/
def describe (r : Registry) : String :=
  let names := ((r.contexts.getD []).map Prod.fst).mergeSort (fun a b => a ≤ b)
  "CodeTable \x7b name: " ++ Quoted.string r.name ++ ", primitives: " ++ r.view.name ++
    ", matter: " ++ toString r.tables.matter.codes.size ++
    ", indexer: " ++ toString r.tables.indexer.codes.size ++
    ", counter: " ++ toString r.tables.counter.codes.size ++
    ", contexts: [" ++ String.intercalate ", " (names.map Quoted.string) ++ "] \x7d"

end Registry
end Quadlet
