import Quadlet.Json.Record
import Quadlet.Table.Document
/-!
# Reading table documents — the JSON form of the three documents

Each document is read whole before any table is built, in the order sizes, codex, counter, so a text that is not read
is reported before any fault of the tables.
-/
namespace Quadlet

open Json (Record Tree)

def SizeEntry.ofTree? (t : Tree) : Option SizeEntry := do
  let r ← Record.ofTree? ["hs", "ss", "os", "fs", "ls"] t
  let hs ← r.required 0 Tree.word?
  let ss ← r.required 1 Tree.word?
  let os ← r.defaulted 2 0 Tree.word?
  let fs ← r.nullable 3 Tree.word?
  let ls ← r.defaulted 4 0 Tree.word?
  return { hs, ss, os, fs, ls }

def Sizes.ofTree? (t : Tree) : Option Sizes := do
  let r ← Record.ofTree? ["Matter", "Indexer", "Counter"] t
  let matter ← r.defaulted 0 .empty (Tree.map? SizeEntry.ofTree?)
  let indexer ← r.defaulted 1 .empty (Tree.map? SizeEntry.ofTree?)
  let counter ← r.defaulted 2 .empty (Tree.map? SizeEntry.ofTree?)
  return { matter, indexer, counter }

/-- Names of other tables than the three are read, and not kept. -/
def Codex.ofTree? (t : Tree) : Option Codex := do
  let tables ← Tree.map? (Tree.map? Tree.text?) t
  let namesOf (table : String) := (tables.find? (Bytes.ofString table)).getD .empty
  return { matter := namesOf "Matter", indexer := namesOf "Indexer", counter := namesOf "Counter" }

def CounterEntry.ofTree? (t : Tree) : Option CounterEntry := do
  let r ← Record.ofTree? ["name", "repeat", "frame", "version", "context"] t
  let name ← r.nullable 0 Tree.text?
  let multiplier ← r.nullable 1 Tree.text?
  let frame ← r.defaulted 2 false Tree.bool?
  let version ← r.defaulted 3 false Tree.bool?
  let context ← r.nullable 4 Tree.text?
  return { name, multiplier, frame, version, context }

/-- The counters of the current version.  Those of another version are read, and not kept. -/
def CounterEntry.mapOfTree? (t : Tree) : Option (KeyMap CounterEntry) := do
  let r ← Record.ofTree? ["Counter", "AltCounter"] t
  let counters ← r.defaulted 0 .empty (Tree.map? CounterEntry.ofTree?)
  let _ ← r.defaulted 1 .empty (Tree.map? CounterEntry.ofTree?)
  return counters

/-- What a text says, or the complaint that the document is malformed. -/
def Document.read {α : Type} (d : Document) (read : Tree → Option α) (text : String) : Except TableError α :=
  match (Tree.ofString? text).bind read with
  | none => .error (.malformed d)
  | some value => .ok value

/-- The tables that three JSON texts describe. -/
def Tables.ofJson (sizes codex counter : String) : Except TableError Tables := do
  let sizes ← Document.sizes.read Sizes.ofTree? sizes
  let codex ← Document.codex.read Codex.ofTree? codex
  let counters ← Document.counter.read CounterEntry.mapOfTree? counter
  ofDocuments sizes codex counters

end Quadlet
