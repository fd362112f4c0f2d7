import Quadlet.Code.Set
/-!
# Table documents — what code tables are made of

Three documents describe a set of tables: the sizes of each code, the names of the codes, and what counters count.
`Tables.ofDocuments` puts them together.  Each table is walked in the order of its codes, the tables in the order
matter, indexer, counter; the first fault found is the one reported.
-/
namespace Quadlet

/-- The sizes of one code, each a word. -/
structure SizeEntry where
  hs : UInt64
  ss : UInt64
  os : UInt64 := 0
  fs : Option UInt64
  ls : UInt64 := 0
deriving DecidableEq, Repr

structure Sizes where
  matter : KeyMap SizeEntry := .empty
  indexer : KeyMap SizeEntry := .empty
  counter : KeyMap SizeEntry := .empty

/-- The names of the codes. -/
structure Codex where
  matter : KeyMap String := .empty
  indexer : KeyMap String := .empty
  counter : KeyMap String := .empty

/-- What a counter counts, beside its sizes. -/
structure CounterEntry where
  name : Option String := none
  multiplier : Option String := none
  frame : Bool := false
  version : Bool := false
  context : Option String := none
deriving DecidableEq, Repr

/-- The codes of primitives, those of indexed signatures, and the counters. -/
structure Tables where
  matter : CodeSet
  indexer : CodeSet
  counter : CodeSet

/-- The descriptor of a code that is no counter. -/
def SizeEntry.primitive (e : SizeEntry) (code : Bytes) (name : Option String) (kind : CodeKind) : Descriptor where
  selector := code
  name := name
  kind := kind
  hs := e.hs.toNat
  ss := e.ss.toNat
  os := e.os.toNat
  fs := e.fs.map UInt64.toNat
  ls := e.ls.toNat
  multiplier := none
  frame := false
  context := none

namespace Tables

def matterDescriptor (codex : Codex) (code : Bytes) (e : SizeEntry) : Except TableError Descriptor :=
  .ok (e.primitive code (codex.matter.find? code) (if e.fs.isSome then .fixedSize else .variableSize))

def indexerDescriptor (codex : Codex) (code : Bytes) (e : SizeEntry) : Except TableError Descriptor :=
  if e.fs.isNone then .error (.indexerWithoutFullSize code)
  else .ok (e.primitive code (codex.indexer.find? code) .indexer)

/-- A counter takes the name of its own entry before the one of the codex. -/
def counterDescriptor (codex : Codex) (counters : KeyMap CounterEntry) (code : Bytes) (e : SizeEntry) :
    Except TableError Descriptor :=
  if code.head? ≠ some counterStart || code.length < 2 then .error (.counterWithoutDash code)
  else
    let entry := (counters.find? code).getD {}
    if entry.frame && entry.multiplier.isSome then .error (.frameAndGroup code)
    else .ok
      { e.primitive code (entry.name.or (codex.counter.find? code)) (if entry.version then .version else .counter) with
        multiplier := entry.multiplier
        frame := entry.frame
        context := entry.context }

/-- The set of the codes that a section describes, with leads of `lead` characters. -/
def codeSet (lead : Nat) (describe : Bytes → SizeEntry → Except TableError Descriptor)
    (entries : List (Bytes × SizeEntry)) : Except TableError CodeSet :=
  entries.foldlM (fun s e => do s.insert lead (← describe e.1 e.2)) .empty

def ofDocuments (sizes : Sizes) (codex : Codex) (counters : KeyMap CounterEntry) : Except TableError Tables := do
  let matter ← codeSet 1 (matterDescriptor codex) sizes.matter.entries
  let indexer ← codeSet 1 (indexerDescriptor codex) sizes.indexer.entries
  let counter ← codeSet 2 (counterDescriptor codex counters) sizes.counter.entries
  match counters.keys.find? (fun code => (sizes.counter.find? code).isNone) with
  | some code => .error (.counterWithoutSizes code)
  | none => .ok ⟨matter, indexer, counter⟩

end Tables
end Quadlet
