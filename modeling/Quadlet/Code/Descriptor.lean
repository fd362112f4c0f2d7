import Quadlet.Machine
/-!
# Descriptors — what a code says about the value it starts

A code has a hard part, the selector, and a soft part, digits that its kind gives a meaning.  All sizes count
characters except the lead size, which counts bytes.
-/
namespace Quadlet

/-- What counters start with, and nothing else. -/
def counterStart : UInt8 := '-'.toUInt8

/-- What op codes start with; none of them is read. -/
def opStart : UInt8 := '_'.toUInt8

/-- How the extent of a value follows from its code. -/
inductive CodeKind where
  | fixedSize
  /-- The digits count the quadlets of the body. -/
  | variableSize
  /-- The digits are an index, or an index and another one. -/
  | indexer
  /-- The digits count what follows. -/
  | counter
  /-- The digits are a version. -/
  | version
deriving DecidableEq, Repr

/-- How many grouped values a counter announces for its digits. -/
inductive Multiplier where
  | once
  | twice
  | thrice
  | fourfold
  | twicePlusOne
deriving DecidableEq, Repr

namespace Multiplier

def ofString? : String → Option Multiplier
  | "x1" => some .once
  | "x2" => some .twice
  | "x3" => some .thrice
  | "x4" => some .fourfold
  | "x2+1" => some .twicePlusOne
  | _ => none

def apply (n : Nat) : Multiplier → Nat
  | .once => n
  | .twice => wrap (n * 2)
  | .thrice => wrap (n * 3)
  | .fourfold => wrap (n * 4)
  | .twicePlusOne => wrap (n * 2 + 1)

end Multiplier

/-- An entry of a code table. -/
structure Descriptor where
  /-- The hard part of the code. -/
  selector : Bytes
  name : Option String
  kind : CodeKind
  /-- The hard size. -/
  hs : Nat
  /-- The soft size. -/
  ss : Nat
  /-- How many of an indexer's soft digits are the first index, if not all. -/
  os : Nat
  /-- The full size of the value, if its code fixes it. -/
  fs : Option Nat
  /-- The number of zero bytes before the raw bytes. -/
  ls : Nat
  /-- A counter's multiplier as the table spells it; unknown spellings are found out when a header is read. -/
  multiplier : Option String
  /-- The counter's body is a stream of its own. -/
  frame : Bool
  /-- The context that the counter's group is read in. -/
  context : Option String
deriving DecidableEq, Repr

/-- The code size, a word: sizes whose sum does not fit in one wrap around to less than the hard size. -/
def Descriptor.cs (d : Descriptor) : Nat := wrap (d.hs + d.ss)

end Quadlet
