import Quadlet.Code.Descriptor
import Quadlet.Error
import Quadlet.Text.KeyMap
/-!
# Code sets — the codes of one table

A reader knows one or two characters of a code and asks how long its selector is; then it asks for the descriptor.  A
set answers both, and takes a code only if the first answer stays unique: all codes with the same lead have the same
hard size.
-/
namespace Quadlet

structure CodeSet where
  /-- The hard size for each lead: the first characters of a code. -/
  hardSizes : KeyMap Nat
  codes : KeyMap Descriptor

/-- What is wrong with a descriptor by itself, in a table whose leads have `lead` characters. -/
def Descriptor.fault? (d : Descriptor) (lead : Nat) : Option TableError :=
  if !Bytes.isAscii d.selector || d.selector.length ≠ d.hs || d.selector.length < lead then
    some (.hardSize d.selector d.hs)
  else
    match d.fs with
    | none =>
      if d.cs % 4 ≠ 0 then some (.codeSize d.selector d.cs)
      else if d.os > d.ss then some (.otherIndex d.selector)
      else none
    | some fs =>
      if fs % 4 ≠ 0 || fs < d.cs then some (.fullSize d.selector fs)
      else if d.os > d.ss then some (.otherIndex d.selector)
      else none

namespace CodeSet

def empty : CodeSet := ⟨.empty, .empty⟩

/-- The set with one more code. -/
def insert (lead : Nat) (s : CodeSet) (d : Descriptor) : Except TableError CodeSet :=
  match d.fault? lead with
  | some fault => .error fault
  | none =>
    let key := d.selector.take lead
    match s.hardSizes.find? key with
    | none => .ok ⟨s.hardSizes.insert key d.hs, s.codes.insert d.selector d⟩
    | some hs =>
      if hs ≠ d.hs then .error (.hardSizeClash d.selector key)
      else .ok { s with codes := s.codes.insert d.selector d }

end CodeSet
end Quadlet
