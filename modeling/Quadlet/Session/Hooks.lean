import Quadlet.Session.State
/-!
# Hooks — what a session does with each value

A session calls one function for every value that it finds: the one for the kind of the value if there is one, and
else the fallback, which is told the kind.  The functions may have effects of their own, in any monad; of the session
they see a copy.
-/
namespace Quadlet

inductive ValueKind where
  /-- A serialization with a version string. -/
  | serialization
  /-- A counter whose body is a stream of its own. -/
  | frame
  /-- A counter that announces grouped values. -/
  | group
  | leaf
deriving DecidableEq, Repr

/-- Where a value stands. -/
structure HookContext where
  /-- The innermost frame. -/
  frame : Frame
  /-- The number of open frames, the root among them. -/
  depth : Nat
  /-- The group that the value belongs to. -/
  group : Option Group
  /-- The last version header up to this value. -/
  version : Option VersionHeader

structure Hooks (m : Type → Type) (α : Type) where
  fallback : ValueKind → HookContext → Value → m α
  serialization : Option (HookContext → Value → m α) := none
  frame : Option (HookContext → Value → m α) := none
  group : Option (HookContext → Value → m α) := none
  leaf : Option (HookContext → Value → m α) := none

namespace Hooks

variable {m : Type → Type} {α : Type}

/-- The function for a kind, if it has one of its own. -/
def own (h : Hooks m α) : ValueKind → Option (HookContext → Value → m α)
  | .serialization => h.serialization
  | .frame => h.frame
  | .group => h.group
  | .leaf => h.leaf

def call (h : Hooks m α) (kind : ValueKind) (context : HookContext) (v : Value) : m α :=
  match h.own kind with
  | some hook => hook context v
  | none => h.fallback kind context v

/-- Every value, as it is. -/
def passthrough : Hooks Id Value := { fallback := fun _ _ v => v }

end Hooks
end Quadlet
