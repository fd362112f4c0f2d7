import Quadlet.Framing
import Quadlet.Session.Hooks
/-!
# Sessions — a stream read value by value

A stream of the Composable Event Streaming Representation is serializations, counters and primitives one after the
other, and frames and groups of them.  A step closes the frames that are read to their end, takes a value off the
group that waits for one, and reads the value at the cursor under the registry in force: that of its group, else that
of its frame, else that of the session.  The value is handed to its hook, and only then does the cursor move and a
frame or a group open.  After an error, or after the end, a session stays where it is.
-/
namespace Quadlet

/-- What a value opens. -/
inductive Transition where
  | stay
  | openFrame (stop : Nat) (context : Option Registry)
  | openGroup (group : Group)

def State.apply (s : State) : Transition → State
  | .stay => s
  | .openFrame stop context => s.pushFrame stop context
  | .openGroup group => s.pushGroup group

/-- A value found, before the state has moved on. -/
structure Observation where
  kind : ValueKind
  context : HookContext
  value : Value
  /-- The bytes that the cursor moves on by. -/
  consumed : Nat
  transition : Transition

structure Session where
  input : Bytes
  registry : Registry
  state : State
  /-- The version header of the last serialization. -/
  version : Option VersionHeader
  /-- The end or an error was reached. -/
  done : Bool

namespace Session

def start (input : Bytes) (registry : Registry) : Session := ⟨input, registry, .start input.length, none, false⟩

/-! ## One step -/

/-- The context in which the group of a counter is read: the one that it names, else `inherited`. -/
def groupContext (r : Registry) (inherited : Option Registry) (h : CodeHeader) :
    Except DecodeError (Option Registry) :=
  if h.hasContext then (h.context r).map some else .ok inherited

/-- The kind of a value, the bytes that it consumes and what it opens; values inside are read under `inherited`
unless the counter names a context. -/
def classify (r : Registry) (inherited : Option Registry) (v : Value) :
    Except DecodeError (ValueKind × Nat × Transition) :=
  match v.header with
  | .version _ => .ok (.serialization, v.length, .stay)
  | .code h =>
    if h.isFrame then .ok (.frame, h.codeLength, .openFrame v.stop inherited)
    else if h.isGroup then
      (groupContext r inherited h).map fun context =>
        (.group, h.codeLength, .openGroup ⟨h.descriptor.selector, h.count.getD 0, context⟩)
    else .ok (.leaf, v.length, .stay)

/-- The unread bytes of the innermost frame. -/
def span (s : Session) : Bytes := s.input.slice s.state.cursor s.state.frame.stop

/-- The value at the cursor, a frame with bytes to read being open and one value taken off `group`. -/
def observeAt (s : Session) (group : Option Group) : Except DecodeError Observation × Session :=
  let frame := s.state.frame
  let inherited := (group.bind Group.context).or frame.context
  let registry := inherited.getD s.registry
  let found :=
    if group.isNone && frame.mode = .coldStart then Value.sniff registry s.span else Value.coded registry s.span
  match found with
  | .error e => (.error e, s)
  | .ok v =>
    let v := v.shift s.state.cursor
    match classify registry inherited v with
    | .error e => (.error e, s)
    | .ok (kind, consumed, transition) =>
      let s := { s with version := v.header.asVersion?.or s.version }
      (.ok ⟨kind, ⟨frame, s.state.depth, group, s.version⟩, v, consumed, transition⟩, s)

/-- The next value; none at the end of the root. -/
def observe (s : Session) : Except DecodeError (Option Observation) × Session :=
  match s.state.settle with
  | (.error e, state) => (.error e, { s with state })
  | (.ok false, state) => (.ok none, { s with state })
  | (.ok true, state) =>
    let (group, state) := state.popGroup
    let (found, s) := observeAt { s with state } group
    (found.map some, s)

/-- Moves on behind an observed value. -/
def commit (s : Session) (o : Observation) : Except DecodeError Session := do
  let state ← s.state.advance o.consumed
  return { s with state := state.apply o.transition }

def finish (s : Session) : Session := { s with done := true }

/-- What the hook makes of the next value, or the error in its place; none at the end. -/
def next {m : Type → Type} [Monad m] {α : Type} (hooks : Hooks m α) (s : Session) :
    m (Option (Except DecodeError α) × Session) :=
  if s.done then pure (none, s)
  else
    match s.observe with
    | (.error e, s) => pure (some (.error e), s.finish)
    | (.ok none, s) => pure (none, s.finish)
    | (.ok (some o), s) => do
      let result ← hooks.call o.kind o.context o.value
      match s.commit o with
      | .error e => pure (some (.error e), s.finish)
      | .ok s => pure (some (.ok result), s)

/-! ## Many steps -/

/-- How far a session was followed. -/
inductive Ending where
  /-- There may be more. -/
  | unfinished
  | finished
  | failed (e : DecodeError)
deriving DecidableEq, Repr

/-- At most `n` values, each with the state behind it, how the last step ended, and the session then. -/
def pull {m : Type → Type} [Monad m] {α : Type} (hooks : Hooks m α) :
    (n : Nat) → Session → m (List (α × State) × Ending × Session)
  | 0, s => pure ([], .unfinished, s)
  | n + 1, s => do
    let (result, s) ← s.next hooks
    match result with
    | none => pure ([], .finished, s)
    | some (.error e) => pure ([], .failed e, s)
    | some (.ok v) => do
      let (vs, ending, last) ← pull hooks n s
      pure ((v, s.state) :: vs, ending, last)

/-- All values.  Every value takes at least one byte, so one step more than there are bytes is enough. -/
def run {m : Type → Type} [Monad m] {α : Type} (hooks : Hooks m α) (s : Session) :
    m (List (α × State) × Ending × Session) :=
  pull hooks (s.input.length + 1) s

end Session
end Quadlet
