import Quadlet.Header
import Quadlet.Text.Utf8
/-!
# Session state — open frames, pending groups and the cursor

A frame is a stretch of the input that is read to its end; a group is a number of values still to be read in a frame.
Frames stand inside each other, and each has its own groups, so both are stacks: the innermost comes first.  The root
frame is the whole input; it is kept apart from the others, so it is always there.
-/
namespace Quadlet

/-- How the values of a frame are read when no group waits for them. -/
inductive FrameMode where
  /-- By their first byte: the whole input. -/
  | coldStart
  /-- By their code: the body of a container. -/
  | coded
deriving DecidableEq, Repr

/-- What a counter announced. -/
structure Group where
  /-- The selector of the counter. -/
  selector : Bytes
  /-- The number of values announced. -/
  count : Nat
  /-- The registry that the values are read under, if not the one of the session. -/
  context : Option Registry

structure Frame where
  /-- The offset just behind the frame. -/
  stop : Nat
  mode : FrameMode
  /-- The registry of the group in which the frame was opened. -/
  context : Option Registry
  /-- The groups that wait for values, the innermost first, each with the number of values that it waits for. -/
  groups : List (Group × Nat) := []

/-- The number of values that the groups of the frame wait for, summed up as a word. -/
def Frame.pending (f : Frame) : Nat := f.groups.foldr (fun g n => wrap (n + g.2)) 0

structure State where
  root : Frame
  /-- The open frames inside the root, the innermost first. -/
  nested : List Frame
  cursor : Nat

namespace State

/-- The state before an input of `length` bytes. -/
def start (length : Nat) : State := ⟨{ stop := length, mode := .coldStart, context := none }, [], 0⟩

/-! ## Looking -/

/-- The number of open frames, the root among them. -/
def depth (s : State) : Nat := s.nested.length + 1

/-- The innermost frame. -/
def frame (s : State) : Frame := s.nested.head?.getD s.root

/-- The open frames, the root first. -/
def frames (s : State) : List Frame := s.root :: s.nested.reverse

/-- Only the root is open, and no group waits. -/
def isBalanced (s : State) : Bool := s.nested.isEmpty && s.root.groups.isEmpty

/-! ## Moving -/

/-- The state with other groups in the innermost frame. -/
def withGroups (s : State) (groups : List (Group × Nat)) : State :=
  match s.nested with
  | [] => { s with root := { s.root with groups } }
  | f :: rest => { s with nested := { f with groups } :: rest }

@[simp] theorem frame_withGroups (s : State) (groups : List (Group × Nat)) :
    (s.withGroups groups).frame = { s.frame with groups } := by
  cases h : s.nested <;> simp [withGroups, frame, h]

@[simp] theorem cursor_withGroups (s : State) (groups : List (Group × Nat)) :
    (s.withGroups groups).cursor = s.cursor := by
  cases h : s.nested <;> simp [withGroups, h]

@[simp] theorem depth_withGroups (s : State) (groups : List (Group × Nat)) :
    (s.withGroups groups).depth = s.depth := by
  cases h : s.nested <;> simp [withGroups, depth, h]

/-- Opens the body of a container. -/
def pushFrame (s : State) (stop : Nat) (context : Option Registry) : State :=
  { s with nested := { stop, mode := .coded, context } :: s.nested }

/-- Closes the innermost frame; the root stays open. -/
def popFrame (s : State) : Except DecodeError (Frame × State) :=
  match s.nested with
  | [] => .error .frameUnderflow
  | f :: rest => .ok (f, { s with nested := rest })

/-- Lets the innermost frame wait for the values of a group.  They are counted, not listed. -/
def pushGroup (s : State) (group : Group) : State :=
  if group.count = 0 then s else s.withGroups ((group, group.count) :: s.frame.groups)

/-- Takes one value off the innermost group of the innermost frame. -/
def popGroup (s : State) : Option Group × State :=
  match s.frame.groups with
  | [] => (none, s)
  | (group, remaining) :: rest =>
    if remaining ≤ 1 then (some group, s.withGroups rest)
    else (some group, s.withGroups ((group, remaining - 1) :: rest))

/-- Moves the cursor on, not beyond the innermost frame.  What reaches beyond it may wrap around to before its end, and
moves the cursor back. -/
def advance (s : State) (length : Nat) : Except DecodeError State :=
  let next := s.cursor + length
  if next ≤ s.frame.stop then .ok { s with cursor := next }
  else if wrap next ≤ s.frame.stop then .ok { s with cursor := wrap next }
  else
    let available := wrapSub s.frame.stop s.cursor
    .error (.shortage available (wrapSub length available))

/-- What is left of the nested frames when those that end at the cursor are closed, and whether the innermost frame
left has bytes to read.  A frame is not closed while a group waits in it. -/
def settleNested (root : Frame) (cursor : Nat) : List Frame → Except DecodeError Bool × List Frame
  | [] =>
    if cursor < root.stop then (.ok true, [])
    else if root.pending > 0 then (.error (.unclosedGroup root.pending), [])
    else (.ok false, [])
  | f :: rest =>
    if cursor < f.stop then (.ok true, f :: rest)
    else if f.pending > 0 then (.error (.unclosedGroup f.pending), f :: rest)
    else settleNested root cursor rest

/-- Closes the frames that are read to their end.  False when the root is. -/
def settle (s : State) : Except DecodeError Bool × State :=
  let (result, nested) := settleNested s.root s.cursor s.nested
  (result, { s with nested })

end State

/-! ## Showing -/

/-- The name of a registry, or that there is none. -/
def describeContext : Option Registry → String
  | none => "None"
  | some r => "Some(" ++ Quoted.string r.name ++ ")"

def Group.describe (g : Group) : String :=
  "Group \x7b selector: " ++ Quoted.string (Utf8.decodeLenient g.selector) ++ ", count: " ++ toString g.count ++
    ", context: " ++ describeContext g.context ++ " \x7d"

def FrameMode.describe : FrameMode → String
  | .coldStart => "ColdStart"
  | .coded => "Coded"

/-- The groups are listed with the innermost last. -/
def Frame.describe (f : Frame) : String :=
  let groups := f.groups.reverse.map (fun g => "(" ++ g.1.describe ++ ", " ++ toString g.2 ++ ")")
  "Frame \x7b end: " ++ toString f.stop ++ ", mode: " ++ f.mode.describe ++
    ", context: " ++ describeContext f.context ++ ", groups: [" ++ String.intercalate ", " groups ++ "] \x7d"

def State.describe (s : State) : String :=
  "DecoderState \x7b root: " ++ s.root.describe ++
    ", nested: [" ++ String.intercalate ", " (s.nested.reverse.map Frame.describe) ++
    "], cursor: " ++ toString s.cursor ++ " \x7d"

end Quadlet
