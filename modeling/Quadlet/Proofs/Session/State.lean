import Mathlib.Algebra.GroupWithZero.Nat
import Quadlet.Session.State
/-!
# Laws of the session state — what settling, taking from a group and opening do

A state is a cursor and a stack of frames, the innermost first and the root last.  Settling takes the exhausted frames
off the stack and then looks at one frame only (`Settles`, `settle_eq`), so a step depends on what is left; taking a
value off a group changes the groups of the innermost frame and nothing else (`popGroup_eq`).
-/
namespace Quadlet

/-- No bytes are left, and no group waits. -/
def Frame.Exhausted (f : Frame) (cursor : Nat) : Prop := f.stop ≤ cursor ∧ f.pending = 0

/-- The number of values that the groups of the frame wait for. -/
def Frame.outstanding (f : Frame) : Nat := (f.groups.map Prod.snd).sum

/-- What a word holds of the number of values that are waited for. -/
theorem Frame.pending_eq (f : Frame) : f.pending = f.outstanding % 2 ^ 64 := by
  obtain ⟨stop, mode, context, groups⟩ := f
  induction groups with
  | nil => rfl
  | cons g rest ih =>
    show (Frame.pending ⟨stop, mode, context, rest⟩ + g.2) % 2 ^ 64 =
      (g.2 + Frame.outstanding ⟨stop, mode, context, rest⟩) % 2 ^ 64
    rw [ih, Nat.add_comm g.2, Nat.mod_add_mod]

/-- When every group on the list waits for a value, none is waited for only if there is no group. -/
theorem Frame.outstanding_eq_zero {f : Frame} (hpos : ∀ g ∈ f.groups, 0 < g.2) : f.outstanding = 0 ↔ f.groups = [] := by
  obtain ⟨stop, mode, context, groups⟩ := f
  cases groups with
  | nil => exact ⟨fun _ => rfl, fun _ => rfl⟩
  | cons g rest =>
    have hg := hpos g List.mem_cons_self
    refine ⟨fun h => ?_, fun h => (by cases h)⟩
    have hsum : g.2 + (rest.map Prod.snd).sum = 0 := h
    omega

/-- The groups after one value is taken off the innermost. -/
def popped : List (Group × Nat) → List (Group × Nat)
  | [] => []
  | (group, remaining) :: rest => if remaining ≤ 1 then rest else (group, remaining - 1) :: rest

namespace State

/-! ## The stack -/

/-- The open frames, the innermost first and the root last. -/
def stack (s : State) : List Frame := s.nested ++ [s.root]

theorem stack_eq (s : State) : s.stack = s.frame :: s.stack.tail := by
  cases h : s.nested <;> simp [stack, frame, h]

theorem frame_mem_stack (s : State) : s.frame ∈ s.stack := by
  rw [stack_eq]
  exact List.mem_cons_self

theorem root_mem_stack (s : State) : s.root ∈ s.stack := List.mem_append_right _ List.mem_cons_self

theorem length_stack (s : State) : s.stack.length = s.depth := by rw [stack, List.length_append, depth]; rfl

theorem withGroups_self (s : State) : s.withGroups s.frame.groups = s := by
  obtain ⟨root, nested, cursor⟩ := s
  cases nested <;> rfl

theorem stack_withGroups (s : State) (groups : List (Group × Nat)) :
    (s.withGroups groups).stack = { s.frame with groups } :: s.stack.tail := by
  cases h : s.nested <;> simp [stack, withGroups, frame, h]

theorem root_withGroups (s : State) (groups : List (Group × Nat)) :
    (s.withGroups groups).root.stop = s.root.stop ∧ (s.withGroups groups).root.mode = s.root.mode ∧
      (s.withGroups groups).root.context = s.root.context := by
  cases h : s.nested <;> simp [withGroups, h]

theorem popGroup_eq (s : State) :
    s.popGroup = ((s.frame.groups.head?).map Prod.fst, s.withGroups (popped s.frame.groups)) := by
  unfold popGroup
  split
  · next h =>
    have hself := s.withGroups_self
    rw [h] at hself
    rw [h, popped, hself]
    rfl
  · next group remaining rest h =>
    rw [h, popped]
    split <;> rfl

theorem pushGroup_eq (s : State) (group : Group) :
    s.pushGroup group =
      s.withGroups (if group.count = 0 then s.frame.groups else (group, group.count) :: s.frame.groups) := by
  unfold pushGroup
  split
  · exact s.withGroups_self.symm
  · rfl

/-! ## The next value -/

/-- The group that the next value belongs to. -/
def group (s : State) : Option Group := (s.frame.groups.head?).map Prod.fst

/-- The registry that the next value is read under, if not the one of the session. -/
def inherited (s : State) : Option Registry := (s.group.bind Group.context).or s.frame.context

/-- The state behind a value that takes `n` bytes, before the value opens anything. -/
def taken (s : State) (n : Nat) : State := { s.withGroups (popped s.frame.groups) with cursor := s.cursor + n }

@[simp] theorem frame_taken (s : State) (n : Nat) :
    (s.taken n).frame = { s.frame with groups := popped s.frame.groups } := frame_withGroups _ _

theorem stack_taken (s : State) (n : Nat) :
    (s.taken n).stack = { s.frame with groups := popped s.frame.groups } :: s.stack.tail :=
  s.stack_withGroups _

theorem root_taken (s : State) (n : Nat) :
    (s.taken n).root.stop = s.root.stop ∧ (s.taken n).root.mode = s.root.mode ∧
      (s.taken n).root.context = s.root.context := s.root_withGroups _

/-! ## Settling -/

/-- The state `t` is `s` with the frames `closed` taken off its stack, all of them exhausted. -/
structure Settles (s t : State) (closed : List Frame) : Prop where
  nested_eq : s.nested = closed ++ t.nested
  exhausted : ∀ f ∈ closed, f.Exhausted s.cursor
  root_eq : t.root = s.root
  cursor_eq : t.cursor = s.cursor

variable {s t : State} {closed : List Frame}

theorem settleNested_append (root : Frame) (cursor : Nat) (rest : List Frame) :
    ∀ closed : List Frame, (∀ f ∈ closed, f.Exhausted cursor) →
      settleNested root cursor (closed ++ rest) = settleNested root cursor rest
  | [], _ => rfl
  | f :: closed, h => by
    obtain ⟨hstop, hpending⟩ := h f List.mem_cons_self
    rw [List.cons_append, settleNested, if_neg (Nat.not_lt.2 hstop), if_neg (by omega)]
    exact settleNested_append root cursor rest closed (fun g hg => h g (List.mem_cons_of_mem _ hg))

theorem Settles.settle_eq (h : Settles s t closed) : s.settle = t.settle := by
  obtain ⟨root, nested, cursor⟩ := t
  obtain ⟨hnested, hexhausted, rfl, rfl⟩ := h
  unfold settle
  rw [hnested, settleNested_append _ _ _ _ hexhausted]

theorem settle_of_lt (h : s.cursor < s.frame.stop) : s.settle = (.ok true, s) := by
  obtain ⟨root, nested, cursor⟩ := s
  cases nested with
  | nil => simp only [settle, settleNested, if_pos (show cursor < root.stop from h)]
  | cons f rest => simp only [settle, settleNested, if_pos (show cursor < f.stop from h)]

theorem settle_of_pending (hstop : s.frame.stop ≤ s.cursor) (hpending : 0 < s.frame.pending) :
    s.settle = (.error (.unclosedGroup s.frame.pending), s) := by
  obtain ⟨root, nested, cursor⟩ := s
  cases nested with
  | nil =>
    simp only [settle, settleNested, if_neg (Nat.not_lt.2 (show root.stop ≤ cursor from hstop)),
      if_pos (show root.pending > 0 from hpending)]
    rfl
  | cons f rest =>
    simp only [settle, settleNested, if_neg (Nat.not_lt.2 (show f.stop ≤ cursor from hstop)),
      if_pos (show f.pending > 0 from hpending)]
    rfl

theorem settle_of_root (hnested : s.nested = []) (hroot : s.root.Exhausted s.cursor) : s.settle = (.ok false, s) := by
  obtain ⟨root, nested, cursor⟩ := s
  obtain ⟨hstop, hpending⟩ := hroot
  obtain rfl : nested = [] := hnested
  simp only [settle, settleNested, if_neg (Nat.not_lt.2 hstop), if_neg (Nat.not_lt.2 (Nat.le_of_eq hpending))]

/-- **How settling ends**: at a frame with bytes to read, at one whose groups wait in vain, or at the root's end. -/
theorem settle_cases (s : State) : ∃ closed t, Settles s t closed ∧
    ((t.cursor < t.frame.stop ∧ s.settle = (.ok true, t)) ∨
      (t.frame.stop ≤ t.cursor ∧ 0 < t.frame.pending ∧ s.settle = (.error (.unclosedGroup t.frame.pending), t)) ∨
      (t.nested = [] ∧ t.root.Exhausted t.cursor ∧ s.settle = (.ok false, t))) := by
  obtain ⟨root, nested, cursor⟩ := s
  induction nested with
  | nil =>
    refine ⟨[], ⟨root, [], cursor⟩, ⟨rfl, fun _ h => (by cases h), rfl, rfl⟩, ?_⟩
    rcases Nat.lt_or_ge cursor root.stop with hlt | hstop
    · exact .inl ⟨hlt, settle_of_lt hlt⟩
    rcases Nat.eq_zero_or_pos root.pending with hpending | hpending
    · exact .inr (.inr ⟨rfl, ⟨hstop, hpending⟩, settle_of_root rfl ⟨hstop, hpending⟩⟩)
    · exact .inr (.inl ⟨hstop, hpending, settle_of_pending hstop hpending⟩)
  | cons f rest ih =>
    by_cases hf : f.Exhausted cursor
    · obtain ⟨closed, t, ⟨hnested, hexhausted, hroot, hcursor⟩, hend⟩ := ih
      have hall : ∀ g ∈ f :: closed, g.Exhausted cursor := by
        intro g hg
        rcases List.mem_cons.1 hg with rfl | hg
        · exact hf
        · exact hexhausted g hg
      have hskip : State.settle ⟨root, f :: rest, cursor⟩ = State.settle ⟨root, rest, cursor⟩ :=
        Settles.settle_eq ⟨rfl, fun g hg => (List.mem_singleton.1 hg) ▸ hf, rfl, rfl⟩
      exact ⟨f :: closed, t, ⟨congrArg (f :: ·) hnested, hall, hroot, hcursor⟩, by rw [hskip]; exact hend⟩
    · refine ⟨[], ⟨root, f :: rest, cursor⟩, ⟨rfl, fun _ h => (by cases h), rfl, rfl⟩, ?_⟩
      rcases Nat.lt_or_ge cursor f.stop with hlt | hstop
      · exact .inl ⟨hlt, settle_of_lt hlt⟩
      · have hpending : 0 < f.pending := Nat.pos_of_ne_zero (fun h => hf ⟨hstop, h⟩)
        exact .inr (.inl ⟨hstop, hpending, settle_of_pending hstop hpending⟩)

theorem settles_of_settle {result : Except DecodeError Bool} (h : s.settle = (result, t)) :
    ∃ closed, Settles s t closed := by
  obtain ⟨closed, u, hu, ⟨-, he⟩ | ⟨-, -, he⟩ | ⟨-, -, he⟩⟩ := s.settle_cases <;> rw [he] at h <;> cases h <;>
    exact ⟨closed, hu⟩

theorem settle_eq_true : s.settle = (.ok true, t) ↔ ∃ closed, Settles s t closed ∧ t.cursor < t.frame.stop := by
  constructor
  · intro h
    obtain ⟨closed, u, hu, ⟨hlt, he⟩ | ⟨-, -, he⟩ | ⟨-, -, he⟩⟩ := s.settle_cases <;> rw [he] at h <;> cases h
    exact ⟨closed, hu, hlt⟩
  · rintro ⟨closed, ht, hlt⟩
    rw [ht.settle_eq, settle_of_lt hlt]

theorem settle_eq_false :
    s.settle = (.ok false, t) ↔ ∃ closed, Settles s t closed ∧ t.nested = [] ∧ t.root.Exhausted t.cursor := by
  constructor
  · intro h
    obtain ⟨closed, u, hu, ⟨-, he⟩ | ⟨-, -, he⟩ | ⟨hnested, hroot, he⟩⟩ := s.settle_cases <;> rw [he] at h <;> cases h
    exact ⟨closed, hu, hnested, hroot⟩
  · rintro ⟨closed, ht, hnested, hroot⟩
    rw [ht.settle_eq, settle_of_root hnested hroot]

theorem settle_eq_error {e : DecodeError} :
    s.settle = (.error e, t) ↔ ∃ closed, Settles s t closed ∧ t.frame.stop ≤ t.cursor ∧ 0 < t.frame.pending ∧
      e = .unclosedGroup t.frame.pending := by
  constructor
  · intro h
    obtain ⟨closed, u, hu, ⟨-, he⟩ | ⟨hstop, hpending, he⟩ | ⟨-, -, he⟩⟩ := s.settle_cases <;> rw [he] at h <;> cases h
    exact ⟨closed, hu, hstop, hpending, rfl⟩
  · rintro ⟨closed, ht, hstop, hpending, rfl⟩
    rw [ht.settle_eq, settle_of_pending hstop hpending]

theorem Settles.stack_eq (h : Settles s t closed) : s.stack = closed ++ t.stack := by
  rw [stack, stack, h.nested_eq, h.root_eq, List.append_assoc]

end State
end Quadlet
