import Quadlet.Proofs.Session.Reach
/-!
# Markers — counted groups stand for a plain stack

A counter that announces so many values puts so many markers on a stack, and every value takes one off: that is how
groups are meant.  The state counts instead of listing.  Here the two are run side by side (`perform`): as long as
frames are opened where they may be (`Admits`), the counted groups say the same as the markers that they stand for
(`marked_perform`), and the answers are the same (`performAll_refines`).  Only the sum of what is counted is a word, so
it is the height of the stack up to multiples of 2^64, and so is the cursor, which moves back when it wraps around
(`not_performAll_wrapped`).
-/
namespace Quadlet

/-! ## The machine with plain stacks -/

/-- A frame with its markers, the next one to be taken first. -/
structure MarkedFrame where
  stop : Nat
  mode : FrameMode
  context : Option Registry
  markers : List Group := []

structure MarkedState where
  root : MarkedFrame
  nested : List MarkedFrame
  cursor : Nat

/-- What a session asks of its state. -/
inductive Operation where
  | pushFrame (stop : Nat) (context : Option Registry)
  | popFrame
  | pushGroup (group : Group)
  | popGroup
  | advance (length : Nat)

/-- What it is answered; `φ` are the frames. -/
inductive Reply (φ : Type) where
  | done
  | frame (f : φ)
  | group (g : Option Group)
  | failed (e : DecodeError)

def Reply.map {φ ψ : Type} (f : φ → ψ) : Reply φ → Reply ψ
  | .done => .done
  | .frame g => .frame (f g)
  | .group g => .group g
  | .failed e => .failed e

namespace MarkedState

def start (length : Nat) : MarkedState := ⟨{ stop := length, mode := .coldStart, context := none }, [], 0⟩

def frame (m : MarkedState) : MarkedFrame := m.nested.head?.getD m.root

def frames (m : MarkedState) : List MarkedFrame := m.root :: m.nested.reverse

def withMarkers (m : MarkedState) (markers : List Group) : MarkedState :=
  match m.nested with
  | [] => { m with root := { m.root with markers } }
  | f :: rest => { m with nested := { f with markers } :: rest }

/-- A group is its marker as often as it announces values; a value takes the marker on top. -/
def perform (m : MarkedState) : Operation → Reply MarkedFrame × MarkedState
  | .pushFrame stop context => (.done, { m with nested := { stop, mode := .coded, context } :: m.nested })
  | .popFrame =>
    match m.nested with
    | [] => (.failed .frameUnderflow, m)
    | f :: rest => (.frame f, { m with nested := rest })
  | .pushGroup group => (.done, m.withMarkers (List.replicate group.count group ++ m.frame.markers))
  | .popGroup => (.group m.frame.markers.head?, m.withMarkers m.frame.markers.tail)
  | .advance length =>
    if m.frame.stop < (m.cursor + length) % 2 ^ 64 then (.failed (.shortageOf (m.frame.stop - m.cursor) length), m)
    else (.done, { m with cursor := (m.cursor + length) % 2 ^ 64 })

def performAll (m : MarkedState) : List Operation → List (Reply MarkedFrame) × MarkedState
  | [] => ([], m)
  | op :: ops =>
    let (replies, last) := (m.perform op).2.performAll ops
    ((m.perform op).1 :: replies, last)

end MarkedState

/-! ## The machine that counts -/

namespace State

/-- One operation; one that fails answers with its error, and the state is as it was. -/
def perform (s : State) : Operation → Reply Frame × State
  | .pushFrame stop context => (.done, s.pushFrame stop context)
  | .popFrame =>
    match s.popFrame with
    | .ok (f, t) => (.frame f, t)
    | .error e => (.failed e, s)
  | .pushGroup group => (.done, s.pushGroup group)
  | .popGroup => (.group s.popGroup.1, s.popGroup.2)
  | .advance length =>
    match s.advance length with
    | .ok t => (.done, t)
    | .error e => (.failed e, s)

def performAll (s : State) : List Operation → List (Reply Frame) × State
  | [] => ([], s)
  | op :: ops =>
    let (replies, last) := (s.perform op).2.performAll ops
    ((s.perform op).1 :: replies, last)

end State

/-- A frame is opened between the cursor and the end of the frame around it, and a length is a word. -/
def Operation.AdmittedAt (s : State) : Operation → Prop
  | .pushFrame stop _ => s.cursor ≤ stop ∧ stop ≤ s.frame.stop
  | .advance length => length < 2 ^ 64
  | _ => True

/-- So are all of the operations, one after the other. -/
def State.Admits (s : State) : List Operation → Prop
  | [] => True
  | op :: ops => op.AdmittedAt s ∧ (s.perform op).2.Admits ops

/-! ## What counted groups stand for -/

/-- The markers that the groups of a frame stand for. -/
def markersOf (groups : List (Group × Nat)) : List Group := groups.flatMap (fun g => List.replicate g.2 g.1)

def Frame.marked (f : Frame) : MarkedFrame := ⟨f.stop, f.mode, f.context, markersOf f.groups⟩

def State.marked (s : State) : MarkedState := ⟨s.root.marked, s.nested.map Frame.marked, s.cursor⟩

theorem markersOf_cons (g : Group × Nat) (groups : List (Group × Nat)) :
    markersOf (g :: groups) = List.replicate g.2 g.1 ++ markersOf groups := rfl

theorem length_markersOf (f : Frame) : f.marked.markers.length = f.outstanding := by
  obtain ⟨stop, mode, context, groups⟩ := f
  induction groups with
  | nil => rfl
  | cons g rest ih =>
    show (markersOf (g :: rest)).length = g.2 + Frame.outstanding ⟨stop, mode, context, rest⟩
    rw [markersOf_cons, List.length_append, List.length_replicate, ← ih]
    rfl

/-- The marker on top is that of the innermost group, and to take it is to count it down. -/
theorem markersOf_popped : ∀ {groups : List (Group × Nat)}, (∀ g ∈ groups, 1 ≤ g.2) →
    (markersOf groups).head? = groups.head?.map Prod.fst ∧ markersOf (popped groups) = (markersOf groups).tail
  | [], _ => ⟨rfl, rfl⟩
  | (group, 0) :: _, h => absurd (h (group, 0) List.mem_cons_self) (Nat.not_succ_le_zero 0)
  | (_, 1) :: _, _ => ⟨rfl, rfl⟩
  | (_, _ + 2) :: _, _ => ⟨rfl, rfl⟩

theorem markersOf_eq_nil {groups : List (Group × Nat)} (h : ∀ g ∈ groups, 1 ≤ g.2) :
    markersOf groups = [] ↔ groups = [] := by
  rw [← List.head?_eq_none_iff, (markersOf_popped h).1, Option.map_eq_none_iff, List.head?_eq_none_iff]

namespace State

variable {s : State} {length : Nat}

theorem frame_marked (s : State) : s.marked.frame = s.frame.marked := by
  obtain ⟨root, nested, cursor⟩ := s
  cases nested <;> rfl

theorem frames_marked (s : State) : s.marked.frames = s.frames.map Frame.marked := by
  rw [MarkedState.frames, frames, List.map_cons, List.map_reverse]
  rfl

theorem marked_withGroups (s : State) (groups : List (Group × Nat)) :
    (s.withGroups groups).marked = s.marked.withMarkers (markersOf groups) := by
  obtain ⟨root, nested, cursor⟩ := s
  cases nested <;> rfl

/-! ## Side by side -/

theorem frame_mem_frames (s : State) : s.frame ∈ s.frames := by
  rw [frames_eq_reverse, List.mem_reverse]
  exact s.frame_mem_stack

/-- Every group of the innermost frame waits for a value. -/
theorem Extents.waits (h : s.Extents length) : ∀ g ∈ s.frame.groups, 1 ≤ g.2 :=
  fun g hg => (h.waiting _ s.frame_mem_frames g hg).1

/-- The innermost frame ends in the input. -/
theorem Extents.frame_stop_le (h : s.Extents length) : s.frame.stop ≤ length := by
  have hshrinking := h.shrinking
  rw [frames_eq_reverse, List.pairwise_reverse, s.stack_eq, List.pairwise_cons] at hshrinking
  rw [← h.root_stop]
  have hroot := s.root_mem_stack
  rw [s.stack_eq] at hroot
  rcases List.mem_cons.1 hroot with heq | hmem
  · exact Nat.le_of_eq (congrArg Frame.stop heq.symm)
  · exact hshrinking.1 _ hmem

/-- A move by a word ends where the word of its end is: beyond the frame it is refused, and behind the greatest word it
starts over. -/
theorem advance_eq {n : Nat} (hcursor : s.cursor ≤ s.frame.stop) (hstop : s.frame.stop < 2 ^ 64) (hn : n < 2 ^ 64) :
    s.advance n =
      if s.frame.stop < (s.cursor + n) % 2 ^ 64 then .error (.shortageOf (s.frame.stop - s.cursor) n)
      else .ok { s with cursor := (s.cursor + n) % 2 ^ 64 } := by
  unfold advance
  dsimp only
  rw [wrap_eq]
  by_cases hnext : s.cursor + n ≤ s.frame.stop
  · rw [if_pos hnext, Nat.mod_eq_of_lt (Nat.lt_of_le_of_lt hnext hstop), if_neg (Nat.not_lt.2 hnext)]
  rw [if_neg hnext]
  by_cases hwrap : (s.cursor + n) % 2 ^ 64 ≤ s.frame.stop
  · rw [if_pos hwrap, if_neg (Nat.not_lt.2 hwrap)]
  · rw [if_neg hwrap, if_pos (Nat.not_le.1 hwrap), wrapSub_of_le hstop hcursor, wrapSub_of_le hn (by omega)]
    rfl

/-- **One operation answers the same and does the same**, seen through the markers that the groups stand for. -/
theorem marked_perform (h : s.Extents length) (hlength : length < 2 ^ 64) {op : Operation} (hop : op.AdmittedAt s) :
    ((s.perform op).1.map Frame.marked, (s.perform op).2.marked) = s.marked.perform op := by
  cases op with
  | pushFrame stop context => rfl
  | popFrame =>
    obtain ⟨root, nested, cursor⟩ := s
    cases nested <;> rfl
  | pushGroup group =>
    rw [perform, MarkedState.perform, frame_marked, pushGroup_eq, marked_withGroups]
    split
    · next hcount => rw [hcount]; rfl
    · rfl
  | popGroup =>
    obtain ⟨hhead, htail⟩ := markersOf_popped h.waits
    rw [perform, MarkedState.perform, frame_marked, popGroup_eq, marked_withGroups]
    simp only [Frame.marked, hhead, htail]
    rfl
  | advance n =>
    rw [perform, MarkedState.perform, frame_marked,
      advance_eq h.cursor_le (Nat.lt_of_le_of_lt h.frame_stop_le hlength) hop]
    show _ = if s.frame.stop < (s.cursor + n) % 2 ^ 64 then _ else _
    by_cases hbeyond : s.frame.stop < (s.cursor + n) % 2 ^ 64
    · rw [if_pos hbeyond, if_pos hbeyond]
      rfl
    · rw [if_neg hbeyond, if_neg hbeyond]
      rfl

/-! ## What the operations keep -/

theorem extents_iff : s.Extents length ↔ s.root.stop = length ∧ s.stack.Pairwise (fun f g => f.stop ≤ g.stop) ∧
    s.cursor ≤ s.frame.stop ∧ ∀ f ∈ s.stack, ∀ g ∈ f.groups, 1 ≤ g.2 ∧ g.2 ≤ g.1.count := by
  have hframes := frames_eq_reverse s
  constructor
  · rintro ⟨hroot, hshrinking, hcursor, hwaiting⟩
    rw [hframes, List.pairwise_reverse] at hshrinking
    exact ⟨hroot, hshrinking, hcursor, fun f hf => hwaiting f (by rwa [hframes, List.mem_reverse])⟩
  · rintro ⟨hroot, hnested, hcursor, hwaiting⟩
    refine ⟨hroot, ?_, hcursor, fun f hf => hwaiting f (by rwa [hframes, List.mem_reverse] at hf)⟩
    rw [hframes, List.pairwise_reverse]
    exact hnested

theorem extents_start (length : Nat) : (start length).Extents length := (sound_start length).extents rfl

theorem Extents.withGroups (h : s.Extents length) {groups : List (Group × Nat)}
    (hgroups : ∀ g ∈ groups, 1 ≤ g.2 ∧ g.2 ≤ g.1.count) : (s.withGroups groups).Extents length := by
  obtain ⟨hroot, hnested, hcursor, hwaiting⟩ := extents_iff.1 h
  rw [s.stack_eq] at hnested hwaiting
  refine extents_iff.2 ⟨(s.root_withGroups groups).1.trans hroot, ?_, ?_, ?_⟩
  · rw [stack_withGroups, List.pairwise_cons]
    exact List.pairwise_cons.1 hnested
  · rw [cursor_withGroups, frame_withGroups]
    exact hcursor
  · rw [stack_withGroups]
    exact List.forall_mem_cons.2 ⟨hgroups, (List.forall_mem_cons.1 hwaiting).2⟩

theorem Extents.popFrame (h : s.Extents length) {f : Frame} {t : State} (ht : s.popFrame = .ok (f, t)) :
    t.Extents length := by
  obtain rfl := popFrame_eq_ok.1 ht
  obtain ⟨hroot, hnested, hcursor, hwaiting⟩ := extents_iff.1 h
  obtain ⟨hle, hnested⟩ := List.pairwise_cons.1 (show (f :: t.stack).Pairwise _ from hnested)
  exact extents_iff.2 ⟨hroot, hnested, Nat.le_trans hcursor (hle _ t.frame_mem_stack),
    fun g hg => hwaiting g (List.mem_cons_of_mem _ hg)⟩

theorem Extents.pushFrame (h : s.Extents length) {stop : Nat} (hcursor : s.cursor ≤ stop) (hstop : stop ≤ s.frame.stop)
    (context : Option Registry) : (s.pushFrame stop context).Extents length := by
  obtain ⟨hroot, hnested, -, hwaiting⟩ := extents_iff.1 h
  have hle : ∀ f ∈ s.stack, s.frame.stop ≤ f.stop := by
    rw [s.stack_eq] at hnested ⊢
    exact List.forall_mem_cons.2 ⟨Nat.le_refl _, (List.pairwise_cons.1 hnested).1⟩
  refine extents_iff.2 ⟨hroot, ?_, hcursor, ?_⟩
  · exact List.pairwise_cons.2 ⟨fun f hf => Nat.le_trans hstop (hle f hf), hnested⟩
  · exact List.forall_mem_cons.2 ⟨fun g hg => (by cases hg), hwaiting⟩

/-- **An operation keeps the frames in each other and the cursor in all of them.** -/
theorem Extents.perform (h : s.Extents length) (hlength : length < 2 ^ 64) {op : Operation} (hop : op.AdmittedAt s) :
    (s.perform op).2.Extents length := by
  have hgroups := h.waiting _ s.frame_mem_frames
  cases op with
  | pushFrame stop context => exact h.pushFrame hop.1 hop.2 context
  | popFrame =>
    rw [State.perform]
    split
    · next ht => exact h.popFrame ht
    · exact h
  | pushGroup group =>
    rw [State.perform, pushGroup_eq]
    refine h.withGroups ?_
    split
    · exact hgroups
    · next hcount => exact List.forall_mem_cons.2 ⟨⟨Nat.pos_of_ne_zero hcount, Nat.le_refl _⟩, hgroups⟩
  | popGroup =>
    rw [State.perform, State.popGroup_eq]
    refine h.withGroups (fun g hg => ?_)
    obtain ⟨⟨k, hk, hk1, hk2⟩, hpos⟩ := mem_popped hg
    have hle := (hgroups k hk).2
    rw [hk1] at hle
    exact ⟨hpos.elim id (fun hmem => (hgroups g hmem).1), Nat.le_trans hk2 hle⟩
  | advance n =>
    rw [State.perform, advance_eq h.cursor_le (Nat.lt_of_le_of_lt h.frame_stop_le hlength) hop]
    by_cases hbeyond : s.frame.stop < (s.cursor + n) % 2 ^ 64
    · rw [if_pos hbeyond]
      exact h
    · rw [if_neg hbeyond]
      exact ⟨h.root_stop, h.shrinking, Nat.not_lt.1 hbeyond, h.waiting⟩

/-- Of the moves beyond the frame those are refused whose end is a word. -/
theorem perform_eq_failed (h : s.Extents length) (hlength : length < 2 ^ 64) {op : Operation} (hop : op.AdmittedAt s)
    (e : DecodeError) :
    (s.perform op).1 = .failed e ↔ (op = .popFrame ∧ s.nested = [] ∧ e = .frameUnderflow) ∨
      ∃ n, op = .advance n ∧ s.frame.stop < s.cursor + n ∧ s.cursor + n < 2 ^ 64 ∧
        e = .shortageOf (s.frame.stop - s.cursor) n := by
  cases op with
  | popFrame =>
    rw [perform, popFrame]
    cases s.nested <;> simp [eq_comm]
  | advance n =>
    have hn : n < 2 ^ 64 := hop
    have hcursor := h.cursor_le
    have hstop := Nat.lt_of_le_of_lt h.frame_stop_le hlength
    have hbeyond : s.frame.stop < (s.cursor + n) % 2 ^ 64 ↔ s.frame.stop < s.cursor + n ∧ s.cursor + n < 2 ^ 64 := by
      omega
    rw [perform, advance_eq hcursor hstop hn]
    by_cases hlt : s.frame.stop < (s.cursor + n) % 2 ^ 64
    · obtain ⟨hover, hword⟩ := hbeyond.1 hlt
      rw [if_pos hlt]
      refine ⟨fun hfailed => .inr ⟨n, rfl, hover, hword, (Reply.failed.inj hfailed).symm⟩, ?_⟩
      rintro (⟨hpop, -⟩ | ⟨m, hm, -, -, rfl⟩)
      · cases hpop
      · cases hm
        rfl
    · have hnot := mt hbeyond.2 hlt
      simp only [hlt, if_false, reduceCtorEq, false_and, false_or, false_iff]
      rintro ⟨m, heq, hm, hmword, -⟩
      cases heq
      exact hnot ⟨hm, hmword⟩
  | _ => simp [perform]

/-! ## All the way -/

theorem marked_performAll (hlength : length < 2 ^ 64) : ∀ {ops : List Operation} {s : State}, s.Extents length →
    s.Admits ops →
    (s.performAll ops).2.Extents length ∧
      ((s.performAll ops).1.map (Reply.map Frame.marked), (s.performAll ops).2.marked) = s.marked.performAll ops
  | [], s, h, _ => ⟨h, rfl⟩
  | op :: ops, s, h, ⟨hadmitted, hrest⟩ => by
    obtain ⟨hextents, hsame⟩ := marked_performAll hlength (h.perform hlength hadmitted) hrest
    have hstep := marked_perform h hlength hadmitted
    refine ⟨hextents, ?_⟩
    rw [MarkedState.performAll, ← hstep, ← hsame]
    rfl

/-! ## What the two have in common -/

/-- **The counted state `s` says what the plain stacks of `m` say.** -/
structure Refines (s : State) (m : MarkedState) : Prop where
  marked_eq : s.marked = m
  /-- The next marker is the same, and there is none exactly where the stack is empty. -/
  popGroup_eq : s.popGroup.1 = m.frame.markers.head?
  popGroup_eq_none : s.popGroup.1 = none ↔ m.frame.markers = []
  /-- What a frame sums up is the height of its stack, as a word. -/
  pending_eq : s.frames.map Frame.pending = m.frames.map (fun f => f.markers.length % 2 ^ 64)
  isBalanced_iff : s.isBalanced = true ↔ m.nested = [] ∧ m.root.markers = []
  /-- There is always something to count down. -/
  waiting : ∀ f ∈ s.frames, ∀ g ∈ f.groups, 0 < g.2
  cursor_le : s.cursor ≤ s.frame.stop
  /-- Only the root is not popped, and only a move beyond the frame is refused, unless its end is no word. -/
  failed_iff : ∀ op, op.AdmittedAt s → ∀ e, (s.perform op).1 = .failed e ↔
    (op = .popFrame ∧ s.nested = [] ∧ e = .frameUnderflow) ∨
      ∃ n, op = .advance n ∧ s.frame.stop < s.cursor + n ∧ s.cursor + n < 2 ^ 64 ∧
        e = .shortageOf (s.frame.stop - s.cursor) n
  unchanged : ∀ op e, (s.perform op).1 = .failed e → (s.perform op).2 = s

theorem perform_of_failed {op : Operation} {e : DecodeError} (hfailed : (s.perform op).1 = .failed e) :
    (s.perform op).2 = s := by
  unfold perform at hfailed ⊢
  split at hfailed <;> try cases hfailed
  all_goals
    split at hfailed
    · cases hfailed
    · rfl

theorem Extents.refines (h : s.Extents length) (hlength : length < 2 ^ 64) : s.Refines s.marked where
  marked_eq := rfl
  popGroup_eq := by rw [frame_marked, Frame.marked, (markersOf_popped h.waits).1, State.popGroup_eq]
  popGroup_eq_none := by
    rw [frame_marked, Frame.marked, markersOf_eq_nil h.waits, State.popGroup_eq, Option.map_eq_none_iff,
      List.head?_eq_none_iff]
  pending_eq := by
    rw [frames_marked, List.map_map]
    refine List.map_congr_left (fun f _ => ?_)
    rw [Function.comp_apply, length_markersOf, Frame.pending_eq]
  isBalanced_iff := by
    have hroot : ∀ g ∈ s.root.groups, 1 ≤ g.2 := fun g hg => (h.waiting s.root List.mem_cons_self g hg).1
    rw [isBalanced, Bool.and_eq_true, List.isEmpty_iff, List.isEmpty_iff, ← markersOf_eq_nil hroot]
    exact and_congr_left' List.map_eq_nil_iff.symm
  waiting := fun f hf g hg => (h.waiting f hf g hg).1
  cursor_le := h.cursor_le
  failed_iff := fun _ hop e => perform_eq_failed h hlength hop e
  unchanged := fun _ _ => perform_of_failed

end State
end Quadlet
