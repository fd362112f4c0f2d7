import Quadlet.Proofs.Session.Reach
/-!
# Failure — what a call that fails leaves behind

A step takes the next value off its group before it reads it.  So a call that fails has moved nothing and noted nothing
(`Fails.loses`), and yet, unless the innermost frame was already at its end, it costs the group that waited one of its
values (`next_failed`).  A stream that breaks at the last value of a group looks balanced afterwards
(`not_keeps_last_value`).
-/
namespace Quadlet

/-- Taking a value off the innermost group leaves one value less to wait for. -/
theorem Frame.outstanding_popped (f : Frame) (hpos : ∀ g ∈ f.groups, 0 < g.2) :
    { f with groups := popped f.groups : Frame }.outstanding = f.outstanding - 1 := by
  obtain ⟨stop, mode, context, groups⟩ := f
  cases groups with
  | nil => rfl
  | cons g rest =>
    obtain ⟨group, n⟩ := g
    have hn : 0 < n := hpos (group, n) List.mem_cons_self
    have hwhole : Frame.outstanding ⟨stop, mode, context, (group, n) :: rest⟩ =
        n + Frame.outstanding ⟨stop, mode, context, rest⟩ := rfl
    rw [hwhole, Quadlet.popped]
    by_cases hlast : n ≤ 1
    · obtain rfl : n = 1 := by omega
      rw [if_pos hlast, Nat.add_sub_cancel_left]
    · rw [if_neg hlast]
      show n - 1 + Frame.outstanding ⟨stop, mode, context, rest⟩ = _
      omega

namespace Session

/-- The frames of `s` that are still open in `t`, when `t` has fewer. -/
def stillOpen (s t : Session) : List Frame := s.state.stack.drop (s.state.depth - t.state.depth)

/-- The frames of `s` that are closed in `t`. -/
def closed (s t : Session) : List Frame := s.state.stack.take (s.state.depth - t.state.depth)

/-- **Nothing is lost from `s` to `t`**, but frames that were read to their end: what the frames say of their groups is
the same. -/
structure Keeps (s t : Session) : Prop where
  cursor_eq : t.state.cursor = s.state.cursor
  version_eq : t.version = s.version
  exhausted : ∀ f ∈ closed s t, f.Exhausted s.state.cursor
  pending_eq : t.state.stack.map Frame.pending = (stillOpen s t).map Frame.pending

variable {α : Type} {s t last : Session} {st : State} {e : DecodeError} {frames : List Frame}

theorem split_of_settles (hst : State.Settles s.state st frames) (hdepth : t.state.depth = st.depth) :
    closed s t = frames ∧ stillOpen s t = st.stack := by
  have hlen : s.state.depth - t.state.depth = frames.length := by
    rw [hdepth, ← s.state.length_stack, ← st.length_stack, hst.stack_eq, List.length_append, Nat.add_sub_cancel]
  rw [closed, stillOpen, hlen, hst.stack_eq]
  exact ⟨List.take_left, List.drop_left⟩

/-- **What a failing step loses.**  The cursor and the version stay, and only exhausted frames are closed.  At the end
of the innermost frame left its groups wait in vain and stay; in front of a value that cannot be read, one is taken
off. -/
structure Loses (s t : Session) : Prop where
  cursor_eq : t.state.cursor = s.state.cursor
  version_eq : t.version = s.version
  exhausted : ∀ f ∈ closed s t, f.Exhausted s.state.cursor
  innermost : ∃ f outer, stillOpen s t = f :: outer ∧
    ((f.stop ≤ s.state.cursor ∧ t.state.stack = f :: outer) ∨
      (s.state.cursor < f.stop ∧ t.state.stack = { f with groups := popped f.groups } :: outer))

theorem loses_of_taken (hsettle : s.state.settle = (.ok true, st)) :
    Loses s { s with state := st.withGroups (popped st.frame.groups), done := true } := by
  obtain ⟨frames, hst, hlt⟩ := State.settle_eq_true.1 hsettle
  obtain ⟨hclosed, hopen⟩ := split_of_settles
    (t := { s with state := st.withGroups (popped st.frame.groups), done := true }) hst (st.depth_withGroups _)
  exact ⟨(st.cursor_withGroups _).trans hst.cursor_eq, rfl, hclosed ▸ hst.exhausted, st.frame, st.stack.tail,
    hopen.trans st.stack_eq, .inr ⟨hst.cursor_eq ▸ hlt, st.stack_withGroups _⟩⟩

theorem Fails.loses (hfails : Fails s e last) : Loses s last := by
  cases hfails with
  | @settle st hsettle =>
    obtain ⟨frames, hst, hstop, -, -⟩ := State.settle_eq_error.1 hsettle
    obtain ⟨hclosed, hopen⟩ := split_of_settles (t := { s with state := st, done := true }) hst rfl
    exact ⟨hst.cursor_eq, rfl, hclosed ▸ hst.exhausted, st.frame, st.stack.tail, hopen.trans st.stack_eq,
      .inl ⟨hst.cursor_eq ▸ hstop, st.stack_eq⟩⟩
  | read hsettle => exact loses_of_taken hsettle
  | opens hsettle => exact loses_of_taken hsettle

/-- A call fails where its step does. -/
theorem fails_of_next {hooks : Hooks Id α} (h : s.Sound) (hnext : s.next hooks = (some (.error e), t)) :
    Fails s e t := by
  cases hdone : s.done with
  | true =>
    rw [next_of_done hooks hdone] at hnext
    cases hnext
  | false =>
    rw [next_eq_step hooks hdone] at hnext
    cases hstep : s.step with
    | found o next =>
      rw [hstep] at hnext
      cases hnext
    | finished last =>
      rw [hstep] at hnext
      cases hnext
    | failed e' last =>
      rw [hstep] at hnext
      cases hnext
      exact h.inBounds.step_eq_failed.1 hstep

/-- **A call that fails, behind any number of calls**: what it leaves is what was there, but for exhausted frames, which
are closed, and for one value of the groups that wait in the innermost frame left, unless that frame is at its end.  So
nothing is lost just when the frame is at its end or no group waits in it; what the frame says of its groups differs
otherwise, also where it is a sum that wraps around. -/
theorem next_failed {r : Registry} (hr : r.Loaded) (input : Bytes) (hooks : Hooks Id α) (n : Nat)
    (hnext : ((start input r).after hooks n).next hooks = (some (.error e), t)) :
    let s := (start input r).after hooks n
    t.state.cursor = s.state.cursor ∧ t.version = s.version ∧ (∀ f ∈ closed s t, f.Exhausted s.state.cursor) ∧
      ∃ f outer, stillOpen s t = f :: outer ∧
        t.state.stack.map Frame.outstanding =
          (if s.state.cursor < f.stop then f.outstanding - 1 else f.outstanding) :: outer.map Frame.outstanding ∧
        (Keeps s t ↔ f.stop ≤ s.state.cursor ∨ f.outstanding = 0) := by
  intro s
  have h : s.Sound := sound_after hooks (sound_start hr input) n
  obtain ⟨hcursor, hversion, hclosed, f, outer, hopen, hend⟩ := (fails_of_next h hnext).loses
  have hf : f ∈ s.state.stack := List.mem_of_mem_drop (hopen ▸ List.mem_cons_self)
  have hpopped := f.outstanding_popped (fun g hg => ((h.state.frames f hf).waiting g hg).1)
  have hwaiting : t.state.stack.map Frame.outstanding =
      (if s.state.cursor < f.stop then f.outstanding - 1 else f.outstanding) :: outer.map Frame.outstanding := by
    rcases hend with ⟨hstop, hstack⟩ | ⟨hlt, hstack⟩
    · rw [hstack, if_neg (Nat.not_lt.2 hstop), List.map_cons]
    · rw [hstack, if_pos hlt, List.map_cons, hpopped]
  refine ⟨hcursor, hversion, hclosed, f, outer, hopen, hwaiting, ?_⟩
  have hreported : ∀ frames : List Frame,
      frames.map Frame.pending = (frames.map Frame.outstanding).map (· % 2 ^ 64) := by
    intro frames
    rw [List.map_map]
    exact List.map_congr_left (fun g _ => g.pending_eq)
  have hsame : Keeps s t ↔
      (if s.state.cursor < f.stop then f.outstanding - 1 else f.outstanding) % 2 ^ 64 = f.outstanding % 2 ^ 64 := by
    constructor
    · intro hkeeps
      have heq := hkeeps.pending_eq
      rw [hreported, hreported, hwaiting, hopen, List.map_cons, List.map_cons, List.map_cons] at heq
      exact (List.cons.inj heq).1
    · intro heq
      exact ⟨hcursor, hversion, hclosed, by
        rw [hreported, hreported, hwaiting, hopen, List.map_cons, List.map_cons, List.map_cons, heq]⟩
  rw [hsame]
  split <;> omega

/-- A group waits for one value, and a byte stands there that starts none. -/
theorem next_failed_last_value :
    let s := (start (Bytes.ofString "-AAB!") .keriV1).after Hooks.passthrough 1
    let t := (s.next Hooks.passthrough).2
    (s.next Hooks.passthrough).1 = some (.error (.unexpectedCode (Bytes.ofString "!"))) ∧
      t.state.cursor = s.state.cursor ∧ t.version = s.version ∧
        s.state.stack.map Frame.pending = [1] ∧ t.state.stack.map Frame.pending = [0] := by
  intro s t
  obtain ⟨hnext, hpending⟩ : (s.next Hooks.passthrough).1 = some (.error (.unexpectedCode (Bytes.ofString "!"))) ∧
      s.state.stack.map Frame.pending = [1] ∧ t.state.stack.map Frame.pending = [0] := by decide +kernel
  obtain ⟨hcursor, hversion, -, -⟩ := next_failed (t := t) Registry.loaded_keriV1 (Bytes.ofString "-AAB!")
    Hooks.passthrough 1 (Prod.ext hnext rfl)
  exact ⟨hnext, hcursor, hversion, hpending⟩

/-- **The last value of a group can be lost to a failure**: what is left behind looks balanced. -/
theorem not_keeps_last_value :
    let s := (start (Bytes.ofString "-AAB!") .keriV1).after Hooks.passthrough 1
    (s.next Hooks.passthrough).1 = some (.error (.unexpectedCode (Bytes.ofString "!"))) ∧
      ¬ Keeps s (s.next Hooks.passthrough).2 ∧
        s.state.isBalanced = false ∧ (s.next Hooks.passthrough).2.state.isBalanced = true := by
  intro s
  obtain ⟨hnext, hbalanced, hbalanced', hpending⟩ :
      (s.next Hooks.passthrough).1 = some (.error (.unexpectedCode (Bytes.ofString "!"))) ∧
        s.state.isBalanced = false ∧ (s.next Hooks.passthrough).2.state.isBalanced = true ∧
          (s.next Hooks.passthrough).2.state.stack.map Frame.pending ≠
            (stillOpen s (s.next Hooks.passthrough).2).map Frame.pending := by decide +kernel
  exact ⟨hnext, fun hkeeps => hpending hkeeps.pending_eq, hbalanced, hbalanced'⟩

end Session
end Quadlet
