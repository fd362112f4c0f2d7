import Quadlet.Proofs.Session.Run
/-!
# Reach — what holds behind any number of calls

`after` is the session behind so many calls for the next value, the call that fails and those behind it among them.
All of these sessions are sound (`sound_after`), for a step that fails only closes frames and takes a value off a group
(`Fails.leaves`).  So the checks that a step makes before it moves never strike: there is always something to read in
the frame that is read, no frame is popped but an open one, and no value reaches beyond a frame (`extents_after`).
-/
namespace Quadlet

namespace State

/-! ## Frames popped one at a time -/

theorem popFrame_eq_ok {s t : State} {f : Frame} :
    s.popFrame = .ok (f, t) ↔ s = { t with nested := f :: t.nested } := by
  obtain ⟨root, nested, cursor⟩ := s
  obtain ⟨root', nested', cursor'⟩ := t
  cases nested <;> simp [popFrame, and_comm, and_left_comm, eq_comm]

theorem popFrame_eq_error {s : State} {e : DecodeError} (h : s.popFrame = .error e) : s.nested = [] := by
  unfold popFrame at h
  split at h
  · assumption
  · cases h

/-- Settling as it is done: look at the innermost frame, and pop it if it is read to its end. -/
def closeFrames (s : State) : Except DecodeError Bool × State :=
  if s.cursor < s.frame.stop then (.ok true, s)
  else if s.frame.pending > 0 then (.error (.unclosedGroup s.frame.pending), s)
  else if s.depth = 1 then (.ok false, s)
  else
    match _hpop : s.popFrame with
    | .error e => (.error e, s)
    | .ok (_, t) => closeFrames t
termination_by s.nested.length
decreasing_by
  rw [popFrame_eq_ok.1 _hpop]
  exact Nat.lt_succ_self _

/-- **Settling is closing frames one at a time**, and each that is popped is there to be popped. -/
theorem closeFrames_eq_settle (s : State) : s.closeFrames = s.settle := by
  fun_induction closeFrames s with
  | case1 s hlt => exact (settle_of_lt hlt).symm
  | case2 s hstop hpending => exact (settle_of_pending (Nat.not_lt.1 hstop) hpending).symm
  | case3 s hstop hpending hdepth =>
    have hnested : s.nested = [] := List.length_eq_zero_iff.1 (Nat.succ.inj hdepth)
    have hroot : s.frame = s.root := by rw [frame, hnested]; rfl
    rw [hroot] at hstop hpending
    exact (settle_of_root hnested ⟨Nat.not_lt.1 hstop, Nat.eq_zero_of_not_pos hpending⟩).symm
  | case4 s hstop hpending hdepth e hpop =>
    rw [depth, popFrame_eq_error hpop] at hdepth
    exact absurd rfl hdepth
  | case5 s hstop hpending hdepth f t hpop ih =>
    obtain rfl := popFrame_eq_ok.1 hpop
    have hexhausted : f.Exhausted t.cursor := ⟨Nat.not_lt.1 hstop, Nat.eq_zero_of_not_pos hpending⟩
    have hclosed : Settles { t with nested := f :: t.nested } t [f] :=
      ⟨rfl, fun g hg => by rwa [List.mem_singleton.1 hg], rfl, rfl⟩
    rw [ih, hclosed.settle_eq]

/-! ## Extents -/

theorem frames_eq_reverse (s : State) : s.frames = s.stack.reverse := by
  rw [frames, stack, List.reverse_append]
  rfl

/-- **How the frames lie in an input of `length` bytes**: the root is all of it, none reaches beyond the one around it,
the cursor is in all of them, and no group waits for nothing or for more than it announced. -/
structure Extents (s : State) (length : Nat) : Prop where
  root_stop : s.root.stop = length
  shrinking : s.frames.Pairwise (fun outer inner => inner.stop ≤ outer.stop)
  cursor_le : s.cursor ≤ s.frame.stop
  waiting : ∀ f ∈ s.frames, ∀ g ∈ f.groups, 1 ≤ g.2 ∧ g.2 ≤ g.1.count

theorem Sound.extents {s : State} (h : s.Sound) {length : Nat} (hroot : s.root.stop = length) : s.Extents length where
  root_stop := hroot
  shrinking := by
    rw [frames_eq_reverse, List.pairwise_reverse]
    exact h.nested
  cursor_le := (h.frames _ s.frame_mem_stack).cursor_le
  waiting := fun f hf => (h.frames f (by rwa [frames_eq_reverse, List.mem_reverse] at hf)).waiting

/-! ## Where the open frames end -/

theorem stops_withGroups (s : State) (groups : List (Group × Nat)) :
    (s.withGroups groups).nested.map Frame.stop = s.nested.map Frame.stop := by
  cases h : s.nested <;> simp [withGroups, h]

theorem Sound.popped {s : State} (h : s.Sound) : (s.withGroups (popped s.frame.groups)).Sound := by
  have htaken := h.taken (n := 0) (h.frames _ s.frame_mem_stack).cursor_le
  have hsame : s.taken 0 = s.withGroups (Quadlet.popped s.frame.groups) := by
    obtain ⟨root, nested, cursor⟩ := s
    cases nested <;> rfl
  exact hsame ▸ htaken

end State

namespace Session

variable {α : Type} {s last : Session} {st : State} {v : Value} {transition : Transition} {e : DecodeError}

/-! ## One call -/

/-- **What a call can do to a session**: find a value, or settle the state and stop there.  Then a value may have been
taken off its group, but nothing was consumed and no serialization noted. -/
inductive Leaves (s : Session) : Session → Prop where
  | found {st : State} {v : Value} {transition : Transition} (finds : Finds s st v transition) :
    Leaves s (s.behind st v transition)
  | settled {st : State} {closed : List Frame} (settles : State.Settles s.state st closed) :
    Leaves s { s with state := st, done := true }
  | taken {st : State} {closed : List Frame} (settles : State.Settles s.state st closed) :
    Leaves s { s with state := st.withGroups (popped st.frame.groups), done := true }

/-- No step fails once its value is shown to its hook, so a failing step notes no version. -/
theorem Fails.leaves (hfails : Fails s e last) : Leaves s last := by
  cases hfails with
  | settle hsettle =>
    obtain ⟨_, hst⟩ := State.settles_of_settle hsettle
    exact .settled hst
  | read hsettle =>
    obtain ⟨_, hst⟩ := State.settles_of_settle hsettle
    exact .taken hst
  | opens hsettle =>
    obtain ⟨_, hst⟩ := State.settles_of_settle hsettle
    exact .taken hst

theorem next_leaves (hooks : Hooks Id α) (h : s.Sound) (hdone : s.done = false) : Leaves s (s.next hooks).2 := by
  rw [next_eq_step hooks hdone]
  obtain ⟨st, v, transition, hf⟩ | ⟨st, hsettle⟩ | ⟨e, last, hfails⟩ := h.inBounds.step_cases
  · rw [hf.step]
    exact .found hf
  · rw [step_of_settle_false hsettle]
    obtain ⟨_, hst⟩ := State.settles_of_settle hsettle
    exact .settled hst
  · rw [hfails.step]
    exact hfails.leaves

theorem Leaves.sound (hleaves : Leaves s last) (h : s.Sound) : last.Sound := by
  cases hleaves with
  | found hf => exact (hf.sound h).1
  | settled hst => exact ⟨h.loaded, h.state.settles hst, by rw [← h.root_stop, ← hst.root_eq]⟩
  | @taken st closed hst =>
    refine ⟨h.loaded, (h.state.settles hst).popped, ?_⟩
    rw [← h.root_stop, ← hst.root_eq]
    exact (st.root_withGroups _).1

theorem next_of_done (hooks : Hooks Id α) (hdone : s.done = true) : s.next hooks = (none, s) := by
  unfold next
  rw [if_pos hdone]
  rfl

/-! ## Many calls -/

/-- The session behind `n` calls for the next value. -/
def after (hooks : Hooks Id α) : (n : Nat) → Session → Session
  | 0, s => s
  | n + 1, s => after hooks n (s.next hooks).2

theorem after_succ (hooks : Hooks Id α) : ∀ (n : Nat) (s : Session),
    s.after hooks (n + 1) = ((s.after hooks n).next hooks).2
  | 0, _ => rfl
  | n + 1, s => by rw [after, after_succ hooks n, after]

/-- **Every session that is reached is sound**, also behind an error and behind the end. -/
theorem sound_after (hooks : Hooks Id α) (h : s.Sound) : ∀ n, (s.after hooks n).Sound
  | 0 => h
  | n + 1 => by
    have hn := sound_after hooks h n
    rw [after_succ]
    cases hdone : (s.after hooks n).done with
    | true =>
      rw [next_of_done hooks hdone]
      exact hn
    | false => exact (next_leaves hooks hn hdone).sound hn

/-- What no call changes is the same behind any number of calls. -/
theorem constant_after {β : Type} (f : Session → β) (hf : ∀ {s last : Session}, Leaves s last → f last = f s)
    (hooks : Hooks Id α) (h : s.Sound) (n : Nat) : f (s.after hooks n) = f s := by
  induction n with
  | zero => rfl
  | succ n ih =>
    rw [after_succ]
    cases hdone : (s.after hooks n).done with
    | true =>
      rw [next_of_done hooks hdone]
      exact ih
    | false => exact (hf (next_leaves hooks (sound_after hooks h n) hdone)).trans ih

theorem input_after (hooks : Hooks Id α) (h : s.Sound) (n : Nat) : (s.after hooks n).input = s.input :=
  constant_after input (fun hleaves => by cases hleaves <;> rfl) hooks h n

theorem registry_after (hooks : Hooks Id α) (h : s.Sound) (n : Nat) : (s.after hooks n).registry = s.registry :=
  constant_after registry (fun hleaves => by cases hleaves <;> rfl) hooks h n

/-! ## What a call hands out -/

/-- A call comes to a value: it hands `o` to its hook, the session being `t` then. -/
structure Observes (s : Session) (o : Observation) (t : Session) : Prop where
  more : s.done = false
  observed : s.observe = (.ok (some o), t)

def shown (s : Session) (st : State) (v : Value) : Session :=
  { s with state := st.withGroups (popped st.frame.groups), version := v.header.asVersion?.or s.version }

theorem Finds.observe (hf : Finds s st v transition) :
    s.observe = (.ok (some (s.told st v transition)), s.shown st v) := by
  obtain ⟨hsettle, hread, hopens, -⟩ := hf
  rw [observe_of_settle hsettle, hread]
  simp only [classify_eq_ok.2 ⟨rfl, rfl, hopens⟩]
  rw [Value.consumed_shift]
  rfl

theorem Fails.observe (hfails : Fails s e last) : ∃ t, s.observe = (.error e, t) := by
  cases hfails with
  | settle hsettle =>
    rw [Session.observe, hsettle]
    exact ⟨_, rfl⟩
  | read hsettle hread =>
    rw [observe_of_settle hsettle, hread]
    exact ⟨_, rfl⟩
  | opens hsettle hread hunknown =>
    rw [observe_of_settle hsettle, hread]
    simp only [hunknown]
    exact ⟨_, rfl⟩

/-- **What is handed out was found**: it fits its frame. -/
theorem Observes.finds {t : Session} {o : Observation} (ho : Observes s o t) (h : s.Sound) :
    ∃ st v transition, Finds s st v transition ∧ o = s.told st v transition ∧ t = s.shown st v := by
  have hobserved := ho.observed
  obtain ⟨st, v, transition, hf⟩ | ⟨st, hsettle⟩ | ⟨e, last, hfails⟩ := h.inBounds.step_cases
  · rw [hf.observe] at hobserved
    cases hobserved
    exact ⟨st, v, transition, hf, rfl, rfl⟩
  · rw [observe, hsettle] at hobserved
    cases hobserved
  · obtain ⟨_, hfailed⟩ := hfails.observe
    rw [hfailed] at hobserved
    cases hobserved

/-- **The checks of a step that never strike.**  There is something to read where a step reads, closing frames never
comes to the root, and what a hook was shown is handed out, the state moving on behind it. -/
structure Unhindered (hooks : Hooks Id α) (s : Session) : Prop where
  span_pos : ∀ {st}, s.state.settle = (.ok true, st) →
    st.cursor < st.frame.stop ∧ st.frame.stop ≤ s.input.length ∧
      ({ s with state := st } : Session).span.length = st.frame.stop - st.cursor
  pops : s.state.closeFrames.1 ≠ .error .frameUnderflow
  advances : ∀ {o t}, Observes s o t →
    (∃ u, t.state.advance o.consumed = .ok u) ∧
      (s.next hooks).1 = some (.ok (hooks.call o.kind o.context o.value))
  inside : ∀ {o t}, Observes s o t →
    o.value.start = t.state.cursor ∧ ∀ f ∈ t.state.frames, o.value.stop ≤ f.stop

theorem Finds.fits (hf : Finds s st v transition) (h : s.Sound) :
    (v.shift st.cursor).start = st.cursor ∧ ∀ f ∈ (s.shown st v).state.frames, (v.shift st.cursor).stop ≤ f.stop := by
  obtain ⟨hst, hframed, -, hle⟩ := hf.framed h
  have hstart := hframed.start_shift st.cursor
  refine ⟨hstart, fun f hf' => ?_⟩
  rw [State.frames_eq_reverse, List.mem_reverse] at hf'
  have hinner := hst.popped.frame_le hf'
  rw [State.frame_withGroups] at hinner
  show (v.shift st.cursor).start + v.length ≤ f.stop
  rw [hstart]
  exact Nat.le_trans hle hinner

theorem Sound.unhindered (hooks : Hooks Id α) (h : s.Sound) : Unhindered hooks s where
  span_pos := by
    intro st hsettle
    obtain ⟨hst, hroot, -⟩ := h.settled hsettle
    obtain ⟨_, -, hlt⟩ := State.settle_eq_true.1 hsettle
    have hstop : st.frame.stop ≤ s.input.length := by
      rw [← h.root_stop, ← hroot]
      exact hst.frame_le st.root_mem_stack
    exact ⟨hlt, hstop, Bytes.length_slice _ _ _ hstop⟩
  pops := by
    rw [State.closeFrames_eq_settle]
    obtain ⟨_, _, -, ⟨-, he⟩ | ⟨-, -, he⟩ | ⟨-, -, he⟩⟩ := s.state.settle_cases <;> rw [he] <;> exact fun h => nomatch h
  advances := by
    intro o t ho
    obtain ⟨st, v, transition, hf, rfl, rfl⟩ := ho.finds h
    rw [next_eq_step hooks ho.more, hf.step]
    refine ⟨⟨_, if_pos ?_⟩, rfl⟩
    rw [shown, State.cursor_withGroups, State.frame_withGroups]
    exact hf.inside
  inside := by
    intro o t ho
    obtain ⟨st, v, transition, hf, rfl, rfl⟩ := ho.finds h
    obtain ⟨hstart, hstop⟩ := hf.fits h
    exact ⟨hstart.trans (State.cursor_withGroups _ _).symm, hstop⟩

/-! ## Who opened a frame -/

/-- A call that hands out the counter of a frame that ends at `stop` and has its body from `body` on. -/
def Opened (s : Session) (body stop : Nat) : Prop :=
  ∃ o t, Observes s o t ∧ o.kind = .frame ∧ o.value.start + o.consumed = body ∧ o.value.stop = stop

theorem mem_stops_settles {t : State} {closed : List Frame} (hst : State.Settles s.state t closed) {n : Nat}
    (hn : n ∈ t.nested.map Frame.stop) : n ∈ s.state.nested.map Frame.stop := by
  rw [hst.nested_eq, List.map_append]
  exact List.mem_append_right _ hn

theorem Finds.mem_stops (hf : Finds s st v transition) {n : Nat}
    (hn : n ∈ (s.behind st v transition).state.nested.map Frame.stop) :
    n ∈ s.state.nested.map Frame.stop ∨ (v.kind = .frame ∧ (v.shift st.cursor).stop = n) := by
  obtain ⟨_, hst⟩ := State.settles_of_settle hf.settled
  have htaken : (st.taken v.consumed).nested.map Frame.stop = st.nested.map Frame.stop := State.stops_withGroups _ _
  have hopens := hf.opens
  change n ∈ ((st.taken v.consumed).apply transition).nested.map Frame.stop at hn
  cases hopens with
  | stay => exact .inl (mem_stops_settles hst (htaken ▸ hn))
  | frame hk =>
    rcases List.mem_cons.1 hn with rfl | hn
    · exact .inr ⟨hk, rfl⟩
    · exact .inl (mem_stops_settles hst (htaken ▸ hn))
  | group =>
    rw [State.apply, State.pushGroup_eq, State.stops_withGroups, htaken] at hn
    exact .inl (mem_stops_settles hst hn)

theorem Leaves.opened (hleaves : Leaves s last) (h : s.Sound) (hdone : s.done = false) :
    s.state.cursor ≤ last.state.cursor ∧ ∀ n ∈ last.state.nested.map Frame.stop,
      n ∈ s.state.nested.map Frame.stop ∨ Opened s last.state.cursor n := by
  cases hleaves with
  | @found st v transition hf =>
    obtain ⟨-, hcursor, -⟩ := hf.sound h
    obtain ⟨-, -, hsettled⟩ := h.settled hf.settled
    refine ⟨by omega, fun n hn => (hf.mem_stops hn).imp_right fun ⟨hk, hstop⟩ => ?_⟩
    obtain ⟨hstart, -⟩ := hf.fits h
    exact ⟨_, _, ⟨hdone, hf.observe⟩, hk, by rw [hcursor, ← hsettled, ← hstart]; rfl, hstop⟩
  | settled hst => exact ⟨Nat.le_of_eq hst.cursor_eq.symm, fun n hn => .inl (mem_stops_settles hst hn)⟩
  | @taken st closed hst =>
    have hcursor : (st.withGroups (popped st.frame.groups)).cursor = s.state.cursor :=
      (State.cursor_withGroups _ _).trans hst.cursor_eq
    refine ⟨Nat.le_of_eq hcursor.symm, fun n hn => .inl ?_⟩
    rw [State.stops_withGroups] at hn
    exact mem_stops_settles hst hn

/-- **Every frame that is open inside the root was opened by a value handed out before**, and the cursor is in its
body. -/
theorem opened_after (hooks : Hooks Id α) (h : s.Sound) (hnested : s.state.nested = []) :
    ∀ n, ∀ stop ∈ (s.after hooks n).state.nested.map Frame.stop,
      ∃ m < n, ∃ body ≤ (s.after hooks n).state.cursor, Opened (s.after hooks m) body stop
  | 0, stop, hstop => by
    rw [after, hnested] at hstop
    cases hstop
  | n + 1, stop, hstop => by
    have hn := sound_after hooks h n
    rw [after_succ] at hstop ⊢
    cases hdone : (s.after hooks n).done with
    | true =>
      rw [next_of_done hooks hdone] at hstop ⊢
      obtain ⟨m, hm, body, hbody, hopened⟩ := opened_after hooks h hnested n stop hstop
      exact ⟨m, Nat.lt_succ_of_lt hm, body, hbody, hopened⟩
    | false =>
      obtain ⟨hcursor, hstops⟩ := (next_leaves hooks hn hdone).opened hn hdone
      rcases hstops stop hstop with hold | hnew
      · obtain ⟨m, hm, body, hbody, hopened⟩ := opened_after hooks h hnested n stop hold
        exact ⟨m, Nat.lt_succ_of_lt hm, body, Nat.le_trans hbody hcursor, hopened⟩
      · exact ⟨n, Nat.lt_succ_self n, _, Nat.le_refl _, hnew⟩

theorem Observes.mem_stops {t : Session} {o : Observation} (ho : Observes s o t) (h : s.Sound) {f : Frame}
    (hf : f ∈ t.state.nested) : f.stop ∈ s.state.nested.map Frame.stop := by
  obtain ⟨st, v, transition, hfinds, -, rfl⟩ := ho.finds h
  obtain ⟨_, hst⟩ := State.settles_of_settle hfinds.settled
  have hstop := List.mem_map_of_mem (f := Frame.stop) hf
  rw [shown, State.stops_withGroups] at hstop
  exact mem_stops_settles hst hstop

/-- **Behind any number of calls the frames lie in each other, and the checks of the next step do not strike.**  What it
hands out lies in every frame that is open: it starts in the body that an earlier value opened, and ends with the frame
at the latest. -/
theorem extents_after {r : Registry} (hr : r.Loaded) (input : Bytes) (hooks : Hooks Id α) (n : Nat) :
    ((start input r).after hooks n).state.Extents input.length ∧
      Unhindered hooks ((start input r).after hooks n) ∧
      ∀ {o t}, Observes ((start input r).after hooks n) o t → ∀ f ∈ t.state.nested,
        ∃ m < n, ∃ body ≤ o.value.start, Opened ((start input r).after hooks m) body f.stop := by
  have hstart := sound_start hr input
  have h := sound_after hooks hstart n
  have hinput : ((start input r).after hooks n).input = input := input_after hooks hstart n
  refine ⟨h.state.extents (h.root_stop.trans (congrArg _ hinput)), h.unhindered hooks, ?_⟩
  intro o t ho f hf
  obtain ⟨m, hm, body, hbody, hopened⟩ := opened_after hooks hstart rfl n f.stop (ho.mem_stops h hf)
  have hcursor : o.value.start = ((start input r).after hooks n).state.cursor := by
    obtain ⟨st, v, transition, hfinds, rfl, -⟩ := ho.finds h
    obtain ⟨-, -, hsettled⟩ := h.settled hfinds.settled
    exact (hfinds.fits h).1.trans hsettled
  exact ⟨m, hm, body, hcursor ▸ hbody, hopened⟩

/-- A frame with a group of one value in it, and behind it an empty group: in front of the group's value. -/
theorem extents_after_frame :
    let s := (start (Bytes.ofString "-LAC-KAAMAAA-AAA") .keriV1).after Hooks.passthrough 2
    s.state.frames.map (fun f => (f.stop, f.pending)) = [(16, 0), (12, 1)] ∧ s.state.cursor = 8 ∧
      s.state.Extents 16 ∧ Unhindered Hooks.passthrough s := by
  obtain ⟨hextents, hunhindered, -⟩ :=
    extents_after Registry.loaded_keriV1 (Bytes.ofString "-LAC-KAAMAAA-AAA") Hooks.passthrough 2
  exact ⟨by decide +kernel, by decide +kernel, hextents, hunhindered⟩

end Session
end Quadlet
