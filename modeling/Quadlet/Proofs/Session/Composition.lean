import Quadlet.Proofs.Session.Run
/-!
# Composition — a stream behind a stream is read as it is alone

`within` is a session inside a longer input: the same frames and groups, further on.  Every value that is found alone
is found there (`Finds.within`), for it is read from its own bytes; where nothing follows, the end and every error are
the same too (`Run.within`).  A session that has come to its end has closed all its frames, and when no group waits
either, what follows it is read as from a start (`Run.followed`).  Groups that wait for more values than a word counts
may pass for none (`not_decode_append_wideGroups`).
-/
namespace Quadlet

/-! ## Further on -/

def Frame.shift (f : Frame) (n : Nat) : Frame := { f with stop := f.stop + n }

def Transition.shift : Transition → Nat → Transition
  | .stay, _ => .stay
  | .openFrame stop context, n => .openFrame (stop + n) context
  | .openGroup group, _ => .openGroup group

namespace State

/-- The state `n` bytes further on, in an input that ends at `stop`. -/
def within (s : State) (n stop : Nat) : State := ⟨{ s.root with stop }, s.nested.map (·.shift n), s.cursor + n⟩

variable {s t : State} {n stop : Nat}

/-- The innermost frame is the one that it was, but may end later if it is the root. -/
theorem frame_within (s : State) (n stop : Nat) :
    (s.within n stop).frame = { s.frame with stop := if s.nested = [] then stop else s.frame.stop + n } := by
  obtain ⟨root, nested, cursor⟩ := s
  cases nested <;> rfl

theorem group_within (s : State) (n stop : Nat) : (s.within n stop).group = s.group := by
  rw [group, frame_within]
  rfl

theorem inherited_within (s : State) (n stop : Nat) : (s.within n stop).inherited = s.inherited := by
  rw [inherited, group_within, frame_within]
  rfl

theorem withGroups_within (s : State) (n stop : Nat) (groups : List (Group × Nat)) :
    (s.within n stop).withGroups groups = (s.withGroups groups).within n stop := by
  obtain ⟨root, nested, cursor⟩ := s
  cases nested <;> rfl

theorem taken_within (s : State) (n stop k : Nat) : (s.within n stop).taken k = (s.taken k).within n stop := by
  rw [taken, withGroups_within, frame_within, taken]
  simp only [within, Nat.add_right_comm]

theorem apply_within (s : State) (n stop : Nat) (transition : Transition) :
    (s.within n stop).apply (transition.shift n) = (s.apply transition).within n stop := by
  cases transition with
  | stay => rfl
  | openFrame => rfl
  | openGroup group =>
    rw [Transition.shift, apply, apply, pushGroup_eq, pushGroup_eq, withGroups_within, frame_within]

theorem Settles.within {closed : List Frame} (h : Settles s t closed) (n stop : Nat) :
    Settles (s.within n stop) (t.within n stop) (closed.map (·.shift n)) where
  nested_eq := by rw [State.within, h.nested_eq, List.map_append]; rfl
  exhausted := by
    intro f hf
    obtain ⟨g, hg, rfl⟩ := List.mem_map.1 hf
    obtain ⟨hstop, hpending⟩ := h.exhausted g hg
    exact ⟨Nat.add_le_add_right hstop n, hpending⟩
  root_eq := by rw [State.within, h.root_eq]; rfl
  cursor_eq := by rw [State.within, h.cursor_eq]; rfl

/-- The innermost frame does not end before its old end. -/
theorem le_frame_within (hroot : s.root.stop + n ≤ stop) : s.frame.stop + n ≤ (s.within n stop).frame.stop := by
  obtain ⟨root, nested, cursor⟩ := s
  cases nested with
  | nil => exact hroot
  | cons f rest => exact Nat.le_refl _

theorem frame_within_of_eq (hroot : s.root.stop + n = stop) : (s.within n stop).frame = s.frame.shift n := by
  obtain ⟨root, nested, cursor⟩ := s
  subst hroot
  cases nested <;> rfl

theorem settle_within (hroot : s.root.stop + n ≤ stop) (h : s.settle = (.ok true, t)) :
    (s.within n stop).settle = (.ok true, t.within n stop) := by
  obtain ⟨closed, ht, hlt⟩ := settle_eq_true.1 h
  rw [← ht.root_eq] at hroot
  have hle := le_frame_within hroot
  refine settle_eq_true.2 ⟨_, ht.within n stop, ?_⟩
  show t.cursor + n < _
  omega

theorem settle_within_of_false (hroot : s.root.stop + n = stop) (h : s.settle = (.ok false, t)) :
    (s.within n stop).settle = (.ok false, t.within n stop) := by
  obtain ⟨closed, ht, hnested, hstop, hpending⟩ := settle_eq_false.1 h
  rw [← ht.root_eq] at hroot
  refine settle_eq_false.2 ⟨_, ht.within n stop, ?_, ?_, hpending⟩
  · rw [within, hnested]
    rfl
  · show stop ≤ t.cursor + n
    omega

theorem settle_within_of_error {e : DecodeError} (hroot : s.root.stop + n = stop) (h : s.settle = (.error e, t)) :
    (s.within n stop).settle = (.error e, t.within n stop) := by
  obtain ⟨closed, ht, hstop, hpending, rfl⟩ := settle_eq_error.1 h
  rw [← ht.root_eq] at hroot
  have hframe := frame_within_of_eq hroot
  refine settle_eq_error.2 ⟨_, ht.within n stop, ?_, ?_, ?_⟩ <;> rw [hframe]
  · exact Nat.add_le_add_right hstop n
  · exact hpending
  · rfl

end State

namespace Session

/-! ## One step -/

theorem classify_shift (r : Registry) (inherited : Option Registry) (v : Value) (n : Nat) :
    classify r inherited (v.shift n) =
      (classify r inherited v).map (fun found => (found.1, found.2.1, found.2.2.shift n)) := by
  obtain ⟨header, start, length⟩ := v
  cases header with
  | version h => rfl
  | code h =>
    unfold classify
    dsimp only [Value.shift]
    split
    · rw [Except.map, Value.stop, Value.stop, Transition.shift, Nat.add_right_comm]
    · split
      · cases groupContext r inherited h <;> rfl
      · rfl

theorem Opens.shift {r : Registry} {inherited : Option Registry} {v : Value} {transition : Transition}
    (h : Opens r inherited v transition) (n : Nat) : Opens r inherited (v.shift n) (transition.shift n) := by
  have hclassify := congrArg (Except.map (fun found => (found.1, found.2.1, found.2.2.shift n)))
    (classify_eq_ok.2 ⟨rfl, rfl, h⟩)
  rw [← classify_shift] at hclassify
  exact (classify_eq_ok.1 hclassify).2.2

/-- The session in a longer input, with another version header before it. -/
def within (s : Session) (p q : Bytes) (version : Option VersionHeader) : Session :=
  { s with
    input := p ++ s.input ++ q
    state := s.state.within p.length (p ++ s.input ++ q).length
    version }

variable {s : Session} {st : State} {v : Value} {transition : Transition} {p q : Bytes}
  {version : Option VersionHeader}

theorem inForce_within (n stop : Nat) : (s.within p q version).inForce (st.within n stop) = s.inForce st := by
  rw [inForce, State.inherited_within]
  rfl

theorem readAt_within (n stop : Nat) :
    (s.within p q version).readAt (st.within n stop) =
      if st.group.isNone && st.frame.mode = .coldStart then
        Value.sniff (s.inForce st) ((p ++ s.input ++ q).slice (st.cursor + n) (st.within n stop).frame.stop)
      else Value.coded (s.inForce st) ((p ++ s.input ++ q).slice (st.cursor + n) (st.within n stop).frame.stop) := by
  simp only [readAt, inForce_within, State.group_within]
  rw [State.frame_within]
  rfl

/-- The innermost frame in the longer input starts with the bytes that it has alone. -/
theorem slice_within (hroot : st.root.stop = s.input.length) (hstop : st.frame.stop ≤ s.input.length)
    (hcursor : st.cursor ≤ st.frame.stop) :
    ∃ tail, (p ++ s.input ++ q).slice (st.cursor + p.length)
      (st.within p.length (p ++ s.input ++ q).length).frame.stop = s.input.slice st.cursor st.frame.stop ++ tail ∧
        (q = [] → tail = []) := by
  rw [State.frame_within, Nat.add_comm st.cursor, List.append_assoc]
  by_cases hnested : st.nested = []
  · have hframe : st.frame.stop = s.input.length := by rw [← hroot, State.frame, hnested]; rfl
    refine ⟨q, ?_, id⟩
    simp only [if_pos hnested]
    rw [List.length_append, Bytes.slice_append_left, Bytes.slice, Bytes.slice, hframe, List.take_length,
      List.take_length, List.drop_append_of_le_length (by omega)]
  · refine ⟨[], ?_, fun _ => rfl⟩
    simp only [if_neg hnested]
    rw [Nat.add_comm st.frame.stop, Bytes.slice_append_left, Bytes.slice_append _ _ _ _ hstop, List.append_nil]

theorem root_stop_within (h : s.Sound) (p q : Bytes) :
    s.state.root.stop + p.length ≤ (p ++ s.input ++ q).length := by
  rw [h.root_stop, List.length_append, List.length_append]
  omega

/-- **A value that is found alone is found in a longer input**, further on. -/
theorem Finds.within (hf : Finds s st v transition) (h : s.Sound) (p q : Bytes) (version : Option VersionHeader) :
    Finds (s.within p q version) (st.within p.length (p ++ s.input ++ q).length) v (transition.shift p.length) := by
  obtain ⟨hst, hframed, hstop, hle⟩ := hf.framed h
  obtain ⟨-, hroot, -⟩ := h.settled hf.settled
  have hcursor := (hst.frames _ st.frame_mem_stack).cursor_le
  obtain ⟨tail, htail, -⟩ := slice_within (p := p) (q := q) (hroot ▸ h.root_stop) hstop hcursor
  have hbound := root_stop_within h p q
  refine ⟨State.settle_within hbound hf.settled, ?_, ?_, ?_⟩
  · -- what follows a value is not looked at
    have hread := hf.read
    rw [readAt_within, htail]
    simp only [readAt] at hread
    split at hread
    · next hcold =>
      rw [if_pos hcold]
      exact (Value.framed_sniff (h.inForce hst) hread).2.append tail
    · next hcold =>
      rw [if_neg hcold]
      exact (Value.framed_coded (h.inForce hst) hread).2.append tail
  · have hopens := hf.opens.shift p.length
    rw [Value.shift_shift] at hopens
    rw [inForce_within, State.inherited_within]
    exact hopens
  · rw [← hroot] at hbound
    have hinside := State.le_frame_within hbound
    have := hf.inside
    show st.cursor + p.length + v.consumed ≤ _
    omega

theorem behind_within :
    (s.within p q version).behind (st.within p.length (p ++ s.input ++ q).length) v (transition.shift p.length) =
      (s.behind st v transition).within p q (v.header.asVersion?.or version) := by
  rw [behind, State.taken_within, State.apply_within]
  rfl

theorem step_within_of_found {o : Observation} {next : Session} (hstep : s.step = .found o next) (h : s.Sound)
    (p q : Bytes) (version : Option VersionHeader) :
    next.Sound ∧ ∃ o' version', (s.within p q version).step = .found o' (next.within p q version') ∧
      o'.value = o.value.shift p.length := by
  obtain ⟨st, v, transition, hf, rfl, rfl⟩ := h.inBounds.step_eq_found.1 hstep
  have hstep' := (hf.within h p q version).step
  rw [behind_within] at hstep'
  refine ⟨(hf.sound h).1, _, v.header.asVersion?.or version, hstep', ?_⟩
  exact (v.shift_shift st.cursor p.length).symm

/-! ## Nothing behind -/

theorem readAt_within_of_nil (hroot : st.root.stop = s.input.length) (hst : st.Sound) :
    (s.within p [] version).readAt (st.within p.length (p ++ s.input ++ []).length) = s.readAt st := by
  have hstop : st.frame.stop ≤ s.input.length := by
    rw [← hroot]
    exact hst.frame_le st.root_mem_stack
  obtain ⟨tail, htail, hnil⟩ := slice_within (p := p) (q := []) hroot hstop (hst.frames _ st.frame_mem_stack).cursor_le
  rw [readAt_within, htail, hnil rfl, List.append_nil]
  rfl

theorem root_stop_within_of_nil (h : s.Sound) (p : Bytes) :
    s.state.root.stop + p.length = (p ++ s.input ++ []).length := by
  rw [h.root_stop, List.append_nil, List.length_append, Nat.add_comm]

theorem step_within_of_finished {last : Session} (hstep : s.step = .finished last) (h : s.Sound) (p : Bytes)
    (version : Option VersionHeader) : ∃ last', (s.within p [] version).step = .finished last' := by
  obtain ⟨st, hsettle, -⟩ := h.inBounds.step_eq_finished.1 hstep
  exact ⟨_, step_of_settle_false (State.settle_within_of_false (root_stop_within_of_nil h p) hsettle)⟩

/-- **Where nothing follows, a step fails as it does alone**, with the same error. -/
theorem Fails.within {e : DecodeError} {last : Session} (hfails : Fails s e last) (h : s.Sound) (p : Bytes)
    (version : Option VersionHeader) : ∃ last', Fails (s.within p [] version) e last' := by
  have hbound := root_stop_within_of_nil h p
  have hsettle : ∀ {st}, s.state.settle = (.ok true, st) →
      (s.within p [] version).state.settle = (.ok true, st.within p.length (p ++ s.input ++ []).length) :=
    fun hst => State.settle_within (Nat.le_of_eq hbound) hst
  have hread : ∀ {st x}, s.state.settle = (.ok true, st) → s.readAt st = x →
      (s.within p [] version).readAt (st.within p.length (p ++ s.input ++ []).length) = x := by
    intro st x hst hx
    obtain ⟨hsound, hroot, -⟩ := h.settled hst
    rw [readAt_within_of_nil (hroot ▸ h.root_stop) hsound, hx]
  cases hfails with
  | settle hst => exact ⟨_, .settle (State.settle_within_of_error hbound hst)⟩
  | read hst hr => exact ⟨_, .read (hsettle hst) (hread hst hr)⟩
  | @opens st v hst hr hunknown =>
    refine ⟨_, .opens (hsettle hst) (hread hst hr) ?_⟩
    show classify _ _ (v.shift (st.cursor + p.length)) = _
    rw [inForce_within, State.inherited_within, ← v.shift_shift, classify_shift, hunknown]
    rfl

/-! ## Runs -/

variable {found : List (Observation × State)} {ending : Ending} {last : Session}

theorem Run.congr {t : Session} (h : s.step = t.step) (hrun : Run s found ending last) : Run t found ending last := by
  cases hrun with
  | finished hstep => exact .finished (h ▸ hstep)
  | failed hstep => exact .failed (h ▸ hstep)
  | found hstep hrest => exact .found (h ▸ hstep) hrest

/-- **A stream behind other bytes is read as it is alone**, with every start further on. -/
theorem Run.within (hrun : Run s found ending last) (h : s.Sound) (p : Bytes) (version : Option VersionHeader) :
    ∃ found' last', Run (s.within p [] version) found' ending last' ∧
      values found' = (values found).map (·.shift p.length) := by
  induction hrun generalizing version with
  | finished hstep =>
    obtain ⟨last', hstep'⟩ := step_within_of_finished hstep h p version
    exact ⟨[], last', .finished hstep', rfl⟩
  | failed hstep =>
    obtain ⟨last', hfails⟩ := (h.inBounds.step_eq_failed.1 hstep).within h p version
    exact ⟨[], last', .failed hfails.step, rfl⟩
  | found hstep _ ih =>
    obtain ⟨hnext, o', version', hstep', hvalue⟩ := step_within_of_found hstep h p [] version
    obtain ⟨found', last', hrun', hvalues⟩ := ih hnext version'
    refine ⟨_, last', .found hstep' hrun', ?_⟩
    rw [values, List.map_cons, hvalue]
    exact congrArg (_ :: ·) hvalues

/-- **A stream that comes to its end without a group that waits leaves nothing behind**: what follows it is read as from
a start. -/
theorem Run.followed (hrun : Run s found ending last) (hending : ending = .finished)
    (hgroups : last.state.root.groups = []) (h : s.Sound) (hdone : s.done = false) (q : Bytes)
    (version : Option VersionHeader) :
    ∃ front version', values front = values found ∧ ∀ {rest ending' last'},
      Run ((start q s.registry).within s.input [] version') rest ending' last' →
        Run (s.within [] q version) (front ++ rest) ending' last' := by
  induction hrun generalizing version with
  | failed => cases hending
  | @finished s last hstep =>
    refine ⟨[], version, rfl, fun hrest => hrest.congr ?_⟩
    obtain ⟨st, hsettle, rfl⟩ := h.inBounds.step_eq_finished.1 hstep
    obtain ⟨hnested, -, hcursor⟩ := h.finished hsettle
    obtain ⟨hst, -, -⟩ := h.settled hsettle
    obtain ⟨closed, ht, -⟩ := State.settle_eq_false.1 hsettle
    -- all that settling leaves is the root, without groups, and the cursor at the seam
    have hstate : st.within 0 (s.input ++ q).length =
        (State.start q.length).within s.input.length (s.input ++ q).length := by
      obtain ⟨⟨stop, mode, context, groups⟩, nested, cursor⟩ := st
      have hmode := hst.coldStart
      have hcontext := hst.unnamed
      dsimp only at hnested hgroups hcursor hmode hcontext
      subst hnested hgroups hcursor hmode hcontext
      simp only [State.within, State.start, Nat.zero_add]
      rfl
    have hnil : s.input ++ q ++ [] = s.input ++ q := List.append_nil _
    refine step_congr ?_ ?_ rfl rfl hdone.symm
    · show ((State.start q.length).within s.input.length (s.input ++ q ++ []).length).settle =
        (s.state.within 0 (s.input ++ q).length).settle
      rw [hnil, ← hstate, (ht.within 0 _).settle_eq]
    · exact hnil
  | found hstep _ ih =>
    obtain ⟨hnext, o', version', hstep', hvalue⟩ := step_within_of_found hstep h [] q version
    obtain ⟨st, v, transition, -, rfl, rfl⟩ := h.inBounds.step_eq_found.1 hstep
    obtain ⟨front, version'', hvalues, hfollowed⟩ := ih hending hgroups hnext hdone version'
    refine ⟨_ :: front, version'', ?_, fun hrest => .found hstep' (hfollowed hrest)⟩
    rw [values, List.map_cons, hvalue]
    exact congrArg (_ :: ·) hvalues

end Session
end Quadlet
