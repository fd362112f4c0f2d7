import Quadlet.Proofs.Session.Contexts
import Quadlet.Proofs.Shortage
/-!
# Truncation — how a stream that is cut short ends

`cut` is a session of which only the first bytes of the input are there.  While no open frame reaches beyond the cut it
finds what the whole session finds (`Finds.cut`), and no such frame is opened, for the counter of a frame is read only
where all of the frame is there.  So the first value that the cut goes through lies in the root, and is read short
(`Finds.cut_short`); a cut in front of a value leaves the root at its end, with or without groups that wait
(`cut_at_cursor`).  Groups wait if the frame says so, which sums them up in a word, and seal source triples end at a cut
only where no code in them wraps around (`not_decode_take_wrapping`).
-/
namespace Quadlet

/-! ## The bytes in front of a cut -/

namespace Bytes

theorem slice_take (b : Bytes) (k start stop : Nat) :
    Bytes.slice (b.take k) start stop = b.slice start (min stop k) := by
  rw [slice, slice, List.take_take]

theorem take_slice (b : Bytes) {start stop stop' n : Nat} (h : start + n ≤ stop) (h' : start + n ≤ stop') :
    (b.slice start stop).take n = (b.slice start stop').take n := by
  rw [slice, slice, List.take_drop, List.take_drop, List.take_take, List.take_take, Nat.min_eq_left h,
    Nat.min_eq_left h']

theorem slice_eq_take (b : Bytes) {start stop k : Nat} (h : k ≤ stop) :
    b.slice start k = (b.slice start stop).take (k - start) := by
  rcases Nat.le_total start k with hle | hle
  · rw [slice, slice, List.take_drop, List.take_take, Nat.add_sub_cancel' hle, Nat.min_eq_left h]
  · rw [Nat.sub_eq_zero_of_le hle, List.take_zero, slice]
    exact List.drop_eq_nil_of_le (Nat.le_trans (List.length_take_le _ _) hle)

end Bytes

namespace State

/-- The state in an input that ends at `k`. -/
def cut (s : State) (k : Nat) : State := { s with root := { s.root with stop := k } }

variable {s t : State} {k : Nat}

theorem frame_cut (s : State) (k : Nat) :
    (s.cut k).frame = { s.frame with stop := if s.nested = [] then k else s.frame.stop } := by
  obtain ⟨root, nested, cursor⟩ := s
  cases nested <;> rfl

theorem group_cut (s : State) (k : Nat) : (s.cut k).group = s.group := by
  rw [group, frame_cut]
  rfl

theorem inherited_cut (s : State) (k : Nat) : (s.cut k).inherited = s.inherited := by
  rw [inherited, group_cut, frame_cut]
  rfl

theorem withGroups_cut (s : State) (k : Nat) (groups : List (Group × Nat)) :
    (s.cut k).withGroups groups = (s.withGroups groups).cut k := by
  obtain ⟨root, nested, cursor⟩ := s
  cases nested <;> rfl

theorem taken_cut (s : State) (k n : Nat) : (s.cut k).taken n = (s.taken n).cut k := by
  rw [taken, withGroups_cut, frame_cut]
  rfl

theorem apply_cut (s : State) (k : Nat) (transition : Transition) :
    (s.cut k).apply transition = (s.apply transition).cut k := by
  cases transition with
  | stay => rfl
  | openFrame => rfl
  | openGroup group => rw [apply, apply, pushGroup_eq, pushGroup_eq, withGroups_cut, frame_cut]

theorem Settles.cut {closed : List Frame} (h : Settles s t closed) (k : Nat) : Settles (s.cut k) (t.cut k) closed where
  nested_eq := h.nested_eq
  exhausted := h.exhausted
  root_eq := by rw [State.cut, State.cut, h.root_eq]
  cursor_eq := h.cursor_eq

end State

namespace Session

/-- The session with only the first `k` bytes of its input. -/
def cut (s : Session) (k : Nat) : Session := { s with input := s.input.take k, state := s.state.cut k }

theorem cut_start (input : Bytes) (r : Registry) {k : Nat} (hk : k ≤ input.length) :
    (start input r).cut k = start (input.take k) r := by
  simp only [cut, start, State.cut, State.start, List.length_take, Nat.min_eq_left hk]

/-- No frame inside the root reaches beyond the cut. -/
def FitsCut (s : Session) (k : Nat) : Prop := ∀ n ∈ s.state.nested.map Frame.stop, n ≤ k

variable {s : Session} {st : State} {v : Value} {transition : Transition} {k : Nat}

/-! ## Values in front of the cut -/

theorem inForce_cut : (s.cut k).inForce (st.cut k) = s.inForce st := by
  rw [inForce, State.inherited_cut]
  rfl

theorem readAt_cut :
    (s.cut k).readAt (st.cut k) =
      if st.group.isNone && st.frame.mode = .coldStart then
        Value.sniff (s.inForce st) (s.input.slice st.cursor (min (st.cut k).frame.stop k))
      else Value.coded (s.inForce st) (s.input.slice st.cursor (min (st.cut k).frame.stop k)) := by
  simp only [readAt, inForce_cut, State.group_cut]
  rw [State.frame_cut]
  simp only [cut, Bytes.slice_take]
  rfl

theorem fitsCut_of_settles {closed : List Frame} (hfits : s.FitsCut k) (hst : State.Settles s.state st closed) :
    ∀ n ∈ st.nested.map Frame.stop, n ≤ k := fun n hn => hfits n (mem_stops_settles hst hn)

/-- The innermost frame ends no later than the cut, or it is the root. -/
theorem frame_stop_le (hfits : ∀ n ∈ st.nested.map Frame.stop, n ≤ k) :
    st.nested = [] ∧ (st.cut k).frame.stop = k ∨
      st.nested ≠ [] ∧ (st.cut k).frame.stop = st.frame.stop ∧ st.frame.stop ≤ k := by
  rw [State.frame_cut]
  cases hnested : st.nested with
  | nil => exact .inl ⟨rfl, rfl⟩
  | cons f rest =>
    have hframe : st.frame = f := by rw [State.frame, hnested]; rfl
    refine .inr ⟨List.cons_ne_nil _ _, rfl, hfits _ ?_⟩
    rw [hnested, hframe]
    exact List.mem_cons_self

/-- **A value in front of the cut is found**, as in the whole. -/
theorem Finds.cut (hf : Finds s st v transition) (h : s.Sound)
    (hfit : v.IsTriples → (s.inForce st).PrimitivesFit) (hfits : s.FitsCut k) (hk : st.cursor + v.length ≤ k) :
    Finds (s.cut k) (st.cut k) v transition := by
  obtain ⟨hst, hframed, hstop, hle⟩ := hf.framed h
  obtain ⟨closed, hsettles, hlt⟩ := State.settle_eq_true.1 hf.settled
  have hpos := hframed.length_pos
  have hreach : st.cursor + v.length ≤ (st.cut k).frame.stop := by
    rcases frame_stop_le (fitsCut_of_settles hfits hsettles) with ⟨-, hcut⟩ | ⟨-, hcut, -⟩ <;> omega
  have htake : (s.input.slice st.cursor (min (st.cut k).frame.stop k)).take v.length =
      (s.input.slice st.cursor st.frame.stop).take v.length :=
    Bytes.take_slice _ (Nat.le_min.2 ⟨hreach, hk⟩) hle
  refine ⟨State.settle_eq_true.2 ⟨closed, hsettles.cut k, ?_⟩, ?_, ?_, ?_⟩
  · show st.cursor < _
    omega
  · have hread := hf.read
    rw [readAt_cut]
    simp only [readAt] at hread
    split at hread
    · next hcold =>
      rw [if_pos hcold]
      exact (Value.framed_sniff (h.inForce hst) hread).2.of_take hfit htake
    · next hcold =>
      rw [if_neg hcold]
      exact (Value.framed_coded (h.inForce hst) hread).2.of_take hfit htake
  · rw [inForce_cut, State.inherited_cut]
    exact hf.opens
  · have hconsumed := hframed.consumed_le
    show st.cursor + v.consumed ≤ _
    omega

theorem behind_cut : (s.cut k).behind (st.cut k) v transition = (s.behind st v transition).cut k := by
  rw [behind, State.taken_cut, State.apply_cut]
  rfl

theorem Finds.fitsCut (hf : Finds s st v transition) (hfits : s.FitsCut k) (hk : (v.shift st.cursor).stop ≤ k) :
    (s.behind st v transition).FitsCut k := by
  intro n hn
  rcases hf.mem_stops hn with hold | ⟨-, rfl⟩
  · exact hfits n hold
  · exact hk

/-! ## The cut -/

/-- **The value that the cut goes through is read short.**  It lies in the root, for no frame inside reaches so far. -/
theorem Finds.cut_short (hf : Finds s st v transition) (h : s.Sound)
    (hfit : v.IsTriples → (s.inForce st).PrimitivesFit) (hfits : s.FitsCut k) (hk : st.cursor < k)
    (hshort : k < st.cursor + v.length) :
    ∃ need last, Fails (s.cut k) (.shortage (k - st.cursor) need) last ∧ 1 ≤ need ∧
      need ≤ st.cursor + v.length - k := by
  obtain ⟨hst, hframed, hstop, hle⟩ := hf.framed h
  obtain ⟨closed, hsettles, hlt⟩ := State.settle_eq_true.1 hf.settled
  have hcut : (st.cut k).frame.stop = k := by
    rcases frame_stop_le (fitsCut_of_settles hfits hsettles) with ⟨-, hcut⟩ | ⟨-, -, hcut⟩
    · exact hcut
    · omega
  have hsettle : (s.cut k).state.settle = (.ok true, st.cut k) :=
    State.settle_eq_true.2 ⟨closed, hsettles.cut k, by rw [hcut]; exact hk⟩
  have hslice : s.input.slice st.cursor (min (st.cut k).frame.stop k) =
      (s.input.slice st.cursor st.frame.stop).take (k - st.cursor) := by
    rw [hcut, Nat.min_self]
    exact Bytes.slice_eq_take _ (by omega)
  have hlacks : Lacks ((s.cut k).readAt (st.cut k)) (k - st.cursor) (v.length - (k - st.cursor)) := by
    have hread := hf.read
    rw [readAt_cut, hslice]
    simp only [readAt] at hread
    split at hread
    · next hcold =>
      rw [if_pos hcold]
      exact Value.sniff_short (h.inForce hst) hread hfit (by omega)
    · next hcold =>
      rw [if_neg hcold]
      exact Value.coded_short (h.inForce hst) hread hfit (by omega)
  obtain ⟨need, herror, hpos, hneed⟩ := hlacks
  exact ⟨need, _, .read hsettle herror, hpos, by omega⟩

/-- **How a session ends at a cut**, when `state` is what the values in front of the cut leave and `next` is the value
behind them: at its end, at a group that waits, or short of bytes. -/
structure EndsAt (k : Nat) (state : State) (next : Option Value) (ending : Ending) : Prop where
  cursor_le : state.cursor ≤ k
  finished : k = state.cursor → (∀ f ∈ state.frames, f.pending = 0) → ending = .finished
  unclosed : k = state.cursor → (∃ f ∈ state.frames, 0 < f.pending) →
    ending = .failed (.unclosedGroup state.root.pending)
  short : k ≠ state.cursor → ∃ v need, next = some v ∧ v.start = state.cursor ∧ 1 ≤ need ∧ k + need ≤ v.stop ∧
    ending = .failed (.shortage (k - v.start) need)

/-- A cut where the root is all that is left: it is at its end. -/
theorem cut_at_cursor {closed : List Frame} (hst : State.Settles s.state st closed) (hnested : st.nested = [])
    (hk : k = s.state.cursor) (next : Option Value) :
    ∃ ending last, Run (s.cut k) [] ending last ∧ EndsAt k s.state next ending := by
  have hframes : ∀ f ∈ s.state.frames, f = s.state.root ∨ f.pending = 0 := by
    intro f hf
    rw [State.frames_eq_reverse, List.mem_reverse, hst.stack_eq, State.stack, hnested, hst.root_eq, List.nil_append,
      List.mem_append, List.mem_singleton] at hf
    exact hf.symm.imp_right (fun hclosed => (hst.exhausted f hclosed).2)
  have hroot : s.state.root ∈ s.state.frames := List.mem_cons_self
  have hsettles := hst.cut k
  have hstop : (st.cut k).root.stop ≤ (st.cut k).cursor := Nat.le_of_eq (hk.trans hst.cursor_eq.symm)
  have hpending : (st.cut k).root.pending = s.state.root.pending := by
    rw [← hst.root_eq]
    rfl
  rcases Nat.eq_zero_or_pos s.state.root.pending with hzero | hpos
  · have hsettle : (s.cut k).state.settle = (.ok false, st.cut k) :=
      State.settle_eq_false.2 ⟨closed, hsettles, hnested, hstop, hpending.trans hzero⟩
    refine ⟨.finished, _, .finished (step_of_settle_false hsettle), Nat.le_of_eq hk.symm, fun _ _ => rfl, ?_,
      fun hne => absurd hk hne⟩
    rintro - ⟨f, hf, hwaits⟩
    rcases hframes f hf with rfl | hnone <;> omega
  · have hframe : (st.cut k).frame = (st.cut k).root := by
      rw [State.frame, show (st.cut k).nested = [] from hnested]
      rfl
    have hsettle : (s.cut k).state.settle = (.error (.unclosedGroup s.state.root.pending), st.cut k) :=
      State.settle_eq_error.2 ⟨closed, hsettles, by rw [hframe]; exact hstop, by rw [hframe, hpending]; exact hpos,
        by rw [hframe, hpending]⟩
    refine ⟨_, _, .failed (step_of_settle_error hsettle), Nat.le_of_eq hk.symm, ?_, fun _ _ => rfl,
      fun hne => absurd hk hne⟩
    intro _ hnone
    have := hnone _ hroot
    omega

/-- A value that does not lie in front of the cut is not found: the cut is at the cursor, or goes through the value. -/
theorem Finds.cut_ends (hf : Finds s st v transition) (h : s.Sound)
    (hfit : v.IsTriples → (s.inForce st).PrimitivesFit) (hfits : s.FitsCut k) (hcursor : s.state.cursor ≤ k)
    (hbeyond : k < (v.shift st.cursor).stop) :
    ∃ ending last, Run (s.cut k) [] ending last ∧ EndsAt k s.state (some (v.shift st.cursor)) ending := by
  obtain ⟨-, hframed, -, hle⟩ := hf.framed h
  obtain ⟨closed, hst, hlt⟩ := State.settle_eq_true.1 hf.settled
  have hstart : (v.shift st.cursor).start = st.cursor := hframed.start_shift _
  have hstop : (v.shift st.cursor).stop = st.cursor + v.length := by rw [Value.stop, hstart]; rfl
  have hsame := hst.cursor_eq
  rcases Nat.lt_or_ge s.state.cursor k with hlt' | hge
  · obtain ⟨need, last, hfails, hpos, hneed⟩ := hf.cut_short h hfit hfits (by omega) (by omega)
    refine ⟨_, last, .failed hfails.step, hcursor, fun hk => absurd hk (Nat.ne_of_gt hlt'),
      fun hk => absurd hk (Nat.ne_of_gt hlt'), fun _ => ⟨_, need, rfl, hstart.trans hsame, hpos, by omega, ?_⟩⟩
    rw [hstart]
  · -- a frame inside the root would have ended at the cursor
    have hnested : st.nested = [] := by
      rcases frame_stop_le (fitsCut_of_settles hfits hst) with ⟨hnested, -⟩ | ⟨-, -, hcut⟩
      · exact hnested
      · omega
    exact cut_at_cursor hst hnested (Nat.le_antisymm hge hcursor) _

/-! ## Runs -/

variable {r : Registry} {found : List (Observation × State)} {ending : Ending} {last : Session}

/-- Where seal source triples are among the values, no primitive code of a registry that they may be read under wraps
around. -/
def TriplesFit (r : Registry) (vs : List Value) : Prop :=
  (∃ v ∈ vs, v.IsTriples) → ∀ q, r.Reaches q → q.PrimitivesFit

/-- **A run to the end, cut short**: the values in front of the cut are found, and then it ends as the cut says. -/
theorem Run.cut (hrun : Run s found ending last) (hending : ending = .finished) (h : s.Sound)
    (hwithin : s.Within r.Reaches) (hfit : TriplesFit r (values found)) (hdone : s.done = false) (hfits : s.FitsCut k)
    (hcursor : s.state.cursor ≤ k) (hk : k ≤ s.input.length) :
    ∃ found' ending' last', Run (s.cut k) found' ending' last' ∧
      values found' = (values found).takeWhile (fun v => v.stop ≤ k) ∧
      EndsAt k (s.after Hooks.passthrough found'.length).state ((values found)[found'.length]?) ending' := by
  induction hrun with
  | failed => cases hending
  | finished hstep =>
    obtain ⟨st, hsettle, -⟩ := h.inBounds.step_eq_finished.1 hstep
    obtain ⟨hnested, -, hend⟩ := h.finished hsettle
    obtain ⟨closed, hst⟩ := State.settles_of_settle hsettle
    have hkc : k = _ := Nat.le_antisymm (by rw [← hst.cursor_eq, hend]; exact hk) hcursor
    obtain ⟨ending', last', hrun', hends⟩ := cut_at_cursor hst hnested hkc none
    exact ⟨[], ending', last', hrun', rfl, hends⟩
  | @found s next last o found ending hstep hrest ih =>
    obtain ⟨st, v, transition, hf, rfl, rfl⟩ := h.inBounds.step_eq_found.1 hstep
    obtain ⟨_, hsettles⟩ := State.settles_of_settle hf.settled
    have hfit' : v.IsTriples → (s.inForce st).PrimitivesFit := fun htriples =>
      hfit ⟨v.shift st.cursor, List.mem_cons_self, htriples⟩ _ (hwithin.inForce (hwithin.2.settles hsettles))
    obtain ⟨-, hframed, -, -⟩ := hf.framed h
    obtain ⟨hsound, hnext, -⟩ := hf.sound h
    obtain ⟨-, -, hsame⟩ := h.settled hf.settled
    have hcons : values ((s.told st v transition, (s.behind st v transition).state) :: found) =
        v.shift st.cursor :: values found := rfl
    rw [hcons]
    rcases Nat.lt_or_ge k (v.shift st.cursor).stop with hbeyond | hfront
    · have hkept : (v.shift st.cursor :: values found).takeWhile (fun v => v.stop ≤ k) = [] :=
        List.takeWhile_cons_of_neg (by rw [decide_eq_true_eq]; exact Nat.not_le.2 hbeyond)
      obtain ⟨ending', last', hrun', hends⟩ := hf.cut_ends h hfit' hfits hcursor hbeyond
      exact ⟨[], ending', last', hrun', hkept.symm, hends⟩
    · have hkept : (v.shift st.cursor :: values found).takeWhile (fun v => v.stop ≤ k) =
          v.shift st.cursor :: (values found).takeWhile (fun v => v.stop ≤ k) :=
        List.takeWhile_cons_of_pos (decide_eq_true hfront)
      have hstop : (v.shift st.cursor).stop = st.cursor + v.length := by rw [Value.stop, hframed.start_shift]; rfl
      have hconsumed := hframed.consumed_le
      obtain ⟨found', ending', last', hrun', hvalues, hends⟩ :=
        ih hending hsound (hf.within_behind .context hwithin)
          (fun ⟨w, hw, htriples⟩ => hfit ⟨w, List.mem_cons_of_mem _ hw, htriples⟩) hdone (hf.fitsCut hfits hfront)
          (by omega) hk
      have hcut := hf.cut h hfit' hfits (hstop ▸ hfront)
      refine ⟨_, ending', last', .found hcut.step (behind_cut ▸ hrun'), ?_, ?_⟩
      · rw [hkept]
        exact congrArg (v.shift st.cursor :: ·) hvalues
      · rw [List.length_cons, after, next_eq_step _ hdone, hf.step]
        exact hends

/-- The KERI v1 tables ask for nothing. -/
theorem triplesFit_keriV1 (vs : List Value) : TriplesFit .keriV1 vs := by
  rintro - q hreaches
  obtain ⟨view, rfl⟩ := exists_view_of_reaches hreaches
  exact primitivesFit_inView view

/-- A group whose values are read under the registry of triples, and one whose values are read as around it. -/
def nestedSizes : String :=
  "\x7b\"Matter\":\x7b\"A\":\x7b\"hs\":1,\"ss\":0,\"fs\":4\x7d\x7d,\"Counter\":\x7b" ++
    "\"-J\":\x7b\"hs\":2,\"ss\":2,\"fs\":4\x7d,\"-K\":\x7b\"hs\":2,\"ss\":2,\"fs\":4\x7d\x7d\x7d"

def nestedCounters : String :=
  "\x7b\"Counter\":\x7b\"-J\":\x7b\"repeat\":\"x1\",\"context\":\"triples\"\x7d," ++
    "\"-K\":\x7b\"repeat\":\"x1\"\x7d\x7d\x7d"

/-- A triple in a group of one value, which is in a group of two. -/
def nestedTriples : Bytes := Bytes.ofString "-KAC-JAB-IABAAAA"

end Session
end Quadlet
