import Quadlet.Proofs.Session.Step
/-!
# Runs — steps one after the other, up to an end

`Run` has no bound on the number of steps; `pull_of_run` says that what `pull` returns is a run seen through its hooks.
What the steps keep is `Sound`: frames lie in each other, the cursor lies in all of them, every group waits for a value,
and every registry that may come into force is loaded.  So each value takes at least a byte of what is left
(`Finds.sound`), a run comes to an end (`exists_run`), and `decode` shows all of it (`decode_of_run`).
-/
namespace Quadlet

/-! ## What the steps keep -/

/-- A frame that may be open at a cursor. -/
structure Frame.Sound (f : Frame) (cursor : Nat) : Prop where
  cursor_le : cursor ≤ f.stop
  context : ∀ r, f.context = some r → r.Loaded
  waiting : ∀ g ∈ f.groups, 0 < g.2 ∧ g.2 ≤ g.1.count
  contexts : ∀ g ∈ f.groups, ∀ r, g.1.context = some r → r.Loaded

theorem mem_popped {g : Group × Nat} :
    ∀ {groups : List (Group × Nat)}, g ∈ popped groups → (∃ h ∈ groups, h.1 = g.1 ∧ g.2 ≤ h.2) ∧ (0 < g.2 ∨ g ∈ groups)
  | (group, remaining) :: rest, h => by
    rw [popped] at h
    split at h
    · exact ⟨⟨g, List.mem_cons_of_mem _ h, rfl, Nat.le_refl _⟩, .inr (List.mem_cons_of_mem _ h)⟩
    · rcases List.mem_cons.1 h with rfl | h
      · refine ⟨⟨_, List.mem_cons_self, rfl, Nat.sub_le _ _⟩, .inl ?_⟩
        dsimp only
        omega
      · exact ⟨⟨g, List.mem_cons_of_mem _ h, rfl, Nat.le_refl _⟩, .inr (List.mem_cons_of_mem _ h)⟩

/-- Taking a value off the innermost group leaves a frame that may be open further on. -/
theorem Frame.Sound.popped {f : Frame} {cursor next : Nat} (h : f.Sound cursor) (hnext : next ≤ f.stop) :
    { f with groups := popped f.groups : Frame }.Sound next := by
  refine ⟨hnext, h.context, fun g hg => ?_, fun g hg => ?_⟩
  · obtain ⟨⟨k, hk, hk1, hk2⟩, hpos⟩ := mem_popped hg
    have hle := (h.waiting k hk).2
    rw [hk1] at hle
    refine ⟨?_, by omega⟩
    rcases hpos with hpos | hmem
    · exact hpos
    · exact (h.waiting g hmem).1
  · obtain ⟨⟨k, hk, hk1, -⟩, -⟩ := mem_popped hg
    exact fun r hr => h.contexts k hk r (by rw [hk1]; exact hr)

theorem Frame.Sound.outstanding_eq_zero {f : Frame} {cursor : Nat} (h : f.Sound cursor) :
    f.outstanding = 0 ↔ f.groups = [] :=
  Frame.outstanding_eq_zero (fun g hg => (h.waiting g hg).1)

namespace State

/-- **What holds of every state**: each frame lies in the one around it, and only the root is read by first bytes. -/
structure Sound (s : State) : Prop where
  frames : ∀ f ∈ s.stack, f.Sound s.cursor
  nested : s.stack.Pairwise (fun f g => f.stop ≤ g.stop)
  coded : ∀ f ∈ s.nested, f.mode = .coded
  coldStart : s.root.mode = .coldStart
  unnamed : s.root.context = none

variable {s t : State}

theorem sound_start (length : Nat) : (start length).Sound := by
  refine ⟨fun f hf => ?_, List.pairwise_singleton _ _, fun f hf => (by cases hf), rfl, rfl⟩
  obtain rfl := List.mem_singleton.1 hf
  exact ⟨Nat.zero_le _, fun r hr => (by cases hr), fun g hg => (by cases hg), fun g hg => (by cases hg)⟩

theorem Sound.settles {closed : List Frame} (h : s.Sound) (hs : Settles s t closed) : t.Sound := by
  have hstack := hs.stack_eq
  refine ⟨fun f hf => ?_, ?_, fun f hf => ?_, ?_, ?_⟩
  · rw [hs.cursor_eq]
    exact h.frames f (by rw [hstack]; exact List.mem_append_right _ hf)
  · have hnested := h.nested
    rw [hstack] at hnested
    exact (List.pairwise_append.1 hnested).2.1
  · exact h.coded f (by rw [hs.nested_eq]; exact List.mem_append_right _ hf)
  · rw [hs.root_eq]
    exact h.coldStart
  · rw [hs.root_eq]
    exact h.unnamed

theorem Sound.frame_le (h : s.Sound) {f : Frame} (hf : f ∈ s.stack) : s.frame.stop ≤ f.stop := by
  have hnested := h.nested
  rw [s.stack_eq] at hf hnested
  rcases List.mem_cons.1 hf with rfl | hf
  · exact Nat.le_refl _
  · exact (List.pairwise_cons.1 hnested).1 f hf

theorem Sound.inherited (h : s.Sound) {r : Registry} (hr : s.inherited = some r) : r.Loaded := by
  have hframe := h.frames _ s.frame_mem_stack
  rcases Option.or_eq_some_iff.1 hr with hgroup | ⟨-, hcontext⟩
  · obtain ⟨group, hgroup, hcontext⟩ := Option.bind_eq_some_iff.1 hgroup
    obtain ⟨g, hg, rfl⟩ := Option.map_eq_some_iff.1 hgroup
    exact hframe.contexts g (List.mem_of_mem_head? hg) r hcontext
  · exact hframe.context r hcontext

theorem Sound.withGroups (h : s.Sound) {groups : List (Group × Nat)} {n : Nat}
    (hframe : { s.frame with groups : Frame }.Sound n) : { s.withGroups groups with cursor := n : State }.Sound := by
  have hstack := s.stack_eq
  have hframes := h.frames
  have hnested := h.nested
  rw [hstack] at hframes hnested
  have hstack' : State.stack { s.withGroups groups with cursor := n } = { s.frame with groups } :: s.stack.tail :=
    s.stack_withGroups groups
  obtain ⟨-, hmode, hcontext⟩ := s.root_withGroups groups
  refine ⟨?_, ?_, fun f hf => ?_, hmode.trans h.coldStart, hcontext.trans h.unnamed⟩
  · rw [hstack']
    intro f hf
    rcases List.mem_cons.1 hf with rfl | hf
    · exact hframe
    · have hf' := hframes f (List.mem_cons_of_mem _ hf)
      have hle : s.frame.stop ≤ f.stop := (List.pairwise_cons.1 hnested).1 f hf
      exact ⟨Nat.le_trans hframe.cursor_le hle, hf'.context, hf'.waiting, hf'.contexts⟩
  · rw [hstack', List.pairwise_cons]
    exact List.pairwise_cons.1 hnested
  · cases hs : s.nested with
    | nil => simp [State.withGroups, hs] at hf
    | cons g rest =>
      simp only [State.withGroups, hs, List.mem_cons] at hf
      rcases hf with rfl | hf
      · exact h.coded g (by rw [hs]; exact List.mem_cons_self)
      · exact h.coded f (by rw [hs]; exact List.mem_cons_of_mem _ hf)

theorem Sound.taken (h : s.Sound) {n : Nat} (hn : s.cursor + n ≤ s.frame.stop) : (s.taken n).Sound :=
  h.withGroups ((h.frames _ s.frame_mem_stack).popped hn)

theorem Sound.pushGroup (h : s.Sound) {group : Group} (hgroup : ∀ r, group.context = some r → r.Loaded) :
    (s.pushGroup group).Sound := by
  by_cases hcount : group.count = 0
  · rw [State.pushGroup, if_pos hcount]
    exact h
  rw [State.pushGroup, if_neg hcount]
  have hframe := h.frames _ s.frame_mem_stack
  have hsame : { s.withGroups ((group, group.count) :: s.frame.groups) with cursor := s.cursor : State } =
      s.withGroups ((group, group.count) :: s.frame.groups) := by cases hs : s.nested <;> simp [State.withGroups, hs]
  rw [← hsame]
  refine h.withGroups ⟨hframe.cursor_le, hframe.context, fun g hg => ?_, fun g hg => ?_⟩ <;>
    rcases List.mem_cons.1 hg with rfl | hg
  · exact ⟨Nat.pos_of_ne_zero hcount, Nat.le_refl _⟩
  · exact hframe.waiting g hg
  · exact hgroup
  · exact hframe.contexts g hg

theorem Sound.pushFrame (h : s.Sound) {stop : Nat} {context : Option Registry} (hcursor : s.cursor ≤ stop)
    (hstop : stop ≤ s.frame.stop) (hcontext : ∀ r, context = some r → r.Loaded) : (s.pushFrame stop context).Sound := by
  refine ⟨fun f hf => ?_, List.pairwise_cons.2 ⟨fun f hf => ?_, h.nested⟩, fun f hf => ?_, h.coldStart,
    h.unnamed⟩
  · rcases List.mem_cons.1 hf with rfl | hf
    · exact ⟨hcursor, hcontext, fun g hg => (by cases hg), fun g hg => (by cases hg)⟩
    · exact h.frames f hf
  · exact Nat.le_trans hstop (h.frame_le hf)
  · rcases List.mem_cons.1 hf with rfl | hf
    · rfl
    · exact h.coded f hf

end State

namespace Session

/-- **What holds of every session** between its steps. -/
structure Sound (s : Session) : Prop where
  loaded : s.registry.Loaded
  state : s.state.Sound
  root_stop : s.state.root.stop = s.input.length

variable {s next : Session} {st : State} {v : Value} {transition : Transition} {o : Observation}

theorem sound_start {r : Registry} (hr : r.Loaded) (input : Bytes) : (start input r).Sound :=
  ⟨hr, State.sound_start input.length, rfl⟩

theorem Sound.settled {b : Bool} (h : s.Sound) (hs : s.state.settle = (.ok b, st)) :
    st.Sound ∧ st.root = s.state.root ∧ st.cursor = s.state.cursor := by
  obtain ⟨_, ht⟩ := State.settles_of_settle hs
  exact ⟨h.state.settles ht, ht.root_eq, ht.cursor_eq⟩

/-- At the end of a run the root is all that is left, it is read to its end, and its sum of what groups wait for is
zero. -/
theorem Sound.finished (h : s.Sound) (hs : s.state.settle = (.ok false, st)) :
    st.nested = [] ∧ st.root.pending = 0 ∧ st.cursor = s.input.length := by
  obtain ⟨hsound, hroot, -⟩ := h.settled hs
  obtain ⟨_, -, hnested, hstop, hpending⟩ := State.settle_eq_false.1 hs
  have hframe := hsound.frames _ st.root_mem_stack
  refine ⟨hnested, hpending, Nat.le_antisymm ?_ ?_⟩
  · rw [← h.root_stop, ← hroot]
    exact hframe.cursor_le
  · rw [← h.root_stop, ← hroot]
    exact hstop

theorem Sound.inForce (h : s.Sound) (hst : st.Sound) : (s.inForce st).Loaded := by
  unfold Session.inForce
  cases hinherited : st.inherited with
  | none => exact h.loaded
  | some r => exact hst.inherited hinherited

/-- What is read at a settled state is framed by what is left of the innermost frame, and lies in the input. -/
theorem framed_of_readAt (h : s.Sound) (hsettle : s.state.settle = (.ok true, st)) (hread : s.readAt st = .ok v) :
    st.Sound ∧ v.Framed (s.input.slice st.cursor st.frame.stop) ∧ st.frame.stop ≤ s.input.length ∧
      st.cursor + v.length ≤ st.frame.stop := by
  obtain ⟨hst, hroot, -⟩ := h.settled hsettle
  have hstop : st.frame.stop ≤ s.input.length := by
    rw [← h.root_stop, ← hroot]
    exact hst.frame_le st.root_mem_stack
  have hcursor := (hst.frames _ st.frame_mem_stack).cursor_le
  have hframed : v.Framed (s.input.slice st.cursor st.frame.stop) := by
    simp only [readAt] at hread
    split at hread
    · exact (Value.framed_sniff (h.inForce hst) hread).1
    · exact (Value.framed_coded (h.inForce hst) hread).1
  have hlen := hframed.length_le
  rw [Bytes.length_slice _ _ _ hstop] at hlen
  exact ⟨hst, hframed, hstop, by omega⟩

theorem Sound.inBounds (h : s.Sound) : s.InBounds := by
  intro st v hsettle hread
  obtain ⟨-, hframed, -, hle⟩ := framed_of_readAt h hsettle hread
  exact Nat.le_trans (Nat.add_le_add_left hframed.consumed_le _) hle

theorem Finds.framed (hf : Finds s st v transition) (h : s.Sound) :
    st.Sound ∧ v.Framed (s.input.slice st.cursor st.frame.stop) ∧ st.frame.stop ≤ s.input.length ∧
      st.cursor + v.length ≤ st.frame.stop := framed_of_readAt h hf.settled hf.read

/-- What holds of a registry and goes over to its contexts holds of the registry that a group is read under. -/
theorem forall_groupContext {P : Registry → Prop}
    (hP : ∀ {q : Registry} {name : String} {p : Registry}, P q → q.context name = .ok p → P p) {r : Registry} (hr : P r)
    {inherited context : Option Registry} {c : CodeHeader} (hinherited : ∀ q, inherited = some q → P q)
    (h : groupContext r inherited c = .ok context) : ∀ q, context = some q → P q := by
  rintro q rfl
  unfold groupContext at h
  split at h
  · obtain ⟨p, hp, hq⟩ := map_eq_ok.1 h
    cases hq
    unfold CodeHeader.context at hp
    split at hp
    · exact hP hr hp
    · cases hp
  · cases h
    exact hinherited q rfl

theorem root_stop_apply (t : State) : (t.apply transition).root.stop = t.root.stop := by
  cases transition with
  | stay => rfl
  | openFrame => rfl
  | openGroup group =>
    rw [State.apply, State.pushGroup_eq]
    exact (t.root_withGroups _).1

theorem cursor_apply (t : State) : (t.apply transition).cursor = t.cursor := by
  cases transition with
  | stay => rfl
  | openFrame => rfl
  | openGroup group =>
    rw [State.apply, State.pushGroup_eq]
    exact State.cursor_withGroups _ _

/-- **What a step keeps**: the session behind a value is sound, with the cursor behind the bytes that it takes. -/
theorem Finds.sound (hf : Finds s st v transition) (h : s.Sound) :
    (s.behind st v transition).Sound ∧
      (s.behind st v transition).state.cursor = s.state.cursor + v.consumed ∧ 0 < v.consumed := by
  obtain ⟨hst, hframed, hstop, hle⟩ := hf.framed h
  obtain ⟨-, hroot, hcursor⟩ := h.settled hf.settled
  have htaken := hst.taken hf.inside
  refine ⟨⟨h.loaded, ?_, ?_⟩, ?_, hframed.consumed_pos⟩
  · show ((st.taken v.consumed).apply transition).Sound
    obtain _ | _ | ⟨_, _, hnamed⟩ := hf.opens
    · exact htaken
    · have hconsumed := hframed.consumed_le
      refine htaken.pushFrame ?_ ?_ (fun r hr => hst.inherited hr)
      · show st.cursor + v.consumed ≤ v.start + st.cursor + v.length
        omega
      · have hstart := hframed.start_eq
        rw [State.frame_taken]
        show v.start + st.cursor + v.length ≤ st.frame.stop
        omega
    · exact htaken.pushGroup
        (forall_groupContext (fun h => h.context) (h.inForce hst) (fun q hq => hst.inherited hq) hnamed)
  · show ((st.taken v.consumed).apply transition).root.stop = s.input.length
    rw [root_stop_apply, (st.root_taken _).1, hroot, h.root_stop]
  · show ((st.taken v.consumed).apply transition).cursor = _
    rw [cursor_apply, ← hcursor]
    rfl

/-! ## Runs -/

/-- The steps of a session up to its end or its first error: what they find, each with the state behind it. -/
inductive Run : Session → List (Observation × State) → Ending → Session → Prop where
  | finished {s last : Session} (step : s.step = .finished last) : Run s [] .finished last
  | failed {s last : Session} {e : DecodeError} (step : s.step = .failed e last) : Run s [] (.failed e) last
  | found {s next last : Session} {o : Observation} {found : List (Observation × State)} {ending : Ending}
    (step : s.step = .found o next) (rest : Run next found ending last) :
    Run s ((o, next.state) :: found) ending last

def values (found : List (Observation × State)) : List Value := found.map (fun p => p.1.value)

theorem pull_found {α : Type} (hooks : Hooks Id α) {n : Nat} (hdone : s.done = false) (hstep : s.step = .found o next) :
    s.pull hooks (n + 1) =
      ((hooks.call o.kind o.context o.value, next.state) :: (next.pull hooks n).1, (next.pull hooks n).2) := by
  simp only [pull, next_eq_step hooks hdone, hstep]
  rfl

/-- What `pull` returns is a run seen through its hooks. -/
theorem pull_of_run {α : Type} (hooks : Hooks Id α) {found : List (Observation × State)} {ending : Ending}
    {last : Session} (hrun : Run s found ending last) :
    ∀ {n : Nat}, s.Sound → s.done = false → found.length < n →
      s.pull hooks n = (found.map (fun p => (hooks.call p.1.kind p.1.context p.1.value, p.2)), ending, last) := by
  induction hrun with
  | finished hstep =>
    rintro (_ | n) - hdone hn
    · cases hn
    · simp only [pull, next_eq_step hooks hdone, hstep]
      rfl
  | failed hstep =>
    rintro (_ | n) - hdone hn
    · cases hn
    · simp only [pull, next_eq_step hooks hdone, hstep]
      rfl
  | found hstep _ ih =>
    rintro (_ | n) h hdone hn
    · cases hn
    · obtain ⟨st, v, transition, hf, rfl, rfl⟩ := h.inBounds.step_eq_found.1 hstep
      have hrest := ih (hf.sound h).1 hdone (Nat.lt_of_succ_lt_succ hn)
      rw [pull_found hooks hdone hstep, hrest]
      rfl

/-- **Every session comes to an end**, after no more values than there are bytes left. -/
theorem exists_run {s : Session} (h : s.Sound) :
    ∃ found ending last, Run s found ending last ∧ found.length + s.state.cursor ≤ s.input.length := by
  have hcursor : s.state.cursor ≤ s.input.length := by
    rw [← h.root_stop]
    exact (h.state.frames _ s.state.root_mem_stack).cursor_le
  cases hstep : s.step with
  | finished last => exact ⟨[], .finished, last, .finished hstep, by simpa using hcursor⟩
  | failed e last => exact ⟨[], .failed e, last, .failed hstep, by simpa using hcursor⟩
  | found o next =>
    obtain ⟨st, v, transition, hf, rfl, rfl⟩ := h.inBounds.step_eq_found.1 hstep
    obtain ⟨hsound, hnext, hpos⟩ := hf.sound h
    have hroot := (hsound.state.frames _ (State.root_mem_stack _)).cursor_le
    rw [hsound.root_stop] at hroot
    have hroot : (s.behind st v transition).state.cursor ≤ s.input.length := hroot
    obtain ⟨found, ending, last, hrun, hlen⟩ := exists_run hsound
    have hlen : found.length + (s.behind st v transition).state.cursor ≤ s.input.length := hlen
    refine ⟨_, ending, last, .found hstep hrun, ?_⟩
    rw [List.length_cons]
    omega
termination_by s.input.length - s.state.cursor
decreasing_by
  show s.input.length - (s.behind st v transition).state.cursor < s.input.length - s.state.cursor
  omega

theorem Run.unique {found found' : List (Observation × State)} {ending ending' : Ending} {last last' : Session}
    (hrun : Run s found ending last) (hrun' : Run s found' ending' last') :
    found = found' ∧ ending = ending' ∧ last = last' := by
  induction hrun generalizing found' with
  | finished hstep => cases hrun' <;> simp_all
  | failed hstep => cases hrun' <;> simp_all
  | found hstep _ ih =>
    cases hrun' with
    | finished hstep' => simp [hstep] at hstep'
    | failed hstep' => simp [hstep] at hstep'
    | found hstep' hrest' =>
      rw [hstep] at hstep'
      cases hstep'
      obtain ⟨rfl, rfl, rfl⟩ := ih hrest'
      exact ⟨rfl, rfl, rfl⟩

theorem Run.ending_ne {found : List (Observation × State)} {ending : Ending} {last : Session}
    (hrun : Run s found ending last) : ending ≠ .unfinished := by
  induction hrun with
  | finished => exact fun h => (by cases h)
  | failed => exact fun h => (by cases h)
  | found _ _ ih => exact ih

/-! ## Decoding -/

/-- The values of an input, and how its session ends. -/
def decode (r : Registry) (input : Bytes) : List Value × Ending :=
  let (found, ending, _) := Id.run ((start input r).run Hooks.passthrough)
  (found.map Prod.fst, ending)

/-- **The run from the start of an input is all there is.** -/
theorem run_of_run {α : Type} {r : Registry} (hr : r.Loaded) (hooks : Hooks Id α) {input : Bytes}
    {found : List (Observation × State)} {ending : Ending} {last : Session}
    (hrun : Run (start input r) found ending last) :
    (start input r).run hooks =
      (found.map (fun p => (hooks.call p.1.kind p.1.context p.1.value, p.2)), ending, last) := by
  obtain ⟨found', ending', last', hrun', hlen⟩ := exists_run (sound_start hr input)
  obtain ⟨rfl, rfl, rfl⟩ := hrun.unique hrun'
  have hlen : found.length + 0 ≤ input.length := hlen
  exact pull_of_run hooks hrun (sound_start hr input) rfl (by show found.length < input.length + 1; omega)

theorem decode_of_run {r : Registry} (hr : r.Loaded) {input : Bytes} {found : List (Observation × State)}
    {ending : Ending} {last : Session} (hrun : Run (start input r) found ending last) :
    decode r input = (values found, ending) := by
  unfold decode
  rw [run_of_run hr _ hrun]
  simp only [Id.run, List.map_map, values, Function.comp_def, Hooks.call_passthrough]

/-- The state that the session of an input comes to. -/
def endState (r : Registry) (input : Bytes) : State := (Id.run ((start input r).run Hooks.passthrough)).2.2.state

theorem endState_of_run {r : Registry} (hr : r.Loaded) {input : Bytes} {found : List (Observation × State)}
    {ending : Ending} {last : Session} (hrun : Run (start input r) found ending last) :
    endState r input = last.state := by
  rw [endState, run_of_run hr _ hrun]
  rfl

/-- Hooks that note all that they are told. -/
def recording : Hooks Id (ValueKind × HookContext × Value) where
  fallback := fun kind context v => (kind, context, v)

/-- What the hooks are told of the values of an input. -/
def recorded (r : Registry) (input : Bytes) : List (ValueKind × HookContext × Value) :=
  (Id.run ((start input r).run recording)).1.map Prod.fst

theorem recorded_of_run {r : Registry} (hr : r.Loaded) {input : Bytes} {found : List (Observation × State)}
    {ending : Ending} {last : Session} (hrun : Run (start input r) found ending last) :
    recorded r input = found.map (fun p => (p.1.kind, p.1.context, p.1.value)) := by
  have hcall : ∀ kind context v, recording.call kind context v = (kind, context, v) := by
    intro kind context v
    cases kind <;> rfl
  unfold recorded
  rw [run_of_run hr recording hrun]
  simp only [Id.run, List.map_map, Function.comp_def, hcall]

theorem exists_run_start {r : Registry} (hr : r.Loaded) (input : Bytes) :
    ∃ found ending last, Run (start input r) found ending last ∧ decode r input = (values found, ending) := by
  obtain ⟨found, ending, last, hrun, -⟩ := exists_run (sound_start hr input)
  exact ⟨found, ending, last, hrun, decode_of_run hr hrun⟩

/-! ## More values than a word counts -/

/-- A counter of ten digits, whose number is multiplied by four. -/
def wideSizes : String := "\x7b\"Counter\":\x7b\"-A\":\x7b\"hs\":2,\"ss\":10,\"fs\":12\x7d\x7d\x7d"

def wideCounters : String := "\x7b\"Counter\":\x7b\"-A\":\x7b\"repeat\":\"x4\"\x7d\x7d\x7d"

/-- Five groups in each other, which wait for as many values as a word wraps around at: the sum of them is zero. -/
def wideGroups : Bytes :=
  Bytes.ofString "-A__________-A__________-A__________-A__________-AAAAAAAAAAF"

end Session
end Quadlet
