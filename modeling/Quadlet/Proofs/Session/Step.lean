import Quadlet.Session.Basic
import Quadlet.Proofs.Framing
import Quadlet.Proofs.Session.State
/-!
# Steps of a session — what a step can do, and what a run of steps is

`step` is one step without its hook: a value and the session behind it, the end, or an error.  `step_eq_found`,
`step_eq_finished` and `step_eq_failed` say all that it can do in a session whose values fit their frames (`InBounds`).
The state is settled first, so it matters only through what settling leaves.
-/
namespace Quadlet

/-! ## Kinds of values -/

def Header.kind : Header → ValueKind
  | .version _ => .serialization
  | .code h => if h.isFrame then .frame else if h.isGroup then .group else .leaf

/-- The code of a primitive opens nothing. -/
theorem Header.kind_of_isPrimitive {h : CodeHeader} (hd : h.descriptor.IsPrimitive) : (Header.code h).kind = .leaf := by
  simp [Header.kind, CodeHeader.isFrame, CodeHeader.isGroup, hd.kind_ne.1]

@[simp] theorem Hooks.call_passthrough (kind : ValueKind) (context : HookContext) (v : Value) :
    Hooks.passthrough.call kind context v = v := by
  cases kind <;> rfl

namespace Value

def kind (v : Value) : ValueKind := v.header.kind

/-- The bytes that a value takes itself: those of its code when other values are read in it or behind it. -/
def consumed (v : Value) : Nat :=
  match v.header with
  | .version _ => v.length
  | .code h => if h.isFrame || h.isGroup then h.codeLength else v.length

@[simp] theorem kind_shift (v : Value) (n : Nat) : (v.shift n).kind = v.kind := rfl

@[simp] theorem consumed_shift (v : Value) (n : Nat) : (v.shift n).consumed = v.consumed := rfl

@[simp] theorem header_shift (v : Value) (n : Nat) : (v.shift n).header = v.header := rfl

theorem shift_shift (v : Value) (m n : Nat) : (v.shift m).shift n = v.shift (m + n) := by
  simp only [shift, Nat.add_assoc]

variable {input : Bytes} {v : Value}

/-- A serialization or a leaf takes its whole span. -/
theorem consumed_of_stay (h : v.kind = .serialization ∨ v.kind = .leaf) : v.consumed = v.length := by
  obtain ⟨header, start, length⟩ := v
  cases header with
  | version => rfl
  | code c =>
    unfold kind Header.kind at h
    unfold consumed
    cases hf : c.isFrame <;> cases hg : c.isGroup <;> simp_all

theorem Framed.consumed_pos (h : v.Framed input) : 0 < v.consumed := by
  unfold consumed
  split
  · exact h.length_pos
  · next c hc =>
    split
    · exact h.code_pos hc
    · exact h.length_pos

theorem Framed.consumed_le (h : v.Framed input) : v.consumed ≤ v.length := by
  unfold consumed
  split
  · exact Nat.le_refl _
  · next c hc =>
    split
    · exact h.code_le hc
    · exact Nat.le_refl _

theorem Framed.start_shift (h : v.Framed input) (n : Nat) : (v.shift n).start = n := by
  show v.start + n = n
  rw [h.start_eq, Nat.zero_add]

end Value

namespace Session

/-! ## What a value opens -/

/-- What a value opens in a registry, when values inside it are read under `inherited`. -/
inductive Opens (r : Registry) (inherited : Option Registry) (v : Value) : Transition → Prop where
  | stay (kind : v.kind = .serialization ∨ v.kind = .leaf) : Opens r inherited v .stay
  | frame (kind : v.kind = .frame) : Opens r inherited v (.openFrame v.stop inherited)
  | group {h : CodeHeader} {context : Option Registry} (header : v.header = .code h) (kind : v.kind = .group)
    (named : groupContext r inherited h = .ok context) :
    Opens r inherited v (.openGroup ⟨h.descriptor.selector, h.count.getD 0, context⟩)

theorem classify_eq_ok {r : Registry} {inherited : Option Registry} {v : Value} {kind : ValueKind} {n : Nat}
    {transition : Transition} :
    classify r inherited v = .ok (kind, n, transition) ↔
      kind = v.kind ∧ n = v.consumed ∧ Opens r inherited v transition := by
  obtain ⟨header, start, length⟩ := v
  unfold classify
  cases header with
  | version h =>
    constructor
    · intro heq
      cases heq
      exact ⟨rfl, rfl, .stay (.inl rfl)⟩
    · rintro ⟨rfl, rfl, hopens⟩
      cases hopens with
      | stay => rfl
      | frame hk => cases hk
      | group hh => cases hh
  | code h =>
    by_cases hframe : h.isFrame = true
    · have hkind : Value.kind ⟨.code h, start, length⟩ = .frame := by simp [Value.kind, Header.kind, hframe]
      have hconsumed : Value.consumed ⟨.code h, start, length⟩ = h.codeLength := by simp [Value.consumed, hframe]
      simp only [hframe, if_true, hkind, hconsumed]
      constructor
      · intro heq
        cases heq
        exact ⟨rfl, rfl, .frame hkind⟩
      · rintro ⟨rfl, rfl, hopens⟩
        cases hopens with
        | stay hk => simp [hkind] at hk
        | frame => rfl
        | group _ hk => simp [hkind] at hk
    · by_cases hgroup : h.isGroup = true
      · have hkind : Value.kind ⟨.code h, start, length⟩ = .group := by simp [Value.kind, Header.kind, hframe, hgroup]
        have hconsumed : Value.consumed ⟨.code h, start, length⟩ = h.codeLength := by simp [Value.consumed, hgroup]
        simp only [hframe, hgroup, if_true, hkind, hconsumed, Bool.false_eq_true, if_false, map_eq_ok]
        constructor
        · rintro ⟨context, hcontext, heq⟩
          cases heq
          exact ⟨rfl, rfl, .group rfl hkind hcontext⟩
        · rintro ⟨rfl, rfl, hopens⟩
          cases hopens with
          | stay hk => simp [hkind] at hk
          | frame hk => simp [hkind] at hk
          | @group h' context hh _ hcontext =>
            cases hh
            exact ⟨context, hcontext, rfl⟩
      · have hkind : Value.kind ⟨.code h, start, length⟩ = .leaf := by simp [Value.kind, Header.kind, hframe, hgroup]
        have hconsumed : Value.consumed ⟨.code h, start, length⟩ = length := by
          simp [Value.consumed, hframe, hgroup]
        simp only [hframe, hgroup, hkind, hconsumed, Bool.false_eq_true, if_false]
        constructor
        · intro heq
          cases heq
          exact ⟨rfl, rfl, .stay (.inr hkind)⟩
        · rintro ⟨rfl, rfl, hopens⟩
          cases hopens with
          | stay => rfl
          | frame hk => simp [hkind] at hk
          | group _ hk => simp [hkind] at hk

/-! ## What a step does -/

/-- What a step comes to. -/
inductive Outcome where
  | found (o : Observation) (next : Session)
  | finished (last : Session)
  | failed (e : DecodeError) (last : Session)

/-- One step, without its hook. -/
def step (s : Session) : Outcome :=
  match s.observe with
  | (.error e, s) => .failed e s.finish
  | (.ok none, s) => .finished s.finish
  | (.ok (some o), s) =>
    match s.commit o with
    | .error e => .failed e s.finish
    | .ok s => .found o s

theorem next_eq_step {α : Type} (hooks : Hooks Id α) {s : Session} (h : s.done = false) :
    s.next hooks = match s.step with
      | .found o next => (some (.ok (hooks.call o.kind o.context o.value)), next)
      | .finished last => (none, last)
      | .failed e last => (some (.error e), last) := by
  unfold next step
  rw [h]
  rcases s.observe with ⟨e | _ | o, t⟩
  · rfl
  · rfl
  · simp only [Bool.false_eq_true, if_false]
    cases t.commit o <;> rfl

/-- The registry that the value at a settled state is read under. -/
def inForce (s : Session) (st : State) : Registry := st.inherited.getD s.registry

/-- The value at the cursor of a settled state, as it stands in the span. -/
def readAt (s : Session) (st : State) : Except DecodeError Value :=
  let span := s.input.slice st.cursor st.frame.stop
  if st.group.isNone && st.frame.mode = .coldStart then Value.sniff (s.inForce st) span
  else Value.coded (s.inForce st) span

/-- Either way it is read by its code, or it is a serialization. -/
theorem coded_or_serialization_of_readAt {s : Session} {st : State} {v : Value} (hread : s.readAt st = .ok v) :
    Value.coded (s.inForce st) (s.input.slice st.cursor st.frame.stop) = .ok v ∨
      Value.serialization (s.input.slice st.cursor st.frame.stop) = .ok v := by
  simp only [readAt] at hread
  split at hread
  · cases hfirst : (s.input.slice st.cursor st.frame.stop).head? with
    | none =>
      rw [List.head?_eq_none_iff.1 hfirst] at hread
      cases hread
    | some first =>
      rw [Value.sniff_of_head? hfirst] at hread
      split at hread
      · exact .inl hread
      · exact .inr hread
      · cases hread
  · exact .inl hread

/-- What the hook is told of a value that was found at a settled state. -/
def told (s : Session) (st : State) (v : Value) (transition : Transition) : Observation where
  kind := v.kind
  context := ⟨{ st.frame with groups := popped st.frame.groups }, st.depth, st.group,
    v.header.asVersion?.or s.version⟩
  value := v.shift st.cursor
  consumed := v.consumed
  transition := transition

/-- The session behind that value. -/
def behind (s : Session) (st : State) (v : Value) (transition : Transition) : Session :=
  { s with state := (st.taken v.consumed).apply transition, version := v.header.asVersion?.or s.version }

/-- **How a value is found**: at a settled state, in the innermost frame, and with something to open. -/
structure Finds (s : Session) (st : State) (v : Value) (transition : Transition) : Prop where
  settled : s.state.settle = (.ok true, st)
  read : s.readAt st = .ok v
  opens : Opens (s.inForce st) st.inherited (v.shift st.cursor) transition
  inside : st.cursor + v.consumed ≤ st.frame.stop

/-- **How a step fails**: a frame ends before its groups, the value cannot be read, or its context is unknown.  By then
a value may have been taken off its group. -/
inductive Fails (s : Session) : DecodeError → Session → Prop where
  | settle {e : DecodeError} {st : State} (settled : s.state.settle = (.error e, st)) :
    Fails s e { s with state := st, done := true }
  | read {e : DecodeError} {st : State} (settled : s.state.settle = (.ok true, st)) (read : s.readAt st = .error e) :
    Fails s e { s with state := st.withGroups (popped st.frame.groups), done := true }
  | opens {e : DecodeError} {st : State} {v : Value} (settled : s.state.settle = (.ok true, st))
    (read : s.readAt st = .ok v)
    (unknown : classify (s.inForce st) st.inherited (v.shift st.cursor) = .error e) :
    Fails s e { s with state := st.withGroups (popped st.frame.groups), done := true }

/-- What a step may read takes no more bytes than the innermost frame has left, so that the cursor moves on by them. -/
def InBounds (s : Session) : Prop :=
  ∀ st v, s.state.settle = (.ok true, st) → s.readAt st = .ok v →
    st.cursor + v.consumed ≤ st.frame.stop

/-- What is observed at a settled state, written out. -/
theorem observe_of_settle {s : Session} {st : State} (h : s.state.settle = (.ok true, st)) :
    s.observe =
      match s.readAt st with
      | .error e => (.error e, { s with state := st.withGroups (popped st.frame.groups) })
      | .ok v =>
        match classify (s.inForce st) st.inherited (v.shift st.cursor) with
        | .error e => (.error e, { s with state := st.withGroups (popped st.frame.groups) })
        | .ok (kind, n, transition) =>
          (.ok (some { s.told st v transition with kind, consumed := n }),
            { s with
              state := st.withGroups (popped st.frame.groups)
              version := v.header.asVersion?.or s.version }) := by
  have hread : s.readAt st =
      if st.group.isNone && (st.withGroups (popped st.frame.groups)).frame.mode = .coldStart then
        Value.sniff (s.inForce st) (span { s with state := st.withGroups (popped st.frame.groups) })
      else Value.coded (s.inForce st) (span { s with state := st.withGroups (popped st.frame.groups) }) := by
    simp only [readAt, span, State.frame_withGroups, State.cursor_withGroups]
  have hinherited : (st.group.bind Group.context).or (st.withGroups (popped st.frame.groups)).frame.context =
      st.inherited := by rw [State.frame_withGroups]; rfl
  rw [observe, h]
  simp only [State.popGroup_eq, observeAt]
  rw [show st.frame.groups.head?.map Prod.fst = st.group from rfl, hinherited,
    show st.inherited.getD s.registry = s.inForce st from rfl, ← hread]
  cases s.readAt st with
  | error e => rfl
  | ok v =>
    simp only [State.cursor_withGroups]
    cases classify (s.inForce st) st.inherited (v.shift st.cursor) with
    | error e => rfl
    | ok found =>
      simp only [Except.map, told, State.frame_withGroups, State.depth_withGroups]
      rfl

theorem step_of_settle_false {s : Session} {st : State} (h : s.state.settle = (.ok false, st)) :
    s.step = .finished { s with state := st, done := true } := by
  rw [step, observe, h]
  rfl

theorem step_of_settle_error {s : Session} {e : DecodeError} {st : State} (h : s.state.settle = (.error e, st)) :
    s.step = .failed e { s with state := st, done := true } := by
  rw [step, observe, h]
  rfl

variable {s next last : Session}

theorem Finds.step {st : State} {v : Value} {transition : Transition} (h : Finds s st v transition) :
    s.step = .found (s.told st v transition) (s.behind st v transition) := by
  obtain ⟨hsettle, hread, hopens, hinside⟩ := h
  rw [Session.step, observe_of_settle hsettle, hread]
  simp only [classify_eq_ok.2 ⟨rfl, rfl, hopens⟩, commit, State.advance, State.cursor_withGroups,
    State.frame_withGroups, Value.consumed_shift, if_pos hinside]
  rfl

theorem Fails.step {e : DecodeError} (h : Fails s e last) : s.step = .failed e last := by
  cases h with
  | settle hsettle => exact step_of_settle_error hsettle
  | read hsettle hread =>
    rw [Session.step, observe_of_settle hsettle, hread]
    rfl
  | opens hsettle hread hunknown =>
    rw [Session.step, observe_of_settle hsettle, hread]
    simp only [hunknown]
    rfl

section

variable (hs : s.InBounds)
include hs

/-- **All that a step can do.** -/
theorem InBounds.step_cases :
    (∃ st v transition, Finds s st v transition) ∨ (∃ st, s.state.settle = (.ok false, st)) ∨
      ∃ e last, Fails s e last := by
  rcases hsettle : s.state.settle with ⟨e | b, st⟩
  · exact .inr (.inr ⟨e, _, .settle hsettle⟩)
  cases b with
  | false => exact .inr (.inl ⟨st, rfl⟩)
  | true =>
    cases hread : s.readAt st with
    | error e => exact .inr (.inr ⟨e, _, .read hsettle hread⟩)
    | ok v =>
      cases hclassify : classify (s.inForce st) st.inherited (v.shift st.cursor) with
      | error e => exact .inr (.inr ⟨e, _, .opens hsettle hread hclassify⟩)
      | ok found =>
        obtain ⟨-, -, hopens⟩ := classify_eq_ok.1 hclassify
        exact .inl ⟨st, v, _, hsettle, hread, hopens, hs st v hsettle hread⟩

theorem InBounds.step_eq_found {o : Observation} :
    s.step = .found o next ↔
      ∃ st v transition, Finds s st v transition ∧ o = s.told st v transition ∧ next = s.behind st v transition := by
  constructor
  · intro h
    obtain ⟨st, v, transition, hf⟩ | ⟨st, hsettle⟩ | ⟨e, last, hfails⟩ := hs.step_cases
    · rw [hf.step] at h
      cases h
      exact ⟨st, v, transition, hf, rfl, rfl⟩
    · rw [step_of_settle_false hsettle] at h
      cases h
    · rw [hfails.step] at h
      cases h
  · rintro ⟨st, v, transition, hf, rfl, rfl⟩
    exact hf.step

theorem InBounds.step_eq_finished :
    s.step = .finished last ↔ ∃ st, s.state.settle = (.ok false, st) ∧ last = { s with state := st, done := true } := by
  constructor
  · intro h
    obtain ⟨st, v, transition, hf⟩ | ⟨st, hsettle⟩ | ⟨e, last, hfails⟩ := hs.step_cases
    · rw [hf.step] at h
      cases h
    · rw [step_of_settle_false hsettle] at h
      cases h
      exact ⟨st, hsettle, rfl⟩
    · rw [hfails.step] at h
      cases h
  · rintro ⟨st, hsettle, rfl⟩
    exact step_of_settle_false hsettle

theorem InBounds.step_eq_failed {e : DecodeError} : s.step = .failed e last ↔ Fails s e last := by
  constructor
  · intro h
    obtain ⟨st, v, transition, hf⟩ | ⟨st, hsettle⟩ | ⟨e', last', hfails⟩ := hs.step_cases
    · rw [hf.step] at h
      cases h
    · rw [step_of_settle_false hsettle] at h
      cases h
    · rw [hfails.step] at h
      cases h
      exact hfails
  · exact Fails.step

end

/-- A step sees of the state only what settling leaves. -/
theorem step_congr {s t : Session} (h : s.state.settle = t.state.settle) (hinput : s.input = t.input)
    (hregistry : s.registry = t.registry) (hversion : s.version = t.version) (hdone : s.done = t.done) :
    s.step = t.step := by
  have hsame : { s with state := t.state } = t := by
    obtain ⟨_, _, _, _, _⟩ := s
    obtain ⟨_, _, _, _, _⟩ := t
    cases hinput
    cases hregistry
    cases hversion
    cases hdone
    rfl
  have hobserve : s.observe = { s with state := t.state }.observe := by
    unfold observe
    rw [h]
  rw [step, hobserve, hsame]
  rfl

end Session
end Quadlet
