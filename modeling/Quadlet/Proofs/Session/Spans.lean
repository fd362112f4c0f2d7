import Mathlib.Algebra.GroupWithZero.Nat
import Mathlib.Data.List.Chain
import Quadlet.Proofs.Session.Failure
/-!
# Spans — the values of a session stand one behind the other

A value starts where the cursor stands, and the cursor moves on by what the value takes itself.  So however far a
session is followed, what it found is laid out from the start of the input without a gap, and the cursor is the sum of
what was taken (`spans_pull`).  At a normal end that sum is the whole input, and only the root is open (`ReadToEnd`);
groups may wait in it still, for as many values as a word wraps around at (`not_isBalanced_wideGroups`).
-/
namespace Quadlet
namespace Session

/-- The values, found one after the other from `start` up to `cursor`, each with the state behind it. -/
inductive LaidOut (input : Bytes) : (start : Nat) → List (Value × State) → (cursor : Nat) → Prop where
  | nil {start : Nat} (inside : start ≤ input.length) : LaidOut input start [] start
  | cons {start cursor : Nat} {v : Value} {st : State} {found : List (Value × State)} (starts : v.start = start)
    (whole : v.stop ≤ input.length) (moves : st.cursor = start + v.consumed)
    (rest : LaidOut input st.cursor found cursor) : LaidOut input start ((v, st) :: found) cursor

/-- The bytes that the values take themselves. -/
def consumption (found : List (Value × State)) : Nat := (found.map (fun p => p.1.consumed)).sum

/-- **How the values that were found lie in the input**, the session having come to `cursor`. -/
structure Spans (input : Bytes) (found : List (Value × State)) (cursor : Nat) : Prop where
  first : ∀ p, found.head? = some p → p.1.start = 0
  next : found.IsChain (fun p q => q.1.start = p.1.start + p.1.consumed)
  cursors : ∀ n p, found[n]? = some p → p.2.cursor = consumption (found.take (n + 1))
  cursors_le : ∀ p ∈ found, p.2.cursor ≤ input.length
  cursor_eq : cursor = consumption found
  cursor_le : cursor ≤ input.length
  length_bytes : ∀ p ∈ found, (p.1.bytes input).length = p.1.length

/-- **A state at the end of its input**: only the root is open, and what its groups wait for adds up to nothing as a
word.  If it is nothing indeed, the state is balanced. -/
structure ReadToEnd (input : Bytes) (state : State) : Prop where
  cursor_eq : state.cursor = input.length
  nested_eq : state.nested = []
  dvd_outstanding : 2 ^ 64 ∣ state.root.outstanding
  isBalanced_iff : state.isBalanced = true ↔ state.root.outstanding = 0

variable {input : Bytes} {start cursor : Nat} {found : List (Value × State)}

/-! ## Reading the layout -/

theorem length_bytes_of_stop_le {v : Value} (h : v.stop ≤ input.length) : (v.bytes input).length = v.length := by
  rw [Value.bytes, if_pos h, Bytes.length_slice _ _ _ h, Value.stop, Nat.add_sub_cancel_left]

theorem LaidOut.start_le (h : LaidOut input start found cursor) : start ≤ cursor := by
  induction h with
  | nil => exact Nat.le_refl _
  | cons _ _ hmoves _ ih => exact Nat.le_trans (Nat.le_add_right _ _) (hmoves ▸ ih)

theorem LaidOut.cursor_le (h : LaidOut input start found cursor) : cursor ≤ input.length := by
  induction h with
  | nil hinside => exact hinside
  | cons _ _ _ _ ih => exact ih

theorem LaidOut.head_start (h : LaidOut input start found cursor) {p : Value × State} (hp : found.head? = some p) :
    p.1.start = start := by
  cases h with
  | nil => cases hp
  | cons hstarts => cases hp; exact hstarts

theorem LaidOut.isChain (h : LaidOut input start found cursor) :
    found.IsChain (fun p q => q.1.start = p.1.start + p.1.consumed) := by
  induction h with
  | nil => exact .nil
  | cons hstarts _ hmoves hrest ih =>
    refine List.isChain_cons.2 ⟨fun q hq => ?_, ih⟩
    rw [hrest.head_start hq, hmoves, hstarts]

theorem LaidOut.cursor_eq (h : LaidOut input start found cursor) : cursor = start + consumption found := by
  induction h with
  | nil => rfl
  | cons _ _ hmoves _ ih =>
    rw [ih, hmoves, consumption, consumption, List.map_cons, List.sum_cons, Nat.add_assoc]

/-- The state behind the last of some values is where the layout of these values ends. -/
theorem LaidOut.take (h : LaidOut input start found cursor) :
    ∀ {n : Nat} {p : Value × State}, found[n]? = some p → LaidOut input start (found.take (n + 1)) p.2.cursor := by
  induction h with
  | nil =>
    intro n p hp
    cases hp
  | cons hstarts hwhole hmoves hrest ih =>
    intro n p hp
    cases n with
    | zero =>
      cases hp
      exact .cons hstarts hwhole hmoves (.nil (Nat.le_trans hrest.start_le hrest.cursor_le))
    | succ n => exact .cons hstarts hwhole hmoves (ih hp)

theorem LaidOut.stop_le (h : LaidOut input start found cursor) : ∀ p ∈ found, p.1.stop ≤ input.length := by
  induction h with
  | nil => exact fun p hp => (by cases hp)
  | cons _ hwhole _ _ ih => exact List.forall_mem_cons.2 ⟨hwhole, ih⟩

/-- The last value ends the layout with what it takes itself. -/
theorem LaidOut.last (h : LaidOut input start found cursor) :
    ∀ p ∈ found.getLast?, p.1.start + p.1.consumed = cursor := by
  induction h with
  | nil => exact fun p hp => (by cases hp)
  | @cons start cursor v st found hstarts _ hmoves hrest ih =>
    intro p hp
    cases found with
    | nil =>
      obtain rfl : (v, st) = p := Option.some.inj hp
      cases hrest
      rw [hmoves, hstarts]
    | cons q found =>
      rw [List.getLast?_cons_cons] at hp
      exact ih p hp

theorem LaidOut.spans (h : LaidOut input 0 found cursor) : Spans input found cursor where
  first := fun _ hp => h.head_start hp
  next := h.isChain
  cursors := fun n p hp => by rw [(h.take hp).cursor_eq, Nat.zero_add]
  cursors_le := fun p hp => by
    obtain ⟨n, hn⟩ := List.mem_iff_getElem?.1 hp
    exact (h.take hn).cursor_le
  cursor_eq := by rw [h.cursor_eq, Nat.zero_add]
  cursor_le := h.cursor_le
  length_bytes := fun p hp => length_bytes_of_stop_le (h.stop_le p hp)

/-! ## Following a session -/

variable {s last : Session} {ending : Ending}

/-- Where the root of a sound session ends, its input does. -/
theorem Sound.cursor_le (h : s.Sound) : s.state.cursor ≤ s.input.length := by
  rw [← h.root_stop]
  exact (h.state.frames _ s.state.root_mem_stack).cursor_le

/-- A session that settles at its end has read its input to the end. -/
theorem Sound.readToEnd (h : s.Sound) {st : State} (hsettle : s.state.settle = (.ok false, st)) :
    ReadToEnd s.input st := by
  obtain ⟨hnested, hpending, hcursor⟩ := h.finished hsettle
  obtain ⟨hst, -, -⟩ := h.settled hsettle
  refine ⟨hcursor, hnested, Nat.dvd_of_mod_eq_zero (st.root.pending_eq.symm.trans hpending), ?_⟩
  rw [(hst.frames _ st.root_mem_stack).outstanding_eq_zero, State.isBalanced, hnested, List.isEmpty_nil, Bool.true_and,
    List.isEmpty_iff]

/-- **However far a session is followed, its values are laid out from its cursor on**; the step that ends it consumes
nothing, and at a normal end nothing is left or open. -/
theorem laidOut_of_pull : ∀ {n : Nat} {s : Session} {found : List (Value × State)}, s.Sound → s.done = false →
    s.pull Hooks.passthrough n = (found, ending, last) →
      LaidOut s.input s.state.cursor found last.state.cursor ∧
        (ending = .finished → ReadToEnd s.input last.state)
  | 0, s, found, h, _, hpull => by
    cases hpull
    exact ⟨.nil h.cursor_le, fun hfinished => (by cases hfinished)⟩
  | n + 1, s, found, h, hdone, hpull => by
    obtain ⟨st, v, transition, hf⟩ | ⟨st, hsettle⟩ | ⟨e, failed, hfails⟩ := h.inBounds.step_cases
    · -- a value: it stands at the cursor and ends in the input, and what follows is laid out behind it
      have hcall : Hooks.passthrough.call (s.told st v transition).kind (s.told st v transition).context
          (s.told st v transition).value = v.shift st.cursor := Hooks.call_passthrough _ _ _
      rw [pull_found _ hdone hf.step] at hpull
      obtain ⟨hsound, hcursor, -⟩ := hf.sound h
      obtain ⟨-, hframed, hstop, hle⟩ := hf.framed h
      obtain ⟨-, -, hsettled⟩ := h.settled hf.settled
      cases hrest : (s.behind st v transition).pull Hooks.passthrough n with
      | mk found' tail =>
        rw [hrest] at hpull
        cases hpull
        obtain ⟨hlaid, hfinished⟩ := laidOut_of_pull hsound hdone hrest
        have hstart := hframed.start_shift st.cursor
        have hwhole : (v.shift st.cursor).stop ≤ s.input.length := by
          rw [Value.stop, hstart]
          exact Nat.le_trans hle hstop
        rw [hcall]
        exact ⟨.cons (hstart.trans hsettled) hwhole hcursor hlaid, hfinished⟩
    · -- the end: the root is read to its end
      simp only [pull, next_eq_step _ hdone, step_of_settle_false hsettle] at hpull
      cases hpull
      obtain ⟨-, -, hsettled⟩ := h.settled hsettle
      refine ⟨?_, fun _ => h.readToEnd hsettle⟩
      rw [show st.cursor = s.state.cursor from hsettled]
      exact .nil h.cursor_le
    · -- a failure: the cursor stays
      simp only [pull, next_eq_step _ hdone, hfails.step] at hpull
      cases hpull
      refine ⟨?_, fun hfinished => (by cases hfinished)⟩
      rw [hfails.loses.cursor_eq]
      exact .nil h.cursor_le

section

variable {r : Registry} (hr : r.Loaded) {found : List (Observation × State)}
  (hrun : Run (Session.start input r) found ending last)
include hr hrun

theorem Run.laidOut :
    LaidOut input 0 (found.map (fun p => (p.1.value, p.2))) last.state.cursor ∧
      (ending = .finished → ReadToEnd input last.state) := by
  have hpull := pull_of_run Hooks.passthrough hrun (sound_start hr input) rfl (Nat.lt_succ_self _)
  simp only [Hooks.call_passthrough] at hpull
  exact laidOut_of_pull (sound_start hr input) rfl hpull

/-- Where the cursor stands in the end is told by the values. -/
theorem Run.cursor_eq : last.state.cursor = ((values found).map Value.consumed).sum := by
  rw [(hrun.laidOut hr).1.cursor_eq, consumption, Nat.zero_add, List.map_map, values, List.map_map]
  rfl

/-- The last value ends with what it takes where the cursor stands in the end. -/
theorem Run.last_value {v : Value} (hv : (values found).getLast? = some v) :
    v.start + v.consumed = last.state.cursor ∧ v.stop ≤ input.length := by
  obtain ⟨hlaid, -⟩ := hrun.laidOut hr
  rw [values, List.getLast?_map] at hv
  obtain ⟨p, hp, rfl⟩ := Option.map_eq_some_iff.1 hv
  have hlast : (found.map (fun p => (p.1.value, p.2))).getLast? = some (p.1.value, p.2) := by
    rw [List.getLast?_map, hp]
    rfl
  exact ⟨hlaid.last _ hlast, hlaid.stop_le _ (List.mem_of_getLast? hlast)⟩

end

end Session
end Quadlet
