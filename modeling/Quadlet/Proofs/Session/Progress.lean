import Quadlet.Proofs.Session.Reach
/-!
# Progress — calls move on until one of them stops for good

Closing frames takes no more rounds than there are open frames (`closeWithin_eq_settle`), and every value takes at least
one byte.  So of the calls for the next value the first ones find values and move the cursor, one comes to the end or
fails, and all behind it find nothing and leave the session as it is (`StopsAfter`, `Run.stopsAfter`).
-/
namespace Quadlet

/-! ## Rounds of settling -/

/-- Closing frames for a number of rounds, each of which looks at the innermost frame and pops it if it is read to its
end; none when that is not enough. -/
def State.closeWithin : (rounds : Nat) → State → Option (Except DecodeError Bool × State)
  | 0, _ => none
  | rounds + 1, s =>
    if s.cursor < s.frame.stop then some (.ok true, s)
    else if s.frame.pending > 0 then some (.error (.unclosedGroup s.frame.pending), s)
    else if s.depth = 1 then some (.ok false, s)
    else
      match s.popFrame with
      | .error e => some (.error e, s)
      | .ok (_, t) => closeWithin rounds t

/-- **A round for each open frame is enough to settle a state.** -/
theorem State.closeWithin_eq_settle : ∀ {rounds : Nat} {s : State}, s.depth ≤ rounds →
    s.closeWithin rounds = some s.settle
  | 0, s, h => absurd h (Nat.not_succ_le_zero _)
  | rounds + 1, s, h => by
    rw [← closeFrames_eq_settle, closeWithin, closeFrames]
    split
    · rfl
    split
    · rfl
    split
    · rfl
    next hdepth =>
    -- a frame that is popped leaves one round less to do
    cases hpop : s.popFrame with
    | error e => rfl
    | ok popped =>
      obtain ⟨f, t⟩ := popped
      have hless : t.depth ≤ rounds := by
        rw [popFrame_eq_ok.1 hpop] at h
        exact Nat.le_of_succ_le_succ h
      dsimp only
      rw [closeWithin_eq_settle hless, closeFrames_eq_settle]

namespace Session

variable {α : Type} {s last : Session}

theorem Fails.done {e : DecodeError} (h : Fails s e last) : last.done = true := by cases h <;> rfl

theorem after_of_done (hooks : Hooks Id α) (h : s.done = true) (n : Nat) : s.after hooks n = s := by
  induction n with
  | zero => rfl
  | succ n ih => rw [after_succ, ih, next_of_done hooks h]

/-! ## Calls that move on, and calls that do not -/

/-- **How calls go on**: `k` of them find a value each and move the cursor forward, the next one finds the end or fails,
and those behind it find nothing and change nothing. -/
structure StopsAfter (hooks : Hooks Id α) (s : Session) (k : Nat) : Prop where
  found : ∀ n < k, ∃ v, ((s.after hooks n).next hooks).1 = some (.ok v)
  advanced : ∀ n < k, (s.after hooks n).state.cursor < (s.after hooks (n + 1)).state.cursor
  stopped : ((s.after hooks k).next hooks).1 = none ∨ ∃ e, ((s.after hooks k).next hooks).1 = some (.error e)
  stays : ∀ n, k < n → (s.after hooks n).next hooks = (none, s.after hooks n)

/-- A call that ends a session, well or not, is the last that does anything. -/
theorem stopsAfter_zero (hooks : Hooks Id α) {result : Option (Except DecodeError α)}
    (hnext : s.next hooks = (result, last)) (hresult : result = none ∨ ∃ e, result = some (.error e))
    (hdone : last.done = true) : StopsAfter hooks s 0 where
  found := fun n hn => (by cases hn)
  advanced := fun n hn => (by cases hn)
  stopped := by rwa [after, hnext]
  stays := by
    rintro (_ | n) hn
    · cases hn
    · rw [after, hnext, after_of_done hooks hdone, next_of_done hooks hdone]

/-- **A run says after how many values calls stop.** -/
theorem Run.stopsAfter (hooks : Hooks Id α) {found : List (Observation × State)} {ending : Ending}
    (hrun : Run s found ending last) (h : s.Sound) (hdone : s.done = false) : StopsAfter hooks s found.length := by
  induction hrun with
  | finished hstep =>
    have hnext := next_eq_step hooks hdone
    rw [hstep] at hnext
    obtain ⟨st, -, rfl⟩ := h.inBounds.step_eq_finished.1 hstep
    exact stopsAfter_zero hooks hnext (.inl rfl) rfl
  | failed hstep =>
    have hnext := next_eq_step hooks hdone
    rw [hstep] at hnext
    exact stopsAfter_zero hooks hnext (.inr ⟨_, rfl⟩) (h.inBounds.step_eq_failed.1 hstep).done
  | @found s next last o found ending hstep _ ih =>
    have hnext := next_eq_step hooks hdone
    rw [hstep] at hnext
    obtain ⟨st, v, transition, hf, -, rfl⟩ := h.inBounds.step_eq_found.1 hstep
    obtain ⟨hsound, hcursor, hpos⟩ := hf.sound h
    have hrest := ih hsound hdone
    -- behind the first call, a session is where the rest of the run starts
    have hafter : ∀ n, s.after hooks (n + 1) = (s.behind st v transition).after hooks n := by
      intro n
      rw [after, hnext]
    refine ⟨?_, ?_, ?_, ?_⟩
    · rintro (_ | n) hn
      · exact ⟨_, congrArg Prod.fst hnext⟩
      · rw [hafter]
        exact hrest.found n (Nat.lt_of_succ_lt_succ hn)
    · rintro (_ | n) hn
      · rw [hafter]
        show s.state.cursor < (s.behind st v transition).state.cursor
        omega
      · rw [hafter, hafter]
        exact hrest.advanced n (Nat.lt_of_succ_lt_succ hn)
    · rw [List.length_cons, hafter]
      exact hrest.stopped
    · rintro (_ | n) hn
      · cases hn
      · rw [hafter]
        exact hrest.stays n (Nat.lt_of_succ_lt_succ hn)

/-- **Decoding always moves on, and stops.**  From the start of an input, no more calls than it has bytes find a value,
each of them moving the cursor; one more call finds the end or an error, and the calls behind it find nothing and change
nothing.  A run comes to its end with these values, and settling takes no more rounds than there are open frames. -/
theorem progresses {r : Registry} (hr : r.Loaded) (input : Bytes) (hooks : Hooks Id α) :
    (∃ k ≤ input.length, StopsAfter hooks (start input r) k ∧
      (Id.run ((start input r).run hooks)).1.length = k ∧
      (Id.run ((start input r).run hooks)).2.1 ≠ .unfinished) ∧
    ∀ s : State, s.closeWithin s.depth = some s.settle := by
  refine ⟨?_, fun s => State.closeWithin_eq_settle (Nat.le_refl _)⟩
  obtain ⟨found, ending, last, hrun, hlength⟩ := exists_run (sound_start hr input)
  refine ⟨found.length, hlength, hrun.stopsAfter hooks (sound_start hr input) rfl, ?_, ?_⟩ <;>
    rw [run_of_run hr hooks hrun]
  · exact List.length_map _
  · exact hrun.ending_ne

/-- A group of no values, and a number that no group waits for: the second call fails, and is the last. -/
theorem progresses_emptyGroup :
    Registry.keriV1.Loaded ∧ StopsAfter Hooks.passthrough (start (Bytes.ofString "-AAAMAAA") .keriV1) 1 ∧
      ∀ s : State, s.closeWithin s.depth = some s.settle := by
  obtain ⟨⟨k, -, hstops, hlength, -⟩, hsettle⟩ :=
    progresses Registry.loaded_keriV1 (Bytes.ofString "-AAAMAAA") Hooks.passthrough
  have hone : (Id.run ((start (Bytes.ofString "-AAAMAAA") .keriV1).run Hooks.passthrough)).1.length = 1 := by
    decide +kernel
  obtain rfl : k = 1 := hlength.symm.trans hone
  exact ⟨Registry.loaded_keriV1, hstops, hsettle⟩

end Session
end Quadlet
