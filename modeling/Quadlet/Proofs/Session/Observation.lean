import Quadlet.Proofs.Session.Reach
/-!
# Observation — hooks see every value once, and change nothing

Hooks may have effects in any monad.  A call for the next value is its step with at most one hook called in it, and
never one in a step that fails, for what a hook was shown is handed out (`next_eq_map`).  So a run with hooks is the
hooks called one after the other on what a run without them finds (`pull_eq_mapM`), and states and ending are those of
the run without hooks.  `Observation.Shown` says what a hook is shown, and `Run.shown` that every hook is.
-/
namespace Quadlet

/-- What the hooks make of an observation: the hook for its kind runs if there is one, else the fallback, which is told
the kind. -/
def Hooks.answer {m : Type → Type} {α : Type} (hooks : Hooks m α) (o : Observation) : m α :=
  match o.kind with
  | .serialization => (hooks.serialization.getD (hooks.fallback .serialization)) o.context o.value
  | .frame => (hooks.frame.getD (hooks.fallback .frame)) o.context o.value
  | .group => (hooks.group.getD (hooks.fallback .group)) o.context o.value
  | .leaf => (hooks.leaf.getD (hooks.fallback .leaf)) o.context o.value

theorem Hooks.call_eq_answer {m : Type → Type} {α : Type} (hooks : Hooks m α) (o : Observation) :
    hooks.call o.kind o.context o.value = hooks.answer o := by
  unfold call answer
  cases o.kind with
  | serialization => cases h : hooks.serialization <;> simp only [own, h, Option.getD]
  | frame => cases h : hooks.frame <;> simp only [own, h, Option.getD]
  | group => cases h : hooks.group <;> simp only [own, h, Option.getD]
  | leaf => cases h : hooks.leaf <;> simp only [own, h, Option.getD]

/-- **What a hook is shown of a value between two states**: its kind, and the frame, the depth and the group in force
when the state before is settled and the value taken off its group; the value moves the cursor and opens something only
then, which is the state behind it. -/
structure Observation.Shown (o : Observation) (before behind : State) : Prop where
  kind_eq : o.kind = o.value.kind
  stands : ∃ settled inside moved, before.settle = (.ok true, settled) ∧
    settled.popGroup = (o.context.group, inside) ∧
    o.context.frame = inside.frame ∧ o.context.depth = inside.depth ∧
    inside.advance o.consumed = .ok moved ∧ moved.apply o.transition = behind

namespace Session

variable {m : Type → Type} [Monad m] [LawfulMonad m] {α : Type} {s last : Session} {st : State} {v : Value}
  {transition : Transition} {found : List (Observation × State)} {ending : Ending}

/-! ## Hooks in any monad -/

/-- **A call is a step, and what the hook makes of the value that it finds.** -/
theorem next_eq_map (hooks : Hooks m α) (h : s.Sound) (hdone : s.done = false) :
    s.next hooks = match s.step with
      | .found o next => (fun item => (some (.ok item), next)) <$> hooks.answer o
      | .finished last => pure (none, last)
      | .failed e last => pure (some (.error e), last) := by
  unfold next step
  rw [hdone]
  rcases hobserved : s.observe with ⟨e | _ | o, t⟩
  · rfl
  · rfl
  · -- the cursor moves on behind every value that was shown to a hook
    obtain ⟨⟨moved, hmoved⟩, -⟩ := (h.unhindered Hooks.passthrough).advances ⟨hdone, hobserved⟩
    have hcommit : t.commit o = .ok { t with state := moved.apply o.transition } := by
      rw [commit, hmoved]
      rfl
    simp only [Bool.false_eq_true, if_false, hcommit, hooks.call_eq_answer, map_eq_pure_bind]

/-- **A run with hooks is their answers to what a run finds, one after the other**, with the states and the ending of
the run without hooks. -/
theorem Run.pull_eq_mapM (hooks : Hooks m α) (hrun : Run s found ending last) (h : s.Sound) (hdone : s.done = false) :
    ∀ n, s.pull hooks n = (do
      let items ← (found.take n).mapM (fun p => (fun item => (item, p.2)) <$> hooks.answer p.1)
      pure (items, (Id.run (s.pull Hooks.passthrough n)).2)) := by
  -- the first call is the first step with hooks and without, and both go on from the session behind it
  induction hrun with
  | finished hstep =>
    rintro (_ | n)
    · simp [pull]
    · simp [pull, next_eq_map _ h hdone, hstep]
  | failed hstep =>
    rintro (_ | n)
    · simp [pull]
    · simp [pull, next_eq_map _ h hdone, hstep]
  | found hstep _ ih =>
    rintro (_ | n)
    · simp [pull]
    · obtain ⟨st, v, transition, hf, -, rfl⟩ := h.inBounds.step_eq_found.1 hstep
      have hrest := ih (hf.sound h).1 hdone n
      simp [pull, next_eq_map _ h hdone, hstep, hrest]

/-- Without hooks, a run hands out what it finds. -/
theorem Run.pull_passthrough (hrun : Run s found ending last) (h : s.Sound) (hdone : s.done = false) (n : Nat) :
    (Id.run (s.pull Hooks.passthrough n)).1 = (found.take n).map (fun p => (p.1.value, p.2)) := by
  have hanswer : ∀ o, Hooks.passthrough.answer o = o.value := by
    intro o
    rw [← Hooks.call_eq_answer, Hooks.call_passthrough]
  rw [hrun.pull_eq_mapM Hooks.passthrough h hdone]
  simp only [hanswer, bind_pure_comp, Id.run_map, List.idRun_mapM, List.map_take]
  rfl

/-! ## What hooks are shown -/

/-- A value that is found is shown between the states before and behind it. -/
theorem Finds.shown_told (hf : Finds s st v transition) :
    (s.told st v transition).Shown s.state (s.behind st v transition).state where
  kind_eq := rfl
  stands := by
    refine ⟨st, _, st.taken v.consumed, hf.settled, st.popGroup_eq, ?_, ?_, ?_, rfl⟩
    · exact (State.frame_withGroups _ _).symm
    · exact (State.depth_withGroups _ _).symm
    · rw [State.advance, State.cursor_withGroups, State.frame_withGroups]
      exact if_pos hf.inside

/-- The header of the last serialization among values. -/
def lastVersion (vs : List Value) : Option VersionHeader := (vs.filterMap (fun v => v.header.asVersion?)).getLast?

theorem lastVersion_cons (v : Value) (vs : List Value) :
    lastVersion (v :: vs) = (lastVersion vs).or v.header.asVersion? := by
  unfold lastVersion
  rw [List.filterMap_cons]
  cases v.header.asVersion? with
  | none => exact Option.or_none.symm
  | some version =>
    rw [List.getLast?_cons]
    cases (vs.filterMap (fun v => v.header.asVersion?)).getLast? <;> rfl

/-- **What every hook of a run is shown**, when `pre` was found before: the value between the states that calls come
to, and the version of the last serialization up to it. -/
theorem Run.shown (hrun : Run s found ending last) (h : s.Sound) (hdone : s.done = false)
    {pre post : List (Observation × State)} {o : Observation} {behind : State}
    (hfound : found = pre ++ (o, behind) :: post) :
    o.Shown (s.after Hooks.passthrough pre.length).state behind ∧
      o.context.version = (lastVersion (values pre ++ [o.value])).or s.version := by
  induction hrun generalizing pre with
  | finished => cases pre <;> cases hfound
  | failed => cases pre <;> cases hfound
  | @found s next last first found ending hstep _ ih =>
    obtain ⟨st, v, transition, hf, rfl, rfl⟩ := h.inBounds.step_eq_found.1 hstep
    cases pre with
    | nil =>
      cases hfound
      refine ⟨hf.shown_told, ?_⟩
      rw [values, List.map_nil, List.nil_append, lastVersion_cons]
      rfl
    | cons p pre =>
      cases hfound
      obtain ⟨hshown, hversion⟩ := ih (hf.sound h).1 hdone rfl
      have hnext : (s.next Hooks.passthrough).2 = s.behind st v transition := by
        rw [next_eq_step _ hdone, hstep]
      refine ⟨?_, ?_⟩
      · rw [List.length_cons, after, hnext]
        exact hshown
      · rw [hversion, show values ((s.told st v transition, _) :: pre) = v.shift st.cursor :: values pre from rfl,
          List.cons_append, lastVersion_cons, Option.or_assoc]
        rfl

/-- **Hooks observe every value once and do not influence decoding.**  There is one list of observations for an input,
each with the state behind it, of which every number of calls shows a beginning, whatever the hooks do and in whatever
monad.  On each of these, in order, one hook is called, the one for its kind or else the fallback, and on nothing else:
the items are the answers, while values, states, ending and session are those without hooks.  Each value is shown as of
its own kind, in the frame and at the depth before its own transition, and with the version of the last serialization
up to it. -/
theorem hooks_observe {r : Registry} (hr : r.Loaded) (input : Bytes) :
    ∃ found : List (Observation × State), found.length ≤ input.length ∧
      (∀ n, (Id.run ((start input r).pull Hooks.passthrough n)).1 =
        (found.take n).map (fun p => (p.1.value, p.2))) ∧
      (∀ {m : Type → Type} [Monad m] [LawfulMonad m] {α : Type} (hooks : Hooks m α) (n : Nat),
        (start input r).pull hooks n = (do
          let items ← (found.take n).mapM (fun p => (fun item => (item, p.2)) <$> hooks.answer p.1)
          pure (items, (Id.run ((start input r).pull Hooks.passthrough n)).2))) ∧
      ∀ pre o behind post, found = pre ++ (o, behind) :: post →
        o.Shown ((start input r).after Hooks.passthrough pre.length).state behind ∧
          o.context.version = lastVersion (values pre ++ [o.value]) := by
  obtain ⟨found, ending, last, hrun, hlength⟩ := exists_run (sound_start hr input)
  refine ⟨found, hlength, hrun.pull_passthrough (sound_start hr input) rfl, ?_, ?_⟩
  · intro m _ _ α hooks n
    exact hrun.pull_eq_mapM hooks (sound_start hr input) rfl n
  · intro pre o behind post hfound
    obtain ⟨hshown, hversion⟩ := hrun.shown (sound_start hr input) rfl hfound
    exact ⟨hshown, hversion.trans Option.or_none⟩

/-- Hooks that measure serializations, say where containers end and how deep leaves stand, and number what is left,
which they name. -/
def counting : Hooks (StateM Nat) (Option ValueKind × Nat) where
  fallback := fun kind _ _ => modifyGet (fun n => ((some kind, n), n + 1))
  serialization := some (fun _ v => pure (none, v.length))
  frame := some (fun _ v => pure (none, v.stop))
  leaf := some (fun context _ => pure (none, context.depth))

/-- A serialization, a container with two numbers, and two empty groups. -/
def countedText : Bytes := Bytes.ofString "\x7b\"v\":\"KERI10JSON000019_\"\x7d-LACMAAAMAAB-AAA-AAA"

/-- Each kind has its hook but the groups, which are numbered. -/
theorem hooks_observe_counting :
    Registry.keriV1.Loaded ∧ ∃ found : List (Observation × State),
      ((start countedText .keriV1).run counting) = (do
        let items ← found.mapM (fun p => (fun item => (item, p.2)) <$> counting.answer p.1)
        pure (items, (Id.run ((start countedText .keriV1).run Hooks.passthrough)).2)) ∧
      (((start countedText .keriV1).run counting).run 0).1.1.map Prod.fst =
        [(none, 25), (none, 37), (none, 2), (none, 2), (some .group, 0), (some .group, 1)] := by
  obtain ⟨found, hlength, -, hcalled, -⟩ := hooks_observe Registry.loaded_keriV1 countedText
  refine ⟨Registry.loaded_keriV1, found, ?_, by decide +kernel⟩
  have hall := hcalled counting (countedText.length + 1)
  rw [List.take_of_length_le (Nat.le_succ_of_le hlength)] at hall
  exact hall

end Session
end Quadlet
