import Quadlet.Proofs.Session.Reach
/-!
# Contexts — which registries come into force

A session reads under its own registry, or under a context that a counter named, looked up in the registry that was in
force at the counter.  So what holds of the first registry and goes over to contexts holds of every registry that comes
into force, however far the session is followed (`within_after`), and each value is read under such a registry
(`Run.readFrom`).
-/
namespace Quadlet

variable {P : Registry → Prop}

/-- The registries that are reached from `r` by the contexts that counters name. -/
inductive Registry.Reaches (r : Registry) : Registry → Prop where
  | self : Reaches r r
  | context {q p : Registry} {name : String} (reaches : Reaches r q) (named : q.context name = .ok p) : Reaches r p

/-- **What a value was read from**: it is the value `u` that starts what was left of a frame, by its code or as a
serialization. -/
structure Value.ReadFrom (v u : Value) (q : Registry) (input : Bytes) (stop : Nat) : Prop where
  eq_shift : v = u.shift v.start
  framed : u.Framed (input.slice v.start stop)
  read : Value.coded q (input.slice v.start stop) = .ok u ∨ Value.serialization (input.slice v.start stop) = .ok u
  stop_le : stop ≤ input.length

/-- What has a code is read by it. -/
theorem Value.ReadFrom.coded {v u : Value} {q : Registry} {input : Bytes} {stop : Nat}
    (hread : v.ReadFrom u q input stop) {h : CodeHeader} (hh : v.header = .code h) :
    u.header = .code h ∧ Value.coded q (input.slice v.start stop) = .ok u := by
  rw [hread.eq_shift] at hh
  refine ⟨hh, hread.read.resolve_right (fun hserialization => ?_)⟩
  obtain ⟨_, -, -, rfl⟩ := Value.serialization_eq_ok.1 hserialization
  cases hh

/-- The registries that the frame and its groups name have `P`. -/
structure Frame.Within (P : Registry → Prop) (f : Frame) : Prop where
  context : ∀ r, f.context = some r → P r
  contexts : ∀ g ∈ f.groups, ∀ r, g.1.context = some r → P r

theorem Frame.Within.popped {f : Frame} (h : f.Within P) : ∀ g ∈ popped f.groups, ∀ r, g.1.context = some r → P r := by
  intro g hg r hr
  obtain ⟨⟨k, hk, hk1, -⟩, -⟩ := mem_popped hg
  exact h.contexts k hk r (by rw [hk1]; exact hr)

namespace State

def Within (P : Registry → Prop) (s : State) : Prop := ∀ f ∈ s.stack, f.Within P

variable {s t : State}

theorem within_start (length : Nat) : (start length).Within P := by
  intro f hf
  obtain rfl := List.mem_singleton.1 hf
  exact ⟨fun r hr => (by cases hr), fun g hg => (by cases hg)⟩

theorem Within.settles {closed : List Frame} (h : s.Within P) (hs : Settles s t closed) : t.Within P :=
  fun f hf => h f (by rw [hs.stack_eq]; exact List.mem_append_right _ hf)

theorem Within.inherited (h : s.Within P) {r : Registry} (hr : s.inherited = some r) : P r := by
  have hframe := h _ s.frame_mem_stack
  rcases Option.or_eq_some_iff.1 hr with hgroup | ⟨-, hcontext⟩
  · obtain ⟨group, hgroup, hcontext⟩ := Option.bind_eq_some_iff.1 hgroup
    obtain ⟨g, hg, rfl⟩ := Option.map_eq_some_iff.1 hgroup
    exact hframe.contexts g (List.mem_of_mem_head? hg) r hcontext
  · exact hframe.context r hcontext

theorem Within.withGroups (h : s.Within P) {groups : List (Group × Nat)}
    (hgroups : ∀ g ∈ groups, ∀ r, g.1.context = some r → P r) : (s.withGroups groups).Within P := by
  intro f hf
  rw [stack_withGroups] at hf
  rcases List.mem_cons.1 hf with rfl | hf
  · exact ⟨(h _ s.frame_mem_stack).context, hgroups⟩
  · exact h f (by rw [s.stack_eq]; exact List.mem_cons_of_mem _ hf)

theorem Within.popped (h : s.Within P) : (s.withGroups (popped s.frame.groups)).Within P :=
  h.withGroups (h _ s.frame_mem_stack).popped

theorem Within.pushGroup (h : s.Within P) {group : Group} (hgroup : ∀ r, group.context = some r → P r) :
    (s.pushGroup group).Within P := by
  rw [State.pushGroup_eq]
  refine h.withGroups (fun g hg => ?_)
  split at hg
  · exact (h _ s.frame_mem_stack).contexts g hg
  · rcases List.mem_cons.1 hg with rfl | hg
    · exact hgroup
    · exact (h _ s.frame_mem_stack).contexts g hg

theorem Within.pushFrame (h : s.Within P) {stop : Nat} {context : Option Registry}
    (hcontext : ∀ r, context = some r → P r) : (s.pushFrame stop context).Within P := by
  intro f hf
  rcases List.mem_cons.1 hf with rfl | hf
  · exact ⟨hcontext, fun g hg => (by cases hg)⟩
  · exact h f hf

end State

namespace Session

def Within (P : Registry → Prop) (s : Session) : Prop := P s.registry ∧ s.state.Within P

variable {α : Type} {s last : Session} {st : State}

theorem Within.inForce (h : s.Within P) (hst : st.Within P) : P (s.inForce st) := by
  unfold Session.inForce
  cases hinherited : st.inherited with
  | none => exact h.1
  | some r => exact hst.inherited hinherited

variable (hP : ∀ {q : Registry} {name : String} {p : Registry}, P q → q.context name = .ok p → P p)
include hP

/-- What a value opens is read under the registry in force, or a context of it. -/
theorem Finds.within_behind {v : Value} {transition : Transition} (hf : Finds s st v transition) (h : s.Within P) :
    (s.behind st v transition).Within P := by
  obtain ⟨_, hsettles⟩ := State.settles_of_settle hf.settled
  have hst := h.2.settles hsettles
  have htaken : (st.taken v.consumed).Within P := hst.popped
  refine ⟨h.1, ?_⟩
  show ((st.taken v.consumed).apply transition).Within P
  obtain _ | _ | ⟨_, _, hnamed⟩ := hf.opens
  · exact htaken
  · exact htaken.pushFrame (fun r hr => hst.inherited hr)
  · exact htaken.pushGroup (forall_groupContext hP (h.inForce hst) (fun r hr => hst.inherited hr) hnamed)

theorem Leaves.within (hleaves : Leaves s last) (h : s.Within P) : last.Within P := by
  cases hleaves with
  | found hf => exact hf.within_behind hP h
  | settled hst => exact ⟨h.1, h.2.settles hst⟩
  | taken hst => exact ⟨h.1, (h.2.settles hst).popped⟩

/-- **Every registry that comes into force is the first one, or a context of one that did.** -/
theorem within_after (hooks : Hooks Id α) (hsound : s.Sound) (h : s.Within P) : ∀ n, (s.after hooks n).Within P
  | 0 => h
  | n + 1 => by
    have hn := within_after hooks hsound h n
    rw [after_succ]
    cases hdone : (s.after hooks n).done with
    | true =>
      rw [next_of_done hooks hdone]
      exact hn
    | false => exact (next_leaves hooks (sound_after hooks hsound n) hdone).within hP hn

/-- **Every value of a run is read under a registry that came into force.** -/
theorem Run.readFrom {found : List (Observation × State)} {ending : Ending} (hrun : Run s found ending last)
    (hsound : s.Sound) (h : s.Within P) :
    ∀ v ∈ values found, ∃ u q stop, P q ∧ q.Loaded ∧ v.ReadFrom u q s.input stop := by
  induction hrun with
  | finished => exact fun v hv => (by cases hv)
  | failed => exact fun v hv => (by cases hv)
  | found hstep _ ih =>
    obtain ⟨st, u, transition, hf, rfl, rfl⟩ := hsound.inBounds.step_eq_found.1 hstep
    obtain ⟨_, hsettles⟩ := State.settles_of_settle hf.settled
    obtain ⟨hst, hframed, hstop, -⟩ := hf.framed hsound
    have hstart : (u.shift st.cursor).start = st.cursor := hframed.start_shift _
    refine List.forall_mem_cons.2 ⟨⟨u, _, st.frame.stop, h.inForce (h.2.settles hsettles), hsound.inForce hst, ?_⟩,
      ih (hf.sound hsound).1 (hf.within_behind hP h)⟩
    exact {
      eq_shift := congrArg u.shift hstart.symm
      framed := hstart.symm ▸ hframed
      read := hstart.symm ▸ coded_or_serialization_of_readAt hf.read
      stop_le := hstop }

end Session

/-! ## The KERI v1 tables -/

namespace Session

variable {st : State}

theorem exists_view_of_reaches {q : Registry} (h : Registry.keriV1.Reaches q) : ∃ view, q = inView view := by
  induction h with
  | self => exact ⟨.matter, rfl⟩
  | context _ hnamed ih =>
    obtain ⟨_, rfl⟩ := ih
    exact context_inView hnamed

/-- Over the KERI v1 tables one of the two views is in force. -/
theorem exists_view {α : Type} (hooks : Hooks Id α) (input : Bytes) (n : Nat)
    (hsettle : ((start input .keriV1).after hooks n).state.settle = (.ok true, st)) :
    ∃ view, ((start input .keriV1).after hooks n).inForce st = inView view := by
  have hwithin := within_after (P := Registry.keriV1.Reaches) .context hooks (sound_start Registry.loaded_keriV1 input)
    ⟨.self, State.within_start _⟩ n
  obtain ⟨_, hsettles⟩ := State.settles_of_settle hsettle
  exact exists_view_of_reaches (hwithin.inForce (hwithin.2.settles hsettles))

theorem readFrom_of_decode (input : Bytes) :
    ∀ v ∈ (decode .keriV1 input).1, ∃ u view stop, v.ReadFrom u (inView view) input stop := by
  obtain ⟨found, ending, last, hrun, hdecode⟩ := exists_run_start Registry.loaded_keriV1 input
  rw [hdecode]
  intro v hv
  obtain ⟨u, _, stop, hreaches, -, hread⟩ := hrun.readFrom (P := Registry.keriV1.Reaches) .context
    (sound_start Registry.loaded_keriV1 input) ⟨.self, State.within_start _⟩ v hv
  obtain ⟨view, rfl⟩ := exists_view_of_reaches hreaches
  exact ⟨u, view, stop, hread⟩

end Session
end Quadlet
