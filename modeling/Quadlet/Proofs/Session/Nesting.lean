import Quadlet.Proofs.Session.Scope
/-!
# Nesting — the values of every stream are one forest, with lexically scoped registries

A step puts its value in front of those that fill the scopes behind it, so a run read backwards builds the forest of its
values, with each value in its place and read under the registry of its place (`Run.scoped`).  At the start the only
scope is the whole input.  What is over at the end of a frame is what its groups wait for as a word: with counters whose
numbers add up to 2^64, a stream comes to its end before its groups have their values (`not_exists_forest_wideGroups`).
-/
namespace Quadlet

open Forest (Stage)

def Observation.place (o : Observation) : Place := ⟨o.value, o.context.depth, o.context.group.map Group.announced⟩

theorem Header.kind_code_ne (h : CodeHeader) : (Header.code h).kind ≠ .serialization := by
  cases hf : h.isFrame <;> cases hg : h.isGroup <;> simp [kind, hf, hg]

theorem CodeHeader.isGroup_of_kind {h : CodeHeader} (hk : (Header.code h).kind = .group) : h.isGroup = true := by
  unfold Header.kind at hk
  cases hf : h.isFrame <;> cases hg : h.isGroup <;> simp_all

theorem Value.kind_of_coded {r : Registry} {input : Bytes} {v : Value} (h : coded r input = .ok v) :
    v.kind ≠ .serialization := by
  unfold coded at h
  split at h
  · obtain ⟨_, _, _, _, c, _, _, _, _, _, _, _, hv⟩ := counter_eq_ok_iff_steps.1 h
    rw [hv]
    exact Header.kind_code_ne c
  · obtain ⟨_, _, c, _, _, _, rfl⟩ := primitive_eq_ok_iff_steps.1 h
    exact Header.kind_code_ne c

namespace Session

/-! ## One step -/

variable {s : Session} {st : State} {v : Value} {transition : Transition} {l : Scope} {outer : List Value}
  {ls lsp : List (List Value × Scope)} {stage : Stage} {placed : List Place}

/-- **The values that are read behind a state fill its scopes**, whatever values stand behind its frames and groups;
each is handed out with its place, and read under the registry of its place. -/
def Scoped (stage : Stage) (s : Session) (st : State) (placed : List Place) : Prop :=
  ∀ ls, Encloses s.registry s.input.length st.stack ls →
    ∃ ps : List (List Value × Value), ps.map (fun p => Place.inside p.1 p.2) = placed ∧ Fills stage ls st.cursor ps ∧
      ∀ p ∈ ps, s.registry.Reads s.input p.1 p.2

structure Stands (st : State) (l : Scope) : Prop where
  inherited : l.inherited = st.inherited
  stop : l.stop = st.frame.stop
  top : l.top = (st.group.isNone && st.frame.mode = .coldStart)
  depth : l.depth = st.depth
  group : l.group = st.group.map Group.announced

theorem Finds.top (hf : Finds s st v transition) (hk : v.kind = .serialization) :
    (st.group.isNone && st.frame.mode = .coldStart) = true := by
  have hread := hf.read
  simp only [readAt] at hread
  split at hread
  · assumption
  · exact absurd hk (Value.kind_of_coded hread)

theorem Finds.reads_of_stands (hf : Finds s st v transition) (h : s.Sound) (hstands : Stands st l)
    (hl : l.Holds s.registry s.input.length outer) : s.registry.Reads s.input outer (v.shift st.cursor) := by
  obtain ⟨-, hframed, -, -⟩ := hf.framed h
  have hstart : (v.shift st.cursor).start = st.cursor := hframed.start_shift _
  refine ⟨s.inForce st, by rw [hl.registry, hstands.inherited]; rfl, v, ?_, by rw [hstart]⟩
  have hread := hf.read
  rw [hstart, hl.stop, hstands.stop, ← hl.top, hstands.top]
  exact hread

theorem scopes_pushGroup {group : Group} (hcount : group.count ≠ 0) :
    scopes (st.pushGroup group).stack =
      ⟨some group.count, false, st.frame.stop, group.context.or st.frame.context, st.depth, some group.announced⟩ ::
        scopes st.stack := by
  have hdepth : st.stack.tail.length + 1 = st.depth := by rw [← st.length_stack, st.stack_eq]; rfl
  rw [State.pushGroup, if_neg hcount, State.stack_withGroups, st.stack_eq, ← hdepth]
  rfl

/-- **What a value opens** is filled by the values behind it, and then what is around it. -/
theorem Finds.fills (hf : Finds s st v transition) (h : s.Sound) (hstands : Stands st l)
    (hl : l.Holds s.registry s.input.length outer) (hpos : ∀ n, l.waiting = some n → 0 < n)
    (hencloses : Encloses s.registry s.input.length (st.taken v.consumed).stack lsp)
    (hreduces : Reduces stage ((outer, l.less) :: ls) lsp)
    (hrest : Scoped stage s (s.behind st v transition).state placed) :
    ∃ ps : List (List Value × Value), ps.map (fun p => Place.inside p.1 p.2) = placed ∧
      (∀ p ∈ ps, s.registry.Reads s.input p.1 p.2) ∧
      Fills stage ((outer, l) :: ls) (v.shift st.cursor).start ((outer, v.shift st.cursor) :: ps) := by
  obtain ⟨-, hframed, -, hle⟩ := hf.framed h
  have hstart : (v.shift st.cursor).start = st.cursor := hframed.start_shift _
  have hcursor : (s.behind st v transition).state.cursor = (v.shift st.cursor).start + v.consumed := by
    show ((st.taken v.consumed).apply transition).cursor = _
    rw [cursor_apply, hstart]
    rfl
  have hdepth : (st.taken v.consumed).depth = st.depth := State.depth_withGroups _ _
  have hopens := hf.opens
  cases hopens with
  | stay hk =>
    obtain ⟨ps, hps, hfills, hreads⟩ := hrest _ hencloses
    refine ⟨ps, hps, hreads, ?_⟩
    rw [hcursor, ← v.consumed_shift st.cursor, Value.consumed_of_stay hk] at hfills
    refine (hreduces.fills hfills).stay hpos ?_
    rcases hk with hk | hk
    · exact (Forest.under_serialization hk).2 ⟨hstands.top.trans (hf.top hk), rfl, rfl⟩
    · exact (Forest.under_leaf hk).2 ⟨rfl, rfl⟩
  | frame hk =>
    have hnew := hl.inFrame hk
    rw [hstands.inherited, hstands.depth, ← hdepth, ← State.length_stack] at hnew
    obtain ⟨ps, hps, hfills, hreads⟩ := hrest _ (hencloses.cons rfl hnew)
    rw [hcursor] at hfills
    refine ⟨ps, hps, hreads, hfills.frame hk ?_ hpos hreduces⟩
    rw [hstands.stop, Value.stop, hstart]
    exact hle
  | @group c context hheader hk hnamed =>
    obtain ⟨n, hn⟩ := hframed.count_of_group hheader (CodeHeader.isGroup_of_kind (by rw [← hheader]; exact hk))
    have hcount : (v.shift st.cursor).count = some (c.count.getD 0) := by
      rw [Value.count, hheader, Header.asCode?, Option.bind_some, hn]
      rfl
    by_cases hzero : c.count.getD 0 = 0
    · -- a group of no values is over at once, and its context with it
      have hsame : (s.behind st v (.openGroup ⟨c.descriptor.selector, c.count.getD 0, context⟩)).state =
          st.taken v.consumed := if_pos hzero
      rw [hsame] at hrest hcursor
      obtain ⟨ps, hps, hfills, hreads⟩ := hrest _ hencloses
      rw [hzero] at hcount
      refine ⟨ps, hps, hreads, ?_⟩
      rw [hcursor] at hfills
      exact (hreduces.fills hfills).stay hpos ((Forest.under_group hk).2 ⟨hcount, rfl⟩)
    · have hnew : Scope.Holds ⟨some (c.count.getD 0), false, l.stop, context.or st.frame.context, l.depth,
          some (c.descriptor.selector, c.count.getD 0)⟩ s.registry s.input.length (v.shift st.cursor :: outer) := by
        refine hl.inGroup hheader hk ?_ ?_ <;> rw [hstands.inherited]
        · exact hnamed
        · rw [State.inherited, Option.or_assoc, Option.or_self]
      obtain ⟨ps, hps, hfills, hreads⟩ := hrest _ (hencloses.cons
        ((scopes_pushGroup hzero).trans (by rw [State.frame_taken, hdepth, hstands.stop, hstands.depth]; rfl)) hnew)
      rw [hcursor] at hfills
      exact ⟨ps, hps, hreads, hfills.group hk hcount hpos hreduces⟩

/-- **A step puts its value in front**, in the innermost scope, with the values inside it. -/
theorem Finds.scoped (hf : Finds s st v transition) (h : s.Sound)
    (hrest : Scoped stage s (s.behind st v transition).state placed) :
    Scoped stage s st ((s.told st v transition).place :: placed) := by
  intro ls hencloses
  obtain ⟨hst, hframed, -, -⟩ := hf.framed h
  have hstart : (v.shift st.cursor).start = st.cursor := hframed.start_shift _
  rw [st.stack_eq] at hencloses
  obtain ⟨outer, l, ls', rfl, hinherited, hstop, htop, hdepth, hgroup, hpos, lsp, hpopped, hreduces⟩ :=
    hencloses.popped stage (fun g hg => ((hst.frames _ st.frame_mem_stack).waiting g hg).1)
  rw [← State.stack_taken st v.consumed] at hpopped
  have hl := hencloses.holds _ List.mem_cons_self
  have hstands : Stands st l :=
    { inherited := by rw [hinherited, State.inherited, State.group, Option.bind_map]; rfl
      stop := hstop
      top := by rw [htop, State.group, Option.isNone_map]
      depth := by rw [hdepth, ← st.length_stack, st.stack_eq]; rfl
      group := by rw [hgroup, State.group, Option.map_map]; rfl }
  obtain ⟨ps, hps, hreads, hfills⟩ := hf.fills h hstands hl hpos hpopped hreduces hrest
  rw [hstart] at hfills
  refine ⟨_, ?_, hfills, List.forall_mem_cons.2 ⟨hf.reads_of_stands h hstands hl, hreads⟩⟩
  rw [List.map_cons, hps, Place.inside, hl.depth, hl.group, hstands.depth, hstands.group]
  rfl

theorem Sound.scoped_of_settles {closed : List Frame} (h : s.Sound) (hst : State.Settles s.state st closed)
    (hscoped : Scoped stage s st placed) : Scoped stage s s.state placed := by
  intro ls hencloses
  rw [hst.stack_eq] at hencloses
  obtain ⟨ls', hencloses', hfills⟩ := hencloses.closed (fun f hf => by
    have hframe := h.state.frames f (by rw [hst.stack_eq]; exact List.mem_append_left _ hf)
    obtain ⟨hstop, hpending⟩ := hst.exhausted f hf
    exact ⟨Nat.le_antisymm hstop hframe.cursor_le, hpending⟩)
  obtain ⟨ps, hps, hrest, hreads⟩ := hscoped ls' hencloses'
  exact ⟨ps, hps, hfills ps (hst.cursor_eq ▸ hrest), hreads⟩

/-- Where a run breaks off, what is open is filled in part. -/
theorem Sound.scoped_begun (h : s.Sound) : Scoped .begun s s.state [] := fun _ hencloses =>
  ⟨[], rfl, hencloses.fills_nil (fun f hf => (h.state.frames f hf).cursor_le), fun p hp => (by cases hp)⟩

/-- At its end nothing is left open. -/
theorem Sound.scoped_finished (h : s.Sound) (hsettle : s.state.settle = (.ok false, st)) :
    Scoped .cut s s.state [] := by
  obtain ⟨closed, hst, hnested, hroot⟩ := State.settle_eq_false.1 hsettle
  refine h.scoped_of_settles hst (fun ls hencloses => ?_)
  obtain ⟨hsound, -, -⟩ := h.settled hsettle
  have hcursor := (hsound.frames _ st.root_mem_stack).cursor_le
  rw [State.stack, hnested, ← List.append_nil ([] ++ [st.root])] at hencloses
  obtain ⟨ls', ⟨hscopes, -⟩, hfills⟩ := hencloses.closed (fun f hf => by
    obtain rfl := List.mem_singleton.1 hf
    exact ⟨Nat.le_antisymm hroot.1 hcursor, hroot.2⟩)
  obtain rfl := List.map_eq_nil_iff.1 hscopes
  exact ⟨[], rfl, hfills [] .nil, fun p hp => (by cases hp)⟩

/-- The values of a run with their places. -/
def places (found : List (Observation × State)) : List Place := found.map (fun p => p.1.place)

/-- **The values of a run fill the scopes that are open where it starts**, each in its place and read under the registry
of its place: whole frames when it comes to the end, and else up to where it breaks off. -/
theorem Run.scoped {found : List (Observation × State)} {ending : Ending} {last : Session}
    (hrun : Run s found ending last) (h : s.Sound) (hstage : stage = .begun ∨ stage = .cut ∧ ending = .finished) :
    Scoped stage s s.state (places found) := by
  -- backwards along the run: the values behind a step are in place when its own value is put in front
  induction hrun with
  | failed =>
    obtain rfl | ⟨-, hending⟩ := hstage
    · exact h.scoped_begun
    · cases hending
  | finished hstep =>
    obtain ⟨st, hsettle, -⟩ := h.inBounds.step_eq_finished.1 hstep
    obtain rfl | ⟨rfl, -⟩ := hstage
    · exact h.scoped_begun
    · exact h.scoped_finished hsettle
  | found hstep _ ih =>
    obtain ⟨st, v, transition, hf, rfl, rfl⟩ := h.inBounds.step_eq_found.1 hstep
    obtain ⟨closed, hst⟩ := State.settles_of_settle hf.settled
    exact h.scoped_of_settles hst (hf.scoped h (ih (hf.sound h).1 hstage))

/-! ## The whole input -/

/-- Every value of a run takes a byte at least, and its kind is the one that its header has. -/
theorem Run.values_pos {found : List (Observation × State)} {ending : Ending} {last : Session}
    (hrun : Run s found ending last) (h : s.Sound) :
    ∀ p ∈ found, 0 < p.1.value.consumed ∧ p.1.kind = p.1.value.kind := by
  induction hrun with
  | failed => exact fun p hp => (by cases hp)
  | finished => exact fun p hp => (by cases hp)
  | found hstep _ ih =>
    obtain ⟨st, v, transition, hf, rfl, rfl⟩ := h.inBounds.step_eq_found.1 hstep
    obtain ⟨hsound, -, hpos⟩ := hf.sound h
    intro p hp
    rcases List.mem_cons.1 hp with rfl | hp
    · exact ⟨hpos, rfl⟩
    · exact ih hsound p hp

section

variable {r : Registry} {input : Bytes} {found : List (Observation × State)} {ending : Ending} {last : Session}

/-- **However its stream ends, the values of a run are one forest.** -/
theorem Run.exists_forest (hr : r.Loaded) (hrun : Run (start input r) found ending last) :
    ∃ (F : Forest) (cursor : Nat), F.preorder = values found ∧ F.Grows true 0 cursor ∧ cursor ≤ input.length ∧
      (ending = .finished → F.Covers true 0 input.length) ∧ places found = F.places 1 none ∧
      ∀ p ∈ F.paths [], r.Reads input p.1 p.2 := by
  have hroot : Encloses r input.length (start input r).state.stack [([], (start input r).state.root.scope 1)] :=
    ⟨rfl, fun l hl => by
      obtain rfl := List.mem_singleton.1 hl
      exact ⟨rfl, rfl, rfl, rfl, rfl⟩⟩
  have hforest : ∃ (F : Forest) (cursor : Nat), (F.paths []).map (fun p => Place.inside p.1 p.2) = places found ∧
      F.Grows true 0 cursor ∧ cursor ≤ input.length ∧ (ending = .finished → F.Covers true 0 input.length) ∧
      ∀ p ∈ F.paths [], r.Reads input p.1 p.2 := by
    obtain ⟨stage, hstage, hcut⟩ : ∃ stage : Stage, (stage = .begun ∨ stage = .cut ∧ ending = .finished) ∧
        (ending = .finished → stage ≠ .begun) := by
      by_cases hending : ending = .finished
      · exact ⟨.cut, .inr ⟨rfl, hending⟩, fun _ => Stage.noConfusion⟩
      · exact ⟨.begun, .inl rfl, fun h => absurd h hending⟩
    obtain ⟨ps, hps, hfills, hreads⟩ := hrun.scoped (sound_start hr input) hstage _ hroot
    cases hfills with
    | whole hwaiting => cases hwaiting
    | @cut _ _ _ F _ _ _ hspans hmissing hrest =>
      cases hrest
      have hmissing : 2 ^ 64 ∣ F.missing + (0 - F.trees) := hmissing
      rw [Nat.zero_sub, Nat.add_zero] at hmissing
      rw [List.append_nil] at hps hreads
      have hcovers : F.Covers true 0 input.length := ⟨hspans, hmissing⟩
      exact ⟨F, input.length, hps, hcovers.grows, Nat.le_refl _, fun _ => hcovers, hreads⟩
    | @begun _ _ _ F _ cursor hbegun _ hgrows hcursor =>
      exact ⟨F, cursor, hps, hgrows, hcursor, fun h => absurd hbegun (hcut h), hreads⟩
  obtain ⟨F, cursor, hplaces, hgrows, hcursor, hcovers, hreads⟩ := hforest
  have hvalues : F.preorder = values found := by
    have hmap := congrArg (List.map Place.value) hplaces
    rw [places, List.map_map, List.map_map] at hmap
    exact (F.map_snd_paths []).symm.trans hmap
  exact ⟨F, cursor, hvalues, hgrows, hcursor, hcovers, hplaces.symm.trans (F.places_eq_map_paths []).symm, hreads⟩

/-- **And no other.** -/
theorem Run.forest_unique (hr : r.Loaded) (hrun : Run (start input r) found ending last) {F G : Forest}
    {stage stage' : Stage} {top top' : Bool} {begin begin' stop stop' : Nat} (hF : F.preorder = values found)
    (hspans : F.Spans stage top begin stop) (hG : G.preorder = values found)
    (hspans' : G.Spans stage' top' begin' stop') : G = F := by
  refine hspans'.unique hspans (hG.trans hF.symm) (fun v hv => ?_)
  rw [hG] at hv
  obtain ⟨p, hp, rfl⟩ := List.mem_map.1 hv
  exact (hrun.values_pos (sound_start hr input) p hp).1

end

/-- **Registries are lexically scoped.**  The values that an input yields, whether or not it is read to its end, are the
preorder of one forest, whole but for the trees left at the end of a frame or of the stream, and of no other.  Each
value is what stands in its place under the registry that the values around it say: the context of the nearest group
that names one, in the registry that this group was read under, or else the registry of the session.  The value behind
another is the first one inside it, or else it is read under the registry that the outermost value that ends there was
read under. -/
theorem values_scoped {r : Registry} (hr : r.Loaded) (input : Bytes) :
    ∃ (F : Forest) (cursor : Nat), F.preorder = (decode r input).1 ∧ F.Grows true 0 cursor ∧ cursor ≤ input.length ∧
      (∀ (G : Forest) (n : Nat), G.preorder = (decode r input).1 → G.Grows true 0 n → G = F) ∧
      (∀ p ∈ F.paths [], r.Reads input p.1 p.2) ∧
      (F.paths []).IsChain (fun p q => q.1 = p.2 :: p.1 ∨
        ∃ inner g, p.2 :: p.1 = inner ++ g :: q.1 ∧
          ∃ registry, r.inside q.1 = .ok registry ∧ g.ReadUnder registry input q.1 ∧
            q.2.ReadUnder registry input q.1) := by
  obtain ⟨found, ending, last, hrun, hdecode⟩ := exists_run_start hr input
  rw [hdecode]
  obtain ⟨F, cursor, hvalues, hgrows, hcursor, -, -, hreads⟩ := hrun.exists_forest hr
  refine ⟨F, cursor, hvalues, hgrows, hcursor, fun G n hG hgrows' => hrun.forest_unique hr hvalues hgrows hG hgrows',
    hreads, ?_⟩
  refine (Forest.isChain_paths hreads).imp_of_mem_imp (fun p q _ hq hfollows => ?_)
  rcases hfollows with hinside | ⟨inner, g, hends, registry, hregistry, hg⟩
  · exact .inl hinside
  · obtain ⟨registry', hregistry', hread⟩ := hreads q hq
    rw [hregistry] at hregistry'
    cases hregistry'
    exact .inr ⟨inner, g, hends, registry, hregistry, hg, hread⟩

/-- A group of one indexed signature as the only value of a group of indexed signatures, and behind them a salt. -/
def groupEndsGroup : Bytes :=
  Bytes.ofString "-AAB-KAA" ++ List.replicate 88 'A'.toUInt8 ++ Bytes.ofString "0A" ++ List.replicate 22 'A'.toUInt8

theorem values_scoped_group_ends_group :
    ∃ F : Forest, F.preorder.map Value.start = [0, 4, 8, 96] ∧
      ∀ p ∈ F.paths [], Registry.keriV1.Reads groupEndsGroup p.1 p.2 := by
  obtain ⟨F, -, hvalues, -, -, -, hreads, -⟩ := values_scoped Registry.loaded_keriV1 groupEndsGroup
  refine ⟨F, ?_, hreads⟩
  rw [hvalues]
  decide +kernel

/-- **A group that ends the group around it**: what follows its last value is not read under the registry that was in
force at its counter, but under the one in force at the counter around it. -/
theorem not_readUnder_group_ends_group :
    ∃ outer counter signature salt : Value,
      decode .keriV1 groupEndsGroup = ([outer, counter, signature, salt], .finished) ∧
      outer.count = some 1 ∧ counter.kind = .group ∧ counter.count = some 1 ∧
      Registry.keriV1.inside [outer] = .ok (Registry.keriV1.withView .indexer) ∧
      counter.ReadUnder (Registry.keriV1.withView .indexer) groupEndsGroup [outer] ∧
      ¬ salt.ReadUnder (Registry.keriV1.withView .indexer) groupEndsGroup [] := by
  obtain ⟨hlength, hending, hfacts, hcoded, hsniff⟩ :
      groupEndsGroup.length = 120 ∧ (decode .keriV1 groupEndsGroup).2 = .finished ∧
        (decode .keriV1 groupEndsGroup).1.map (fun v => (v.start, v.kind, v.count, v.contextName?)) =
          [(0, .group, some 1, some "Indexer"), (4, .group, some 1, none), (8, .leaf, none, none),
            (96, .leaf, none, none)] ∧
        (Value.coded (Registry.keriV1.withView .indexer) (groupEndsGroup.slice 4 120)).toOption.map (·.shift 4) =
          (decode .keriV1 groupEndsGroup).1[1]? ∧
        Value.sniff (Registry.keriV1.withView .indexer) (groupEndsGroup.slice 96 120) =
          .error (.shortage 24 132) := by decide +kernel
  rcases hdecode : decode .keriV1 groupEndsGroup with ⟨vs, ending⟩
  rw [hdecode] at hending hfacts hcoded
  dsimp only at hending hfacts hcoded
  obtain ⟨outer, vs, rfl, houter, hfacts⟩ := List.map_eq_cons_iff.1 hfacts
  obtain ⟨counter, vs, rfl, hcounter, hfacts⟩ := List.map_eq_cons_iff.1 hfacts
  obtain ⟨signature, vs, rfl, -, hfacts⟩ := List.map_eq_cons_iff.1 hfacts
  obtain ⟨salt, vs, rfl, hsalt, hfacts⟩ := List.map_eq_cons_iff.1 hfacts
  obtain rfl := List.map_eq_nil_iff.1 hfacts
  simp only [Prod.mk.injEq] at houter hcounter hsalt
  obtain ⟨-, houter, hcount, hname⟩ := houter
  obtain ⟨hstart, hcounter, hcount', -⟩ := hcounter
  obtain ⟨u, hu, hshift⟩ := exists_of_toOption_map hcoded
  have hregistry : Registry.keriV1.inside [outer] = .ok (Registry.keriV1.withView .indexer) := by
    rw [Registry.inside, hname]
    rfl
  have hextent : extent groupEndsGroup.length [outer] = 120 := by
    rw [extent, if_neg (by rw [houter]; decide), extent, hlength]
  refine ⟨outer, counter, signature, salt, by rw [hending], hcount, hcounter, hcount', hregistry,
    ⟨u, ?_, by rw [hstart]; exact hshift.symm⟩, ?_⟩
  · rw [hstart, hextent, List.isEmpty_cons, if_neg Bool.false_ne_true]
    exact hu
  · rintro ⟨w, hw, -⟩
    rw [hsalt.1, extent, hlength, List.isEmpty_nil, if_pos rfl, hsniff] at hw
    cases hw

end Session
end Quadlet
