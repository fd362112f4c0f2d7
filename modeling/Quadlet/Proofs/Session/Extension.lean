import Mathlib.Data.List.Forall2
import Quadlet.Proofs.Extension
import Quadlet.Proofs.Session.Run
/-!
# More codes, step by step — what was decoded is decoded with more codes

Two sessions over one input, the second with more codes, go in step: their states differ only in the registries that
their frames and groups carry, and each of these has its codes among those of its counterpart (`State.ExtendedBy`).
Every value that the first one finds, the second one finds too, and the states behind it are alike again
(`Finds.extended`).  So the first run is the beginning of the second one, and all of it when the first one comes to the
end of the input (`decode_extends`).
-/
namespace Quadlet

/-! ## Related options -/

section Rel

variable {α β γ δ : Type} {R : α → β → Prop} {S : γ → δ → Prop} {a c : Option α} {b d : Option β}

theorem isNone_eq_of_rel (h : Option.Rel R a b) : b.isNone = a.isNone := by cases h <;> rfl

theorem rel_getD (h : Option.Rel R a b) {x : α} {y : β} (hxy : R x y) : R (a.getD x) (b.getD y) := by
  cases h with
  | none => exact hxy
  | some h => exact h

theorem rel_or (h : Option.Rel R a b) (h' : Option.Rel R c d) : Option.Rel R (a.or c) (b.or d) := by
  cases h with
  | none => exact h'
  | some h => exact .some h

theorem rel_bind (h : Option.Rel R a b) {f : α → Option γ} {g : β → Option δ}
    (hfg : ∀ {x y}, R x y → Option.Rel S (f x) (g y)) : Option.Rel S (a.bind f) (b.bind g) := by
  cases h with
  | none => exact .none
  | some h => exact hfg h

end Rel

/-! ## Alike but for the codes -/

structure Group.ExtendedBy (g k : Group) : Prop where
  selector_eq : k.selector = g.selector
  count_eq : k.count = g.count
  context : Option.Rel Registry.ExtendedBy g.context k.context

/-- Groups that wait for as many values, one by one. -/
def GroupsExtended : List (Group × Nat) → List (Group × Nat) → Prop :=
  List.Forall₂ (fun g k => g.1.ExtendedBy k.1 ∧ k.2 = g.2)

structure Frame.ExtendedBy (f k : Frame) : Prop where
  stop_eq : k.stop = f.stop
  mode_eq : k.mode = f.mode
  context : Option.Rel Registry.ExtendedBy f.context k.context
  groups : GroupsExtended f.groups k.groups

theorem GroupsExtended.popped {gs ks : List (Group × Nat)} (h : GroupsExtended gs ks) :
    GroupsExtended (popped gs) (popped ks) := by
  cases h with
  | nil => exact .nil
  | @cons g k gs ks hhead htail =>
    obtain ⟨g, remaining⟩ := g
    obtain ⟨k, _⟩ := k
    obtain ⟨hgroup, rfl⟩ := hhead
    simp only [Quadlet.popped]
    split
    · exact htail
    · exact .cons ⟨hgroup, rfl⟩ htail

theorem GroupsExtended.head {gs ks : List (Group × Nat)} (h : GroupsExtended gs ks) :
    Option.Rel Group.ExtendedBy (gs.head?.map Prod.fst) (ks.head?.map Prod.fst) := by
  cases h with
  | nil => exact .none
  | cons hhead => exact .some hhead.1

theorem Frame.ExtendedBy.pending_eq {f k : Frame} (h : f.ExtendedBy k) : k.pending = f.pending := by
  have hsum : ∀ {gs ks : List (Group × Nat)}, GroupsExtended gs ks →
      ks.foldr (fun g n => wrap (n + g.2)) 0 = gs.foldr (fun g n => wrap (n + g.2)) 0 := by
    intro gs ks hgs
    induction hgs with
    | nil => rfl
    | cons hhead _ ih => rw [List.foldr_cons, List.foldr_cons, ih, hhead.2]
  exact hsum h.groups

/-- **Two states alike but for the codes**: the same cursor in the same frames, which wait for the same values. -/
structure State.ExtendedBy (s t : State) : Prop where
  root : s.root.ExtendedBy t.root
  nested : List.Forall₂ Frame.ExtendedBy s.nested t.nested
  cursor_eq : t.cursor = s.cursor

namespace State

variable {s t : State}

theorem extendedBy_start (length : Nat) : (start length).ExtendedBy (start length) :=
  ⟨⟨rfl, rfl, .none, .nil⟩, .nil, rfl⟩

theorem ExtendedBy.frame (h : s.ExtendedBy t) : s.frame.ExtendedBy t.frame := by
  obtain ⟨root, nested, cursor⟩ := s
  obtain ⟨root', nested', cursor'⟩ := t
  obtain ⟨hroot, hnested, -⟩ := h
  cases hnested with
  | nil => exact hroot
  | cons hhead => exact hhead

theorem ExtendedBy.withGroups (h : s.ExtendedBy t) {gs ks : List (Group × Nat)} (hgroups : GroupsExtended gs ks) :
    (s.withGroups gs).ExtendedBy (t.withGroups ks) := by
  obtain ⟨root, nested, cursor⟩ := s
  obtain ⟨root', nested', cursor'⟩ := t
  obtain ⟨hroot, hnested, hcursor⟩ := h
  cases hnested with
  | nil => exact ⟨⟨hroot.stop_eq, hroot.mode_eq, hroot.context, hgroups⟩, .nil, hcursor⟩
  | cons hhead htail =>
    exact ⟨hroot, .cons ⟨hhead.stop_eq, hhead.mode_eq, hhead.context, hgroups⟩ htail, hcursor⟩

theorem ExtendedBy.taken (h : s.ExtendedBy t) (n : Nat) : (s.taken n).ExtendedBy (t.taken n) := by
  obtain ⟨hroot, hnested, -⟩ := h.withGroups h.frame.groups.popped
  exact ⟨hroot, hnested, congrArg (· + n) h.cursor_eq⟩

theorem ExtendedBy.group (h : s.ExtendedBy t) : Option.Rel Group.ExtendedBy s.group t.group := h.frame.groups.head

/-- The registries that the next values are read under are alike as well. -/
theorem ExtendedBy.inherited (h : s.ExtendedBy t) : Option.Rel Registry.ExtendedBy s.inherited t.inherited :=
  rel_or (rel_bind h.group (fun hgroup => hgroup.context)) h.frame.context

theorem extendedBy_settleNested {root root' : Frame} (hroot : root.ExtendedBy root') (cursor : Nat) {fs ks : List Frame}
    (h : List.Forall₂ Frame.ExtendedBy fs ks) :
    (settleNested root' cursor ks).1 = (settleNested root cursor fs).1 ∧
      List.Forall₂ Frame.ExtendedBy (settleNested root cursor fs).2 (settleNested root' cursor ks).2 := by
  induction h with
  | nil =>
    unfold settleNested
    rw [hroot.stop_eq, hroot.pending_eq]
    split
    · exact ⟨rfl, .nil⟩
    split <;> exact ⟨rfl, .nil⟩
  | @cons f k fs ks hhead htail ih =>
    unfold settleNested
    rw [hhead.stop_eq, hhead.pending_eq]
    split
    · exact ⟨rfl, .cons hhead htail⟩
    split
    · exact ⟨rfl, .cons hhead htail⟩
    · exact ih

/-- **States that are alike settle alike.** -/
theorem ExtendedBy.settle (h : s.ExtendedBy t) {result : Except DecodeError Bool} {st : State}
    (hs : s.settle = (result, st)) : ∃ st', t.settle = (result, st') ∧ st.ExtendedBy st' := by
  obtain ⟨hresult, hnested⟩ := extendedBy_settleNested h.root s.cursor h.nested
  cases hs
  refine ⟨t.settle.2, Prod.ext ?_ rfl, h.root, ?_, h.cursor_eq⟩
  · simp only [State.settle, h.cursor_eq, hresult]
  · simpa only [State.settle, h.cursor_eq] using hnested

end State

/-- Two transitions that open the same, but for the registries. -/
inductive Transition.ExtendedBy : Transition → Transition → Prop where
  | stay : ExtendedBy .stay .stay
  | openFrame {stop : Nat} {c e : Option Registry} (context : Option.Rel Registry.ExtendedBy c e) :
    ExtendedBy (.openFrame stop c) (.openFrame stop e)
  | openGroup {g k : Group} (group : g.ExtendedBy k) : ExtendedBy (.openGroup g) (.openGroup k)

theorem State.ExtendedBy.apply {s t : State} {a b : Transition} (h : s.ExtendedBy t) (hab : a.ExtendedBy b) :
    (s.apply a).ExtendedBy (t.apply b) := by
  cases hab with
  | stay => exact h
  | openFrame hcontext => exact ⟨h.root, .cons ⟨rfl, rfl, hcontext, .nil⟩ h.nested, h.cursor_eq⟩
  | @openGroup g k hgroup =>
    simp only [State.apply, State.pushGroup_eq, hgroup.count_eq]
    split
    · exact h.withGroups h.frame.groups
    · exact h.withGroups (.cons ⟨hgroup, rfl⟩ h.frame.groups)

namespace Session

/-- The context that a counter names, or the one around it, has its counterpart. -/
theorem extendedBy_groupContext {r q : Registry} (h : r.ExtendedBy q) {c e named : Option Registry}
    (hcontext : Option.Rel Registry.ExtendedBy c e) {header : CodeHeader}
    (hnamed : groupContext r c header = .ok named) :
    ∃ named', groupContext q e header = .ok named' ∧ Option.Rel Registry.ExtendedBy named named' := by
  unfold groupContext at hnamed ⊢
  split at hnamed
  · next hhas =>
    rw [if_pos hhas]
    obtain ⟨context, hfound, rfl⟩ := map_eq_ok.1 hnamed
    unfold CodeHeader.context at hfound ⊢
    split at hfound
    · next name hname =>
      obtain ⟨context', hfound', hextended⟩ := h.context hfound
      exact ⟨some context', by rw [hfound']; rfl, .some hextended⟩
    · cases hfound
  · next hhas =>
    rw [if_neg hhas]
    cases hnamed
    exact ⟨e, rfl, hcontext⟩

/-- What a value opens among the codes of `r`, it opens among more. -/
theorem Opens.extended {r q : Registry} (h : r.ExtendedBy q) {c e : Option Registry}
    (hcontext : Option.Rel Registry.ExtendedBy c e) {v : Value} {a : Transition} (hopens : Opens r c v a) :
    ∃ b, Opens q e v b ∧ a.ExtendedBy b := by
  cases hopens with
  | stay hkind => exact ⟨_, .stay hkind, .stay⟩
  | frame hkind => exact ⟨_, .frame hkind, .openFrame hcontext⟩
  | group hheader hkind hnamed =>
    obtain ⟨named', hnamed', hextended⟩ := extendedBy_groupContext h hcontext hnamed
    exact ⟨_, .group hheader hkind hnamed', .openGroup ⟨rfl, rfl, hextended⟩⟩

/-- Two sessions over one input, the second with more codes. -/
structure ExtendedBy (s t : Session) : Prop where
  input_eq : t.input = s.input
  registry : s.registry.ExtendedBy t.registry
  state : s.state.ExtendedBy t.state

variable {s t last : Session} {st st' : State} {v : Value} {transition : Transition}

theorem extendedBy_start {r q : Registry} (h : r.ExtendedBy q) (input : Bytes) :
    (start input r).ExtendedBy (start input q) :=
  ⟨rfl, h, State.extendedBy_start input.length⟩

theorem ExtendedBy.inForce (h : s.ExtendedBy t) (hst : st.ExtendedBy st') :
    (s.inForce st).ExtendedBy (t.inForce st') :=
  rel_getD hst.inherited h.registry

/-- What is read with fewer codes is read with more. -/
theorem ExtendedBy.readAt (h : s.ExtendedBy t) (hst : st.ExtendedBy st') (hr : (s.inForce st).Loaded)
    (hq : (t.inForce st').Loaded) (hread : s.readAt st = .ok v) : t.readAt st' = .ok v := by
  have hgroup : st'.group.isNone = st.group.isNone := isNone_eq_of_rel hst.group
  have hextended := h.inForce hst
  simp only [Session.readAt, h.input_eq, hst.cursor_eq, hst.frame.stop_eq, hst.frame.mode_eq, hgroup] at hread ⊢
  split at hread
  · next hcold =>
    rw [if_pos hcold]
    exact hextended.sniff hr hq hread
  · next hcold =>
    rw [if_neg hcold]
    exact hextended.coded hr hq hread

/-- **Every value that is found with fewer codes is found with more**, and the sessions behind it are alike again. -/
theorem Finds.extended (hf : Finds s st v transition) (hs : s.Sound) (ht : t.Sound) (h : s.ExtendedBy t) :
    ∃ st' transition', Finds t st' v transition' ∧ st'.cursor = st.cursor ∧
      (s.behind st v transition).ExtendedBy (t.behind st' v transition') := by
  obtain ⟨st', hsettle, hst⟩ := h.state.settle hf.settled
  have hr := hs.inForce (hs.settled hf.settled).1
  have hq := ht.inForce (ht.settled hsettle).1
  obtain ⟨transition', hopens, htransition⟩ := hf.opens.extended (h.inForce hst) hst.inherited
  rw [← hst.cursor_eq] at hopens
  have hinside := hf.inside
  rw [← hst.cursor_eq, ← hst.frame.stop_eq] at hinside
  exact ⟨st', transition', ⟨hsettle, h.readAt hst hr hq hf.read, hopens, hinside⟩, hst.cursor_eq, h.input_eq,
    h.registry, (hst.taken _).apply htransition⟩

/-- A run with fewer codes is where a run with more begins, and all of it if it comes to the end. -/
theorem Run.extended {found : List (Observation × State)} {ending : Ending} (hrun : Run s found ending last)
    (hs : s.Sound) (ht : t.Sound) (h : s.ExtendedBy t) {found' : List (Observation × State)} {ending' : Ending}
    {last' : Session} (hrun' : Run t found' ending' last') :
    values found <+: values found' ∧
      (ending = .finished → ending' = .finished ∧ values found' = values found) := by
  induction hrun generalizing t found' with
  | finished hstep =>
    obtain ⟨st, hsettle, -⟩ := hs.inBounds.step_eq_finished.1 hstep
    obtain ⟨st', hsettle', -⟩ := h.state.settle hsettle
    obtain ⟨rfl, rfl, -⟩ := hrun'.unique (.finished (step_of_settle_false hsettle'))
    exact ⟨List.nil_prefix, fun _ => ⟨rfl, rfl⟩⟩
  | failed => exact ⟨List.nil_prefix, fun hending => (by cases hending)⟩
  | found hstep _ ih =>
    obtain ⟨st, v, transition, hf, rfl, rfl⟩ := hs.inBounds.step_eq_found.1 hstep
    obtain ⟨st', transition', hf', hcursor, hextended⟩ := hf.extended hs ht h
    -- with more codes the first step finds the same value, so the second run goes on behind it too
    cases hrun' with
    | finished hstep' => simp [hf'.step] at hstep'
    | failed hstep' => simp [hf'.step] at hstep'
    | found hstep' hrest' =>
      rw [hf'.step] at hstep'
      cases hstep'
      obtain ⟨hbegins, hall⟩ := ih (hf.sound hs).1 (hf'.sound ht).1 hextended hrest'
      have hvalue : (t.told st' v transition').value = (s.told st v transition).value :=
        congrArg v.shift hcursor
      simp only [values, List.map_cons, hvalue] at hbegins hall ⊢
      exact ⟨(List.cons_prefix_cons).2 ⟨rfl, hbegins⟩, fun hending =>
        (hall hending).imp_right (congrArg (_ :: ·))⟩

/-- **Adding codes changes nothing that was decoded.**  Of two loaded registries with the same view and the same
contexts, the second with all the codes of the first, the second decodes every value that the first decodes before its
end or its error; and when the first comes to the end of the input, so does the second, with the same values. -/
theorem decode_extends {r q : Registry} (hr : r.Loaded) (hq : q.Loaded) (h : r.ExtendedBy q) (input : Bytes) :
    (decode r input).1 <+: (decode q input).1 ∧
      ((decode r input).2 = .finished → decode q input = decode r input) := by
  obtain ⟨found, ending, last, hrun, hdecode⟩ := exists_run_start hr input
  obtain ⟨found', ending', last', hrun', hdecode'⟩ := exists_run_start hq input
  obtain ⟨hbegins, hall⟩ :=
    hrun.extended (sound_start hr input) (sound_start hq input) (extendedBy_start h input) hrun'
  rw [hdecode, hdecode']
  refine ⟨hbegins, fun hending => ?_⟩
  obtain ⟨hending', hvalues⟩ := hall hending
  rw [hvalues, hending', ← hending]

/-- A short number, an indexed signature, its group, and a container. -/
def fewSizes : Sizes where
  matter := KeriV1.sizesOf [("M", KeriV1.plain 1 4 0, "Short")]
  indexer := KeriV1.sizesOf [("A", KeriV1.indexed 1 1 0 88, "Ed25519_Sig")]
  counter := KeriV1.sizesOf [("-A", KeriV1.count 2 2 4, "ControllerIdxSigs"),
    ("-L", KeriV1.count 2 2 4, "PathedMaterialQuadlets")]

def fewCounters : KeyMap CounterEntry :=
  .ofList [(Bytes.ofString "-A", { multiplier := some "x1", context := some "Indexer" }),
    (Bytes.ofString "-L", { frame := true })]

/-- A container with a number in it, and a group of one signature. -/
def fewText : Bytes := Bytes.ofString "-LABMAAA-AABAA" ++ List.replicate 86 'A'.toUInt8

/-- Four codes are enough for the text.  It may go on with a counter that only the bundled tables have. -/
theorem decode_extends_fewCodes :
    ∃ t, Tables.ofDocuments fewSizes KeriV1.codex fewCounters = .ok t ∧
      (Registry.ofTables t "few codes").Loaded ∧ Registry.keriV1.Loaded ∧
      (Registry.ofTables t "few codes").ExtendedBy .keriV1 ∧
      (decode (.ofTables t "few codes") fewText).1.length = 4 ∧
      decode .keriV1 fewText = decode (.ofTables t "few codes") fewText ∧
      (decode (.ofTables t "few codes") (fewText ++ Bytes.ofString "-VAA")).1 <+:
        (decode .keriV1 (fewText ++ Bytes.ofString "-VAA")).1 := by
  obtain ⟨t, ht, ⟨hmatter, hindexer, hcounter⟩, hlength, hending⟩ :
      ∃ t, (Tables.ofDocuments fewSizes KeriV1.codex fewCounters).toOption = some t ∧
        ((∀ d ∈ t.matter.codes.values, d ∈ KeriV1.tables.matter.codes.values) ∧
          (∀ d ∈ t.indexer.codes.values, d ∈ KeriV1.tables.indexer.codes.values) ∧
          ∀ d ∈ t.counter.codes.values, d ∈ KeriV1.tables.counter.codes.values) ∧
        (decode (.ofTables t "few codes") fewText).1.length = 4 ∧
        (decode (.ofTables t "few codes") fewText).2 = .finished :=
    ⟨_, rfl, by decide +kernel, by decide +kernel, by decide +kernel⟩
  have ht := eq_ok_of_toOption ht
  have hr := Registry.loaded_ofTables ht "few codes"
  have h : (Registry.ofTables t "few codes").ExtendedBy .keriV1 := ⟨hmatter, hindexer, hcounter, rfl, fun _ => rfl⟩
  obtain ⟨-, hall⟩ := decode_extends hr Registry.loaded_keriV1 h fewText
  obtain ⟨hbegins, -⟩ := decode_extends hr Registry.loaded_keriV1 h (fewText ++ Bytes.ofString "-VAA")
  exact ⟨t, ht, hr, Registry.loaded_keriV1, h, hlength, hall hending, hbegins⟩

end Session
end Quadlet
