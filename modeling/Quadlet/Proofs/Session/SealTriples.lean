import Quadlet.Proofs.Fields
import Quadlet.Proofs.Session.Contexts
import Quadlet.Proofs.Session.Row
/-!
# Seal source triples — a counter that is as long as its members

The counter of seal source triples says how long it is only by what stands behind it, so its members are read when it
is: as primitives, under the registry in force.  Its group then waits for them, three for each triple, under that
registry; so the calls that follow find the same row (`next_triples`).  In the view of the matter table all of them find
a leaf.  In the view of the indexer table they do so up to a signature whose index is not a number, which the counter
has let pass (`not_next_triples_index`).
-/
namespace Quadlet

/-- The entry of the counter of triples. -/
def triplesDescriptor : Descriptor :=
  { (KeriV1.count 2 2 4).primitive (Bytes.ofString "-I") (some Value.sealTriplesName) .counter with
    multiplier := some "x3" }

theorem eq_triplesDescriptor :
    ∀ d ∈ KeriV1.tables.counter.codes.values, d.name = some Value.sealTriplesName → d = triplesDescriptor := by
  decide +kernel

theorem name_ne_triples (view : View) :
    ∀ d ∈ (inView view).primitives.codes.values, d.name ≠ some Value.sealTriplesName := by
  cases view <;> decide +kernel

/-- The name is that of one counter, and of no primitive. -/
theorem counter_of_name {view : View} {input : Bytes} {v : Value} {h : CodeHeader}
    (hv : Value.coded (inView view) input = .ok v) (hh : v.header = .code h)
    (hname : h.descriptor.name = some Value.sealTriplesName) :
    input.head? = some counterStart ∧ Value.counter (inView view) input = .ok v := by
  unfold Value.coded at hv
  split at hv
  · next hstart => exact ⟨hstart, hv⟩
  · obtain ⟨p, c, soft, -, hc, -, -, rfl⟩ := Value.canonical_of_primitive (loaded_inView view) hv
    cases hh
    exact absurd hname (name_ne_triples view h.descriptor hc.mem)

/-- **A counter of triples counts a row**, of three times as many primitives as its digits say, and reaches over it. -/
theorem row_of_coded {view : View} {input : Bytes} {v : Value} {h : CodeHeader}
    (hv : Value.coded (inView view) input = .ok v) (hh : v.header = .code h)
    (hname : h.descriptor.name = some Value.sealTriplesName) :
    ∃ (count : Nat) (members : List Primitive), h.descriptor = triplesDescriptor ∧
      readDigits h.digits = .ok count ∧ h.count = some (3 * count) ∧ members.length = 3 * count ∧
      Row (inView view) members (input.drop h.codeLength) ∧ v.length = h.codeLength + rowLength members := by
  obtain ⟨hstart, hv⟩ := counter_of_name hv hh hname
  obtain ⟨c, hsteps⟩ := Value.exists_counterSteps (loaded_inView view) hstart hv
  rw [hsteps.value_eq] at hh
  cases hh
  obtain ⟨count, members, hcount, hmembers, hrow, hlength⟩ := hsteps.row hname
  have hdesc := eq_triplesDescriptor h.descriptor (hsteps.mem_codes hstart) hname
  -- the header has multiplied the number of its digits
  obtain ⟨-, -, -, hc⟩ := CodeHeader.read_eq_ok.1 hsteps.read
  rw [hdesc] at hc
  obtain ⟨n, hn, ⟨hnone, -⟩ | ⟨_, multiplier, hthrice, hmultiplier, rfl⟩⟩ := (CodeHeader.ofDigits_counter rfl).1 hc
  · cases hnone
  · cases hthrice
    cases hmultiplier
    obtain rfl : n = count := Except.ok.inj (hn.symm.trans hcount)
    have hthree : Multiplier.thrice.apply n = 3 * n := by
      rw [Multiplier.apply_of_lt _ (Numeral.lt_of_read_maxWidth (readDigits_eq_ok.1 hn))]
      exact Nat.mul_comm _ _
    exact ⟨n, members, rfl, hn, congrArg some hthree, hmembers, hrow, hlength⟩

/-- A row is what the bytes are that it reaches over. -/
theorem Row.of_take {view : View} :
    ∀ {members : List Primitive} {input other : Bytes}, Row (inView view) members input →
      other.take (rowLength members) = input.take (rowLength members) → Row (inView view) members other
  | [], _, _, _, _ => trivial
  | p :: members, input, other, ⟨hp, hrow⟩, ho => by
    rw [rowLength_cons] at ho
    have hlooks := Primitive.looks_of_fit (loaded_inView view) hp
    exact ⟨hlooks.of_take (primitivesFit_inView view) (Bytes.take_eq_of_le ho (Nat.le_add_right _ _)),
      hrow.of_take (Looks.take_drop_eq ho)⟩

/-- **What a counter of triples says**: its digits are a number, and behind its code is a row of three times as many
primitives up to its end. -/
structure CountsRow (view : View) (input : Bytes) (v : Value) (h : CodeHeader) (count : Nat)
    (members : List Primitive) : Prop where
  digits : readDigits h.digits = .ok count
  count_eq : h.count = some (3 * count)
  length_eq : members.length = 3 * count
  row : Row (inView view) members (input.slice (v.start + h.codeLength) v.stop)
  stop_eq : v.stop = v.start + h.codeLength + rowLength members

namespace Session

variable {s : Session} {st : State} {v : Value} {h : CodeHeader}

theorem coded_of_readAt (hread : s.readAt st = .ok v) (hh : v.header = .code h) :
    Value.coded (s.inForce st) (s.input.slice st.cursor st.frame.stop) = .ok v := by
  rcases coded_or_serialization_of_readAt hread with hcoded | hserialization
  · exact hcoded
  · obtain ⟨_, -, -, rfl⟩ := Value.serialization_eq_ok.1 hserialization
    cases hh

/-! ## The members of the group -/

variable {view : View} {transition : Transition}

/-- **Behind a counter of triples its group waits for the row**, under the registry that the counter was read under. -/
theorem Finds.counts_row (hf : Finds s st v transition) (hsound : s.Sound) (hview : s.inForce st = inView view)
    (hh : v.header = .code h) (hname : h.descriptor.name = some Value.sealTriplesName) :
    ∃ count members, CountsRow view s.input (v.shift st.cursor) h count members ∧
      Row (inView view) members (s.input.slice (st.cursor + h.codeLength) st.frame.stop) ∧
      (s.behind st v transition).state =
        (st.taken h.codeLength).pushGroup ⟨h.descriptor.selector, 3 * count, st.inherited⟩ := by
  obtain ⟨-, hframed, hstop, hle⟩ := hf.framed hsound
  have hcoded := coded_of_readAt hf.read hh
  rw [hview] at hcoded
  obtain ⟨count, members, hdesc, hdigits, hcount, hmembers, hrow, hlength⟩ := row_of_coded hcoded hh hname
  rw [Bytes.drop_slice] at hrow
  have hstart := hframed.start_shift st.cursor
  have hreach : (v.shift st.cursor).stop = st.cursor + h.codeLength + rowLength members := by
    show (v.shift st.cursor).start + v.length = _
    rw [hstart, hlength, Nat.add_assoc]
  have hkind : v.kind = .group := by
    rw [Value.kind, hh, Header.kind, CodeHeader.isFrame, CodeHeader.isGroup, hdesc]
    rfl
  have hconsumed : v.consumed = h.codeLength := by
    rw [Value.consumed, hh]
    simp only [CodeHeader.isFrame, CodeHeader.isGroup, hdesc]
    rfl
  refine ⟨count, members, ⟨hdigits, hcount, hmembers, ?_, by rw [hstart]; exact hreach⟩, hrow, ?_⟩
  · refine hrow.of_take ?_
    rw [hstart, hreach]
    simp only [Bytes.slice, List.take_drop, List.take_take]
    rw [Nat.min_self, Nat.min_eq_left (by omega)]
  · obtain hk | hk | ⟨hh', -, hnamed⟩ := hf.opens
    · rw [Value.kind_shift, hkind] at hk
      rcases hk with hk | hk <;> cases hk
    · rw [Value.kind_shift, hkind] at hk
      cases hk
    · rw [Value.header_shift, hh] at hh'
      cases hh'
      rw [groupContext, CodeHeader.hasContext, hdesc] at hnamed
      cases hnamed
      show (st.taken v.consumed).pushGroup _ = _
      rw [hconsumed, hcount]
      rfl

theorem Expects.of_pushGroup {count n : Nat} {selector : Bytes} (hview : st.inherited.getD .keriV1 = inView view) :
    Expects ((st.taken n).pushGroup ⟨selector, count, st.inherited⟩).frame view false count := by
  rw [State.pushGroup_eq, State.frame_withGroups, State.frame_taken]
  by_cases hzero : count = 0
  · rw [hzero]
    exact .nothing
  · refine .members (if_neg hzero) (Nat.le_refl _) ?_ rfl
    show (st.inherited.or st.frame.context).getD .keriV1 = inView view
    rw [st.inherited_or_context, hview]

/-- A call that yields a value has found it. -/
theorem finds_of_next {t : Session} (hsound : s.Sound) (hnext : s.next Hooks.passthrough = (some (.ok v), t)) :
    s.done = false ∧ ∃ st u transition, Finds s st u transition ∧ v = u.shift st.cursor ∧
      t = s.behind st u transition := by
  have hdone : s.done = false := by
    cases hdone : s.done with
    | false => rfl
    | true =>
      rw [next_of_done _ hdone] at hnext
      cases hnext
  rw [next_eq_step _ hdone] at hnext
  cases hstep : s.step with
  | finished last =>
    rw [hstep] at hnext
    cases hnext
  | failed e last =>
    rw [hstep] at hnext
    cases hnext
  | found o next =>
    rw [hstep] at hnext
    obtain ⟨st, u, transition, hf, rfl, rfl⟩ := hsound.inBounds.step_eq_found.1 hstep
    simp only [Hooks.call_passthrough] at hnext
    cases hnext
    exact ⟨hdone, st, u, transition, hf, rfl, rfl⟩

/-- The calls behind a counter of triples read its row. -/
theorem Finds.pull_members (hf : Finds s st v transition) (hsound : s.Sound) (hregistry : s.registry = .keriV1)
    (hdone : s.done = false) (hview : s.inForce st = inView view) (hh : v.header = .code h)
    (hname : h.descriptor.name = some Value.sealTriplesName) :
    ∃ count members read ending last, CountsRow view s.input (v.shift st.cursor) h count members ∧
      (s.behind st v transition).pull Hooks.passthrough (3 * count) = (read, ending, last) ∧
      LaidOut s.input ((v.shift st.cursor).start + h.codeLength) read last.state.cursor ∧
      ReadsRow view members ((v.shift st.cursor).start + h.codeLength) read ending last := by
  obtain ⟨count, members, hcounts, hrow, hstate⟩ := hf.counts_row hsound hview hh hname
  have hstart : (v.shift st.cursor).start = st.cursor := (hf.framed hsound).2.1.start_shift _
  have hinherited : st.inherited.getD .keriV1 = inView view := by
    rw [inForce, hregistry] at hview
    exact hview
  have hexpects : Expects (s.behind st v transition).state.frame view false members.length := by
    rw [hstate, hcounts.length_eq]
    exact Expects.of_pushGroup hinherited
  have hcursor : (s.behind st v transition).state.cursor = (v.shift st.cursor).start + h.codeLength := by
    rw [hstate, State.pushGroup_eq, State.cursor_withGroups, hstart]
    rfl
  have hrow' : Row (inView view) members
      (s.input.slice (s.behind st v transition).state.cursor (s.behind st v transition).state.frame.stop) := by
    rw [hcursor, hstart, hstate, State.pushGroup_eq, State.frame_withGroups, State.frame_taken]
    exact hrow
  -- the session behind the counter, written out
  have hbehind : s.behind st v transition =
      ⟨s.input, .keriV1, (s.behind st v transition).state, v.header.asVersion?.or s.version, false⟩ := by
    rw [← hregistry, ← hdone]
    rfl
  obtain ⟨read, ending, last, hpull, hreads⟩ :=
    pull_row s.input members (v.header.asVersion?.or s.version) hexpects hrow'
  rw [← hbehind, hcounts.length_eq] at hpull
  obtain ⟨hlaid, -⟩ := laidOut_of_pull (hf.sound hsound).1 hdone hpull
  rw [hcursor] at hlaid hreads
  exact ⟨count, members, read, ending, last, hcounts, hpull, hlaid, hreads⟩

/-- **A counter of triples and the group that it opens.**  Whenever a call yields one, its number is three times that of
its digits, and as many primitives tile the bytes from behind its code to its end.  As many calls as it counts yield
leaves that tile these bytes, each as long as the primitive in its place, unless the counter stands in the view of the
indexer table: then the first primitive whose index has a digit that is not of the alphabet ends the session. -/
theorem next_triples (input : Bytes) (n : Nat) {t : Session}
    (hnext : ((start input .keriV1).after Hooks.passthrough n).next Hooks.passthrough = (some (.ok v), t))
    (hh : v.header = .code h) (hname : h.descriptor.name = some Value.sealTriplesName) :
    ∃ view count members read ending last,
      (∃ st, ((start input .keriV1).after Hooks.passthrough n).state.settle = (.ok true, st) ∧
        ((start input .keriV1).after Hooks.passthrough n).inForce st = inView view) ∧
      CountsRow view input v h count members ∧
      t.pull Hooks.passthrough (3 * count) = (read, ending, last) ∧
      LaidOut input (v.start + h.codeLength) read last.state.cursor ∧
      ReadsRow view members (v.start + h.codeLength) read ending last ∧
      (view = .matter → ending = .unfinished ∧ read.length = 3 * count ∧ last.state.cursor = v.stop) := by
  have hstart := sound_start Registry.loaded_keriV1 input
  have hinput : ((start input .keriV1).after Hooks.passthrough n).input = input := input_after _ hstart n
  have hsound := sound_after Hooks.passthrough hstart n
  obtain ⟨hdone, st, u, transition, hf, rfl, rfl⟩ := finds_of_next hsound hnext
  obtain ⟨view, hview⟩ := exists_view Hooks.passthrough input n hf.settled
  obtain ⟨count, members, read, ending, last, hcounts, hpull, hlaid, hreads⟩ :=
    hf.pull_members hsound (registry_after _ hstart n) hdone hview hh hname
  rw [hinput] at hcounts hlaid
  refine ⟨view, count, members, read, ending, last, ⟨st, hf.settled, hview⟩, hcounts, hpull, hlaid, hreads,
    fun hmatter => ?_⟩
  rcases hreads.ends with ⟨hending, hall⟩ | ⟨hindexer, -⟩
  · refine ⟨hending, hall.trans hcounts.length_eq, ?_⟩
    rw [hreads.cursor, hall, List.take_length, hcounts.stop_eq]
  · rw [hmatter] at hindexer
    cases hindexer

/-! ## In both views -/

/-- What a call yields of a counter: its name and number, the length of its code, and its span. -/
def counterFound (s : Session) : Option (Option (Option String × Option Nat × Nat) × Nat × Nat) :=
  ((s.next Hooks.passthrough).1.bind Except.toOption).map fun v =>
    (v.header.asCode?.map (fun h => (h.descriptor.name, h.count, h.codeLength)), v.start, v.stop)

theorem next_of_counterFound {name : Option String} {count : Option Nat} {length start stop : Nat}
    (hfound : counterFound s = some (some (name, count, length), start, stop)) :
    ∃ v h t, s.next Hooks.passthrough = (some (.ok v), t) ∧ v.header = .code h ∧ h.descriptor.name = name ∧
      h.count = count ∧ h.codeLength = length ∧ v.start = start ∧ v.stop = stop := by
  obtain ⟨v, hv, hfacts⟩ := Option.map_eq_some_iff.1 hfound
  obtain ⟨result, hresult, hok⟩ := Option.bind_eq_some_iff.1 hv
  obtain ⟨hcode, hstart, hstop⟩ := by simpa only [Prod.mk.injEq] using hfacts
  obtain ⟨h, hh, hcounter⟩ := Option.map_eq_some_iff.1 hcode
  obtain ⟨hname, hcount, hlength⟩ := by simpa only [Prod.mk.injEq] using hcounter
  exact ⟨v, h, (s.next Hooks.passthrough).2, Prod.ext (hresult.trans (congrArg some (eq_ok_of_toOption hok))) rfl,
    Header.asCode?_eq_some.1 hh, hname, hcount, hlength, hstart, hstop⟩

/-- A triple of numbers. -/
def sealedNumbers : Bytes := Bytes.ofString "-IABMAAAMAABMAAC"

theorem next_triples_numbers :
    ∃ v h t read last, (start sealedNumbers .keriV1).next Hooks.passthrough = (some (.ok v), t) ∧ v.header = .code h ∧
      h.descriptor.name = some Value.sealTriplesName ∧ h.count = some 3 ∧
      t.pull Hooks.passthrough 3 = (read, .unfinished, last) ∧ LaidOut sealedNumbers 4 read 16 := by
  have hfound : counterFound (start sealedNumbers .keriV1) =
      some (some (some Value.sealTriplesName, some 3, 4), 0, 16) := by decide +kernel
  obtain ⟨v, h, t, hnext, hh, hname, hcount, hlength, hstart, hstop⟩ := next_of_counterFound hfound
  obtain ⟨view, count, members, read, ending, last, ⟨st, hsettle, hview⟩, hcounts, hpull, hlaid, hreads, hmatter⟩ :=
    next_triples sealedNumbers 0 hnext hh hname
  have hthree : 3 * count = 3 := Option.some.inj (hcounts.count_eq.symm.trans hcount)
  have hfirst : (start sealedNumbers .keriV1).state.settle = (.ok true, (start sealedNumbers .keriV1).state) :=
    State.settle_of_lt (by decide)
  obtain rfl : (start sealedNumbers .keriV1).state = st := (Prod.mk.inj (hfirst.symm.trans hsettle)).2
  obtain ⟨rfl, -, hend⟩ := hmatter (congrArg Registry.view hview).symm
  rw [hthree] at hpull
  rw [hstart, hlength, hend, hstop] at hlaid
  exact ⟨v, h, t, read, last, hnext, hh, hname, hcount, hpull, hlaid⟩

/-- A group of indexed signatures in which triples are announced, of three signatures without a number for an index. -/
def sealedSignatures : Bytes :=
  Bytes.ofString "-AAB-IAB" ++ (List.replicate 3 (Bytes.ofString "A!" ++ List.replicate 86 'A'.toUInt8)).flatten

set_option maxRecDepth 2000 in
/-- **The counter lets them pass, and its first member does not.** -/
theorem not_next_triples_index :
    ∃ v h t last, ((start sealedSignatures .keriV1).after Hooks.passthrough 1).next Hooks.passthrough =
        (some (.ok v), t) ∧ v.header = .code h ∧ h.descriptor.name = some Value.sealTriplesName ∧ h.count = some 3 ∧
      t.pull Hooks.passthrough 3 = ([], .failed (.text (.invalidCharacter '!'.toUInt8 0)), last) := by
  obtain ⟨hfound, hread, hending⟩ :
      counterFound ((start sealedSignatures .keriV1).after Hooks.passthrough 1) =
          some (some (some Value.sealTriplesName, some 3, 4), 4, 272) ∧
        (((start sealedSignatures .keriV1).after Hooks.passthrough 2).pull Hooks.passthrough 3).1.length = 0 ∧
        (((start sealedSignatures .keriV1).after Hooks.passthrough 2).pull Hooks.passthrough 3).2.1 =
          .failed (.text (.invalidCharacter '!'.toUInt8 0)) := by decide +kernel
  obtain ⟨v, h, t, hnext, hh, hname, hcount, -⟩ := next_of_counterFound hfound
  have ht : t = (start sealedSignatures .keriV1).after Hooks.passthrough 2 := by
    rw [after_succ, hnext]
  refine ⟨v, h, t, (t.pull Hooks.passthrough 3).2.2, hnext, hh, hname, hcount, ?_⟩
  rw [ht]
  exact Prod.ext (List.length_eq_zero_iff.1 hread) (Prod.ext hending rfl)

end Session
end Quadlet
