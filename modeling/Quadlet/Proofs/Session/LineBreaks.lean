import Mathlib.Data.List.DropRight
import Quadlet.Input
import Quadlet.Proofs.Session.Contexts
import Quadlet.Proofs.Session.Spans
import Quadlet.Proofs.Session.Truncation
import Quadlet.Proofs.Sizing
/-!
# Line breaks — what the reader of raw input takes from a stream

Raw input is read without the line breaks at its end, all of them.  Nearly every stream ends in a character of the
alphabet, and then those are just what stands behind it.  But a serialization may end in a line break of its own, and so
may what a counter has attached, and the digits of a tag (`Value.Breakable`).  Such a stream is cut through its last
value: no value starts with a line break (`Value.head_of_read`), so the cut is never between two of them, and what is
left ends short of bytes (`decode_take_lineBreak`).
-/
namespace Quadlet

open Base64 (Alphabet)

/-! ## Dropping line breaks -/

def EndsInLineBreak (b : Bytes) : Prop := ∃ c, b.getLast? = some c ∧ Input.isLineBreak c = true

theorem isLineBreak_of_mem_url : ∀ c ∈ Alphabet.url.chars, Input.isLineBreak c = false := by decide +kernel

namespace Input

theorem dropLineBreaks_append (b : Bytes) {n : Bytes} (hn : ∀ c ∈ n, isLineBreak c = true) :
    dropLineBreaks (b ++ n) = dropLineBreaks b := by
  rw [dropLineBreaks, List.reverse_append,
    List.dropWhile_append_of_pos (fun c hc => hn c (List.mem_reverse.1 hc)), dropLineBreaks]

theorem dropLineBreaks_eq_self {b : Bytes} : dropLineBreaks b = b ↔ ¬EndsInLineBreak b := by
  show b.rdropWhile isLineBreak = b ↔ _
  rw [List.rdropWhile_eq_self_iff]
  constructor
  · rintro h ⟨c, hc, hbreak⟩
    have hne : b ≠ [] := List.ne_nil_of_mem (List.mem_of_getLast? hc)
    rw [List.getLast?_eq_some_getLast hne] at hc
    exact h hne (Option.some.inj hc ▸ hbreak)
  · exact fun h hne hbreak => h ⟨_, List.getLast?_eq_some_getLast hne, hbreak⟩

/-- What is kept is the front of the input, and a line break stands behind it if it is not all of it. -/
theorem dropLineBreaks_eq_take (b : Bytes) :
    dropLineBreaks b = b.take (dropLineBreaks b).length ∧
      ∀ c, b[(dropLineBreaks b).length]? = some c → isLineBreak c = true := by
  have hsplit : dropLineBreaks b ++ b.rtakeWhile isLineBreak = b := List.rdropWhile_append_rtakeWhile
  refine ⟨List.prefix_iff_eq_take.1 ⟨_, hsplit⟩, fun c hc => ?_⟩
  have hdropped := congrArg (List.drop (dropLineBreaks b).length) hsplit
  rw [List.drop_left] at hdropped
  rw [← List.head?_drop, ← hdropped] at hc
  exact List.mem_rtakeWhile_imp (List.mem_of_head? hc)

end Input

/-! ## Where values start and end -/

namespace Value

variable {view : View} {input : Bytes} {u : Value}

/-- **No value starts with a line break**: a code starts with a character of the alphabet, a serialization with a
brace. -/
theorem head_of_read (hread : coded (inView view) input = .ok u ∨ serialization input = .ok u) :
    ∃ c, input.head? = some c ∧ Input.isLineBreak c = false := by
  have hr := loaded_inView view
  rcases hread with hcoded | hserialization
  · unfold coded at hcoded
    split at hcoded
    · next hstart => exact ⟨_, hstart, by decide⟩
    · obtain ⟨p, h, soft, hp, hc, htext, -, -⟩ := canonical_of_primitive hr hcoded
      obtain ⟨-, -, first, hfirst, -⟩ := hc.facts hr
      have hpos := Nat.ne_of_gt (Primitive.totalLength_pos hr hp (Primitive.fitsAt_inView hp))
      have hhead := congrArg List.head? htext
      rw [List.head?_take, if_neg hpos, Descriptor.text, List.append_assoc, List.head?_append, hfirst] at hhead
      exact ⟨first, hhead, isLineBreak_of_mem_url _
        (isUrlText_selector view h.descriptor hc.mem first (List.mem_of_mem_head? hfirst))⟩
  · obtain ⟨h, hh, -, -⟩ := serialization_eq_ok.1 hserialization
    exact ⟨_, VersionHeader.head?_of_read hh, by decide⟩

/-- What may end in a character that is not of the alphabet: a serialization, or a leaf that is attached behind a
counter, a version, or nothing but the code of a tag. -/
def Breakable (v : Value) : Prop :=
  v.kind = .serialization ∨ v.kind = .leaf ∧ ∃ h, v.header = .code h ∧
    (h.descriptor.kind = .counter ∨ h.descriptor.kind = .version ∨
      h.descriptor.kind = .fixedSize ∧ h.descriptor.fs = some h.codeLength)

theorem Breakable.shift (h : u.Breakable) (n : Nat) : (u.shift n).Breakable := h

/-- A value that takes all that is left of the input has no longer span, and its last byte is that of the input. -/
theorem ReadFrom.whole {v : Value} {q : Registry} {stop : Nat} (hread : v.ReadFrom u q input stop)
    (htaken : v.start + v.consumed = input.length) (hstop : v.stop ≤ input.length) :
    u.consumed = u.length ∧ v.stop = input.length ∧
      ((input.slice v.start stop).take u.length).getLast? = input.getLast? := by
  have hsame : v.length = u.length ∧ v.consumed = u.consumed := by
    rw [hread.eq_shift]
    exact ⟨rfl, rfl⟩
  have hpos := hread.framed.consumed_pos
  have hle := hread.framed.consumed_le
  have hinside := hread.stop_le
  have hlength := hread.framed.length_le
  rw [Bytes.length_slice _ _ _ hinside] at hlength
  rw [Value.stop] at hstop ⊢
  refine ⟨by omega, by omega, ?_⟩
  rw [Bytes.slice, show stop = input.length by omega, List.take_length,
    List.take_of_length_le (by rw [List.length_drop]; omega), List.getLast?_drop, if_neg (by omega)]

theorem isUrlText_counter_selector :
    ∀ d ∈ KeriV1.tables.counter.codes.values, IsUrlText d.selector := by decide +kernel

/-- The code of a counter is of the alphabet: its digits are a number. -/
theorem CounterSteps.isUrlText_code {h : CodeHeader} (hc : CounterSteps (inView view) input u h)
    (hstart : input.head? = some counterStart) (hk : h.descriptor.kind = .counter) :
    IsUrlText (input.take h.codeLength) := by
  have hselector := (loaded_inView view).sound.counter.selector_eq (hc.find?_codes hstart)
  have hle : h.descriptor.hs ≤ h.descriptor.cs := hc.fits.hs_le_cs
  have hcode : input.take h.codeLength = h.descriptor.selector ++ h.digits := by
    rw [hselector, hc.digits_eq, Bytes.take_append_slice input hle]
    rfl
  obtain ⟨n, hn, -⟩ := (CodeHeader.ofDigits_counter hk).1 (CodeHeader.read_eq_ok.1 hc.read).2.2.2
  rw [← CodeHeader.digits_of_ofDigits (CodeHeader.read_eq_ok.1 hc.read).2.2.2] at hn
  rw [hcode]
  exact isUrlText_append (isUrlText_counter_selector _ (hc.mem_codes hstart)) (isUrlText_of_readDigits hn)

/-- **Where a value with a code ends in another character**, and nothing is read inside it, it is one of these. -/
theorem breakable_of_coded (hv : coded (inView view) input = .ok u) (hwhole : u.consumed = u.length) {c : UInt8}
    (hc : (input.take u.length).getLast? = some c) (hnot : c ∉ Alphabet.url.chars) : u.Breakable := by
  have hr := loaded_inView view
  have hother : ¬IsUrlText (input.take u.length) := fun htext => hnot (htext c (List.mem_of_getLast? hc))
  unfold coded at hv
  split at hv
  · next hstart =>
    obtain ⟨h, hsteps⟩ := exists_counterSteps hr hstart hv
    have hheader : u.header = .code h := by rw [hsteps.value_eq]
    have hopens : (h.isFrame || h.isGroup) = false := by
      rw [← Bool.not_eq_true]
      intro hopens
      rw [consumed, hheader] at hwhole
      simp only [hopens, if_true] at hwhole
      rw [← hwhole] at hother
      exact hother (hsteps.isUrlText_code hstart (CodeHeader.kind_of_opens hopens))
    obtain ⟨hframe, hgroup⟩ := Bool.or_eq_false_iff.1 hopens
    refine .inr ⟨by simp [kind, hheader, Header.kind, hframe, hgroup], h, hheader, ?_⟩
    exact hsteps.isCounter.2.1.imp_right .inl
  · obtain ⟨p, h, soft, -, hcanonical, htext, hh, rfl⟩ := canonical_of_primitive hr hv
    have hprimitive := hcanonical.isPrimitive hr
    have hselector := isUrlText_selector view h.descriptor hcanonical.mem
    refine .inr ⟨Header.kind_of_isPrimitive hprimitive, h, rfl, .inr (.inr ?_)⟩
    rw [htext] at hc hother
    by_cases hk : h.descriptor.kind = .fixedSize
    · -- the digits of a tag are anything, but what is behind them is not
      rcases hcanonical.extent with hfs | ⟨hnone, -⟩
      · refine ⟨hk, hfs.trans (congrArg some ?_)⟩
        cases hbody : (bodyText h.descriptor.cs h.descriptor.ls p.raw).getLast? with
        | some last =>
          rw [Descriptor.text, List.getLast?_append, hbody, Option.some_or] at hc
          exact absurd (isUrlText_bodyText _ _ _ c (List.mem_of_getLast? (hbody.trans hc))) hnot
        | none =>
          have hlength := hcanonical.length_text
          rw [Descriptor.text, List.getLast?_eq_none_iff.1 hbody, List.append_nil, ← hcanonical.code_eq,
            hcanonical.length_code hr] at hlength
          exact hlength.symm
      · rcases hprimitive with ⟨hvariable, -⟩ | ⟨-, hsome⟩
        · rw [hk] at hvariable
          cases hvariable
        · rw [hnone] at hsome
          cases hsome
    · -- digits that are a number are of the alphabet, as all the rest is
      have hsoft := CodeHeader.isUrlText_of_ofDigits (hprimitive.kind_of_ne hk) hh
      exact absurd (isUrlText_append (isUrlText_append hselector hsoft) (isUrlText_bodyText _ _ _)) hother

end Value

namespace Session

variable {s last : Session} {found : List (Observation × State)} {ending : Ending}

/-! ## The cut -/

/-- Each value of a run starts where the cursor stands after those before it. -/
theorem Run.start_eq_cursor (hrun : Run s found ending last) (h : s.Sound) (hdone : s.done = false) :
    ∀ {n : Nat} {v : Value}, (values found)[n]? = some v → v.start = (s.after Hooks.passthrough n).state.cursor := by
  induction hrun with
  | finished => exact fun hv => (by cases hv)
  | failed => exact fun hv => (by cases hv)
  | found hstep _ ih =>
    obtain ⟨st, u, transition, hf, rfl, rfl⟩ := h.inBounds.step_eq_found.1 hstep
    intro n v hv
    cases n with
    | zero =>
      cases hv
      obtain ⟨-, hframed, -, -⟩ := hf.framed h
      exact (hframed.start_shift _).trans (h.settled hf.settled).2.2
    | succ n =>
      rw [after, next_eq_step _ hdone, hstep]
      exact ih (hf.sound h).1 hdone hv

/-- What stands at the start of a value is no line break. -/
theorem exists_start {b : Bytes} {v : Value} (hv : v ∈ (decode .keriV1 b).1) :
    ∃ c, b[v.start]? = some c ∧ Input.isLineBreak c = false := by
  obtain ⟨u, view, stop, hread⟩ := readFrom_of_decode b v hv
  obtain ⟨c, hc, hbreak⟩ := Value.head_of_read hread.read
  refine ⟨c, ?_, hbreak⟩
  rw [Bytes.slice, List.head?_drop, List.getElem?_take] at hc
  split at hc
  · exact hc
  · cases hc

/-- **A stream that is cut in front of a line break ends short**: the values in front of the cut are kept, and the next
one lacks bytes. -/
theorem decode_take_lineBreak {b : Bytes} (hb : (decode .keriV1 b).2 = .finished) {k : Nat} {c : UInt8}
    (hc : b[k]? = some c) (hbreak : Input.isLineBreak c = true) :
    ∃ available need, 1 ≤ need ∧ decode .keriV1 (b.take k) =
      ((decode .keriV1 b).1.takeWhile (fun v => v.stop ≤ k), .failed (.shortage available need)) := by
  have hr := Registry.loaded_keriV1
  have hlt : k < b.length := (List.getElem?_eq_some_iff.1 hc).1
  obtain ⟨found, ending, last, hrun, hdecode⟩ := exists_run_start hr b
  rw [hdecode] at hb
  obtain rfl : ending = .finished := hb
  obtain ⟨found', ending', last', hrun', hvalues, hends⟩ := hrun.cut rfl (sound_start hr b)
    ⟨.self, State.within_start _⟩ (triplesFit_keriV1 _) rfl (fun n hn => (by cases hn)) (Nat.zero_le k)
    (Nat.le_of_lt hlt)
  rw [cut_start b .keriV1 (Nat.le_of_lt hlt)] at hrun'
  -- all values together reach beyond the cut, so one is left
  have hleft : found'.length < (values found).length := by
    refine Nat.lt_of_not_le (fun hall => ?_)
    have hsame : values found' = values found := by
      rw [hvalues]
      refine (List.takeWhile_prefix _).eq_of_length_le ?_
      rw [← hvalues, values, values, List.length_map, List.length_map]
      rwa [values, List.length_map] at hall
    have hcursor := (hrun'.laidOut hr).1.cursor_le
    rw [hrun'.cursor_eq hr, hsame, ← hrun.cursor_eq hr, ((hrun.laidOut hr).2 rfl).cursor_eq,
      List.length_take] at hcursor
    omega
  have hv := List.getElem?_eq_getElem hleft
  -- and it does not start at the cut, where a line break stands
  obtain ⟨u, need, hu, hstart, hpos, -, hending⟩ := hends.short (fun hcut => by
    obtain ⟨d, hd, hnot⟩ := exists_start (by rw [hdecode]; exact List.mem_of_getElem? hv)
    rw [hrun.start_eq_cursor (sound_start hr b) rfl hv, ← hcut, hc] at hd
    cases hd
    rw [hbreak] at hnot
    cases hnot)
  exact ⟨k - u.start, need, hpos, by rw [decode_of_run hr hrun', hvalues, hending, hdecode]⟩

/-- The last value of a stream that ends in a line break is one of those that may. -/
theorem exists_breakable {b : Bytes} (hb : (decode .keriV1 b).2 = .finished) (hends : EndsInLineBreak b) :
    ∃ v, (decode .keriV1 b).1.getLast? = some v ∧ v.stop = b.length ∧ v.Breakable := by
  have hr := Registry.loaded_keriV1
  obtain ⟨c, hc, hbreak⟩ := hends
  obtain ⟨found, ending, last, hrun, hdecode⟩ := exists_run_start hr b
  have hread := readFrom_of_decode b
  rw [hdecode] at hb hread ⊢
  obtain rfl : ending = .finished := hb
  have hcursor := ((hrun.laidOut hr).2 rfl).1
  cases hlast : (values found).getLast? with
  | none =>
    have hpos : 0 < b.length := List.length_pos_of_mem (List.mem_of_getLast? hc)
    rw [hrun.cursor_eq hr, List.getLast?_eq_none_iff.1 hlast] at hcursor
    exact absurd hcursor (Nat.ne_of_lt hpos)
  | some v =>
    obtain ⟨htaken, hstop⟩ := hrun.last_value hr hlast
    obtain ⟨u, view, stop, hread⟩ := hread v (List.mem_of_getLast? hlast)
    obtain ⟨hwhole, hstop', hlast'⟩ := hread.whole (htaken.trans hcursor) hstop
    refine ⟨v, rfl, hstop', ?_⟩
    rw [hread.eq_shift]
    rcases hread.read with hcoded | hserialization
    · have hurl : c ∉ Alphabet.url.chars := fun hmem => by
        rw [isLineBreak_of_mem_url c hmem] at hbreak
        cases hbreak
      exact (Value.breakable_of_coded hcoded hwhole (hlast'.trans hc) hurl).shift _
    · obtain ⟨_, -, -, rfl⟩ := Value.serialization_eq_ok.1 hserialization
      exact .inl rfl

/-- A stream that ends in a line break is cut short by the reader. -/
theorem decode_dropLineBreaks {b : Bytes} (hb : (decode .keriV1 b).2 = .finished) (hends : EndsInLineBreak b) :
    ∃ available need, 1 ≤ need ∧ decode .keriV1 (Input.dropLineBreaks b) =
      ((decode .keriV1 b).1.takeWhile (fun v => v.stop ≤ (Input.dropLineBreaks b).length),
        .failed (.shortage available need)) := by
  obtain ⟨hkept, hdropped⟩ := Input.dropLineBreaks_eq_take b
  have hlt : (Input.dropLineBreaks b).length < b.length := by
    refine Nat.lt_of_not_le (fun hall => Input.dropLineBreaks_eq_self.not.2 (not_not.2 hends) ?_)
    rw [hkept, List.take_of_length_le hall]
  have hshort := decode_take_lineBreak hb (List.getElem?_eq_getElem hlt) (hdropped _ (List.getElem?_eq_getElem hlt))
  rwa [← hkept] at hshort

/-- **Reading raw input damages a stream exactly if it ends in a line break itself.** -/
theorem decode_read {b n : Bytes} (hb : (decode .keriV1 b).2 = .finished)
    (hn : ∀ c ∈ n, Input.isLineBreak c = true) :
    ∃ kept, Input.read (b ++ n) false = .ok (.bytes kept) ∧
      (decode .keriV1 kept = decode .keriV1 b ↔ ¬EndsInLineBreak b) ∧
      (EndsInLineBreak b →
        (∃ available need, 1 ≤ need ∧ decode .keriV1 kept =
          ((decode .keriV1 b).1.takeWhile (fun v => v.stop ≤ kept.length), .failed (.shortage available need))) ∧
        ∃ v, (decode .keriV1 b).1.getLast? = some v ∧ v.stop = b.length ∧ v.Breakable) := by
  refine ⟨Input.dropLineBreaks b, by rw [Input.read, if_neg Bool.false_ne_true, Input.dropLineBreaks_append b hn],
    ⟨fun hsame hends => ?_, fun hends => by rw [Input.dropLineBreaks_eq_self.2 hends]⟩,
    fun hends => ⟨decode_dropLineBreaks hb hends, exists_breakable hb hends⟩⟩
  obtain ⟨_, _, -, hfailed⟩ := decode_dropLineBreaks hb hends
  rw [← hsame, hfailed] at hb
  cases hb

/-- A frame of one number, with the end of a line behind it. -/
theorem decode_read_frame :
    ∃ kept, Input.read (Bytes.ofString "-LABMAAA" ++ Bytes.ofString "\r\n") false = .ok (.bytes kept) ∧
      decode .keriV1 kept = decode .keriV1 (Bytes.ofString "-LABMAAA") := by
  have hb : (decode .keriV1 (Bytes.ofString "-LABMAAA")).2 = .finished := by decide +kernel
  obtain ⟨kept, hkept, hsame, -⟩ := decode_read hb (n := Bytes.ofString "\r\n") (by decide +kernel)
  refine ⟨kept, hkept, hsame.2 ?_⟩
  rintro ⟨c, hc, hbreak⟩
  cases hc
  cases hbreak

/-- A serialization of two lines, the line break of the second among its bytes. -/
def twoLines : Bytes := Bytes.ofString "\x7b\"v\":\"KERI10JSON00001b_\"\n\x7d\n"

/-- **A serialization that ends in a line break** is a stream, and is not one any more when it is read without it. -/
theorem not_decode_read_twoLines :
    (decode .keriV1 twoLines).2 = .finished ∧ (decode .keriV1 twoLines).1.map Value.length = [27] ∧
      ∃ kept, Input.read (twoLines ++ []) false = .ok (.bytes kept) ∧
        decode .keriV1 kept = ([], .failed (.shortage 26 1)) := by
  have hread : (Input.read (twoLines ++ []) false).toOption = some (.bytes (Input.dropLineBreaks twoLines)) := rfl
  have hdecode : (decode .keriV1 twoLines).2 = .finished ∧ (decode .keriV1 twoLines).1.map Value.length = [27] ∧
      (decode .keriV1 (Input.dropLineBreaks twoLines)).1.length = 0 ∧
      (decode .keriV1 (Input.dropLineBreaks twoLines)).2 = .failed (.shortage 26 1) := by decide +kernel
  obtain ⟨hfinished, hlength, hnone, hfailed⟩ := hdecode
  exact ⟨hfinished, hlength, _, eq_ok_of_toOption hread, Prod.ext (List.length_eq_zero_iff.1 hnone) hfailed⟩

end Session
end Quadlet
