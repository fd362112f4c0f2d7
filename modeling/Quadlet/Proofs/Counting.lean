import Quadlet.Proofs.Sizing
/-!
# Counting — a counter is read the same way twice

A counter's code is read into a header, as the code of any value is, and where the contents are counted it is read once
more by itself, with its number unmultiplied.  The two readers check the code in different orders: what both accept is
the same code (`Counter.Matches`).  The header is read wherever the counter is, so the value fails only behind the code,
for a reason of its extent (`Counter.Outcome`).
-/
namespace Quadlet

variable {r : Registry} {input : Bytes} {d : Descriptor} {h : CodeHeader} {c : Counter}

/-- What a counter counts with a number: as many, or as many as its multiplier makes of it. -/
def Descriptor.counted? (d : Descriptor) (n : Nat) : Option Nat :=
  match d.multiplier with
  | none => some n
  | some spelling => (Multiplier.ofString? spelling).map (fun m => m.apply n)

theorem Descriptor.exists_counted (hknown : ∀ spelling ∈ d.multiplier, (Multiplier.ofString? spelling).isSome)
    (n : Nat) : ∃ count, d.counted? n = some count := by
  unfold counted?
  cases hm : d.multiplier with
  | none => exact ⟨n, rfl⟩
  | some spelling =>
    obtain ⟨m, hm⟩ := Option.isSome_iff_exists.1 (hknown spelling hm)
    exact ⟨m.apply n, by dsimp only; rw [hm]; rfl⟩

/-- The header of a counter, with the count that its number makes. -/
theorem CodeHeader.ofDigits_counted (hk : d.kind = .counter) {digits : Bytes} :
    ofDigits d digits = .ok h ↔
      ∃ n count, readDigits digits = .ok n ∧ d.counted? n = some count ∧
        h = { descriptor := d, digits, quadlets := if d.multiplier.isSome then none else some n,
              count := some count } := by
  rw [ofDigits_counter hk]
  unfold Descriptor.counted?
  cases d.multiplier with
  | none => simp
  | some spelling => cases Multiplier.ofString? spelling <;> simp

namespace Counter

/-- **What a counter and a header have in common** that are read from the same code. -/
structure Matches (c : Counter) (h : CodeHeader) : Prop where
  descriptor_eq : c.descriptor = h.descriptor
  selector_eq : c.selector = h.descriptor.selector
  codeLength_eq : c.codeLength = h.codeLength
  code_eq : c.code = c.selector ++ h.digits
  quadlets_eq : h.quadlets = if h.descriptor.multiplier.isSome then none else some c.count
  count_eq : h.count = h.descriptor.counted? c.count
  read_eq : CodeHeader.read c.descriptor c.code = .ok h

/-- How far a counter reaches, its code among it. -/
inductive Extent (r : Registry) (input : Bytes) (c : Counter) : Nat → Prop
  | quadlets : c.descriptor.name ≠ some Value.sealTriplesName → c.descriptor.multiplier = none →
      Extent r input c (c.codeLength + 4 * c.count)
  | fixed {fs : Nat} : c.descriptor.name ≠ some Value.sealTriplesName → c.descriptor.multiplier.isSome = true →
      c.descriptor.fs = some fs → Extent r input c fs
  | triples {t : SealTriples} : c.descriptor.name = some Value.sealTriplesName → SealTriples.extract r input = .ok t →
      t.counter = c → Extent r input c t.length

/-- **What becomes of a counter whose header is `h`**: a value, or a failure that has to do with its extent. -/
inductive Outcome (r : Registry) (input : Bytes) (c : Counter) (h : CodeHeader) : Except DecodeError Value → Prop
  | whole {n : Nat} : Extent r input c n → n ≤ input.length → Outcome r input c h (.ok ⟨.code h, 0, n⟩)
  | short {n : Nat} : Extent r input c n → input.length < n →
      Outcome r input c h (.error (.shortageOf input.length n))
  | unsized : c.descriptor.name ≠ some Value.sealTriplesName → c.descriptor.multiplier.isSome = true →
      c.descriptor.fs = none → Outcome r input c h (.error (.unknownCode .fixedSize c.selector))
  /-- What a triple lacks is asked for behind the whole input. -/
  | shortContents {available need : Nat} : c.descriptor.name = some Value.sealTriplesName →
      SealTriples.extract r input = .error (.shortage available need) →
        Outcome r input c h (.error (.shortage input.length need))
  | contents {e : DecodeError} : c.descriptor.name = some Value.sealTriplesName →
      SealTriples.extract r input = .error e → (∀ available need, e ≠ .shortage available need) →
        Outcome r input c h (.error e)

variable {v : Value}

/-- What the reader of counters has found out about a code. -/
structure Steps (r : Registry) (input : Bytes) (c : Counter) : Prop where
  start : input.head? = some counterStart
  size : r.selectorSize input = .ok c.descriptor.hs
  selector : codeText input c.descriptor.hs = .ok c.selector
  lookup : r.lookup c.selector = .ok c.descriptor
  sound : c.descriptor.Sound 2
  fits : c.descriptor.Fits
  selector_eq : c.selector = c.descriptor.selector
  code : codeText input c.descriptor.cs = .ok c.code
  count : readDigits (c.code.slice c.descriptor.hs c.descriptor.cs) = .ok c.count

theorem steps_of_extract (hr : r.Loaded) (hc : extract r input = .ok c) : Steps r input c := by
  obtain ⟨hs, hstart, hsize, hselector, hd, hcode, hle, hcount⟩ := extract_eq_ok_iff_steps.1 hc
  obtain ⟨hslen, -, hsel⟩ := codeText_eq_ok.1 hselector
  obtain ⟨rfl, hsound, -⟩ := counter_descriptor hr hstart hslen (hsel ▸ hd)
  have hpos := hsound.lead_le
  have hhead : c.selector.head? = some counterStart := by
    rw [hsel, List.head?_take, if_neg (by omega)]
    exact hstart
  refine ⟨hstart, hsize, hselector, hd, hsound, hsound.fits_of_le hle,
    (hr.sound.counter.selector_eq ((Registry.lookup_counter hhead).1 hd)).symm, hcode, ?_⟩
  rw [(codeText_eq_ok.1 hcode).2.2, Bytes.slice, List.take_take, Nat.min_self]
  exact hcount

/-- A header of the counter's own code has all in common with it. -/
theorem Steps.matches_of_read (hc : Steps r input c) (hk : c.descriptor.kind = .counter)
    (hh : CodeHeader.read c.descriptor c.code = .ok h) : c.Matches h := by
  obtain ⟨-, -, -, hdigits⟩ := CodeHeader.read_eq_ok.1 hh
  obtain ⟨n, count, hn, hcounted, rfl⟩ := (CodeHeader.ofDigits_counted hk).1 hdigits
  rw [hc.count] at hn
  cases hn
  obtain ⟨hcs, -, htext⟩ := codeText_eq_ok.1 hc.code
  obtain ⟨-, -, hselector⟩ := codeText_eq_ok.1 hc.selector
  refine ⟨rfl, hc.selector_eq, rfl, ?_, rfl, hcounted.symm, hh⟩
  rw [hselector, htext, Bytes.slice, List.take_take, Nat.min_self, ← Bytes.slice,
    Bytes.take_append_slice input hc.fits.hs_le_cs]

/-- **Where a counter is read, its header is**, unless its multiplier is not known. -/
theorem Steps.exists_read (hc : Steps r input c) (hk : c.descriptor.kind = .counter)
    (hknown : ∀ spelling ∈ c.descriptor.multiplier, (Multiplier.ofString? spelling).isSome) :
    ∃ h, CodeHeader.read c.descriptor c.code = .ok h := by
  obtain ⟨hcs, hascii, htext⟩ := codeText_eq_ok.1 hc.code
  obtain ⟨count, hcounted⟩ := Descriptor.exists_counted hknown c.count
  have hlength : c.descriptor.cs = c.code.length := by rw [htext, List.length_take, Nat.min_eq_left hcs]
  exact ⟨_, CodeHeader.read_eq_ok.2 ⟨by rw [htext]; exact hascii, Nat.le_of_eq hlength, hc.fits.hs_le_cs,
    (CodeHeader.ofDigits_counted hk).2 ⟨c.count, count, hc.count, hcounted, rfl⟩⟩⟩

/-- **Where a header is read, the counter is.** -/
theorem exists_of_coded (hr : r.Loaded) (hstart : input.head? = some counterStart) (hv : Value.coded r input = .ok v)
    (hvh : v.header = .code h) (hk : h.descriptor.kind = .counter) :
    ∃ c, extract r input = .ok c ∧ c.Matches h := by
  rw [Value.coded, if_pos hstart] at hv
  obtain ⟨h', hsteps⟩ := Value.exists_counterSteps hr hstart hv
  rw [hsteps.value_eq] at hvh
  cases hvh
  obtain ⟨hcs, -, -⟩ := Value.leadingText_eq_ok.1 hsteps.code
  obtain ⟨hascii, -, hle, hdigits⟩ := CodeHeader.read_eq_ok.1 hsteps.read
  obtain ⟨n, -, hn, -⟩ := (CodeHeader.ofDigits_counted hk).1 hdigits
  -- the selector is ASCII as a part of the code
  have hselector : codeText input h.descriptor.hs = .ok (input.take h.descriptor.hs) := by
    refine codeText_eq_ok.2 ⟨Nat.le_trans hle hcs, ?_, rfl⟩
    rw [← Bytes.take_append_slice input hle, Bytes.isAscii_append, Bool.and_eq_true] at hascii
    exact hascii.1
  have hc : extract r input = .ok ⟨input.take h.descriptor.hs, input.take h.descriptor.cs, n, h.descriptor⟩ := by
    refine extract_eq_ok_iff_steps.2 ⟨_, hstart, hsteps.size, hselector, hsteps.lookup,
      codeText_eq_ok.2 ⟨hcs, hascii, rfl⟩, hle, ?_⟩
    rw [Bytes.slice, List.take_take, Nat.min_self] at hn
    exact hn
  exact ⟨_, hc, (steps_of_extract hr hc).matches_of_read hk hsteps.read⟩

/-- Behind the code there is the extent to find, and to ask for. -/
theorem Steps.coded_eq (hc : Steps r input c) (hh : CodeHeader.read c.descriptor c.code = .ok h) :
    Value.coded r input = do
      let length ← Value.counterLength r input h
      ensure input length
      return ⟨.code h, 0, length⟩ := by
  have hselector := Value.leadingText_of_codeText hc.selector
  have hcode := Value.leadingText_of_codeText hc.code
  rw [Value.coded, if_pos hc.start]
  unfold Value.counter
  simp only [hc.size, hselector, hc.lookup, hcode, hh, bind, Except.bind]

/-- The contents are those of the counter itself. -/
theorem counter_of_triples {t : SealTriples} (hc : extract r input = .ok c) (ht : SealTriples.extract r input = .ok t) :
    t.counter = c := by
  obtain ⟨hcounter, -⟩ := SealTriples.row_of_extract ht
  rw [hc] at hcounter
  exact (Except.ok.inj hcounter).symm

/-- Without triples the header alone says how long the value is. -/
theorem Matches.totalLength (hm : c.Matches h) (hk : c.descriptor.kind = .counter) :
    h.totalLength =
      if c.descriptor.multiplier.isSome then h.fixedLength else .ok (c.codeLength + 4 * c.count) := by
  have hkind : h.descriptor.kind = .counter := hm.descriptor_eq ▸ hk
  unfold CodeHeader.totalLength
  rw [hm.codeLength_eq, hm.descriptor_eq, hkind, hm.quadlets_eq]
  cases h.descriptor.multiplier <;> rfl

/-- A length that is found is that of the extent. -/
theorem Matches.extent_of_length (hm : c.Matches h) (hk : c.descriptor.kind = .counter) (hc : extract r input = .ok c)
    {n : Nat} (hn : Value.counterLength r input h = .ok n) : Extent r input c n := by
  unfold Value.counterLength at hn
  rw [← hm.descriptor_eq] at hn
  split at hn
  · next hname =>
    obtain ⟨t, ht, rfl⟩ := Value.sealTriplesLength_eq_ok.1 hn
    exact .triples hname ht (counter_of_triples hc ht)
  · next hname =>
    rw [hm.totalLength hk] at hn
    split at hn
    · next hmultiplier =>
      rw [CodeHeader.fixedLength_eq_ok, ← hm.descriptor_eq] at hn
      exact .fixed hname hmultiplier hn
    · next hmultiplier =>
      cases hn
      exact .quadlets hname (by simpa using hmultiplier)

/-- Where no length is found, it is missing in the code, or in the contents. -/
theorem Matches.outcome_of_error (hm : c.Matches h) (hk : c.descriptor.kind = .counter) {e : DecodeError}
    (he : Value.counterLength r input h = .error e) : Outcome r input c h (.error e) := by
  unfold Value.counterLength at he
  rw [← hm.descriptor_eq] at he
  split at he
  · next hname =>
    unfold Value.sealTriplesLength at he
    split at he
    · cases he
    · next hshort =>
      cases he
      exact .shortContents hname hshort
    · next hother hcontents =>
      cases he
      exact .contents hname hcontents hother
  · next hname =>
    rw [hm.totalLength hk] at he
    split at he
    · next hmultiplier =>
      unfold CodeHeader.fixedLength at he
      rw [← hm.descriptor_eq] at he
      split at he <;> cases he
      next hfs =>
      rw [hm.descriptor_eq, ← hm.selector_eq]
      exact .unsized hname hmultiplier hfs
    · cases he

/-- **Where a counter is read, so is its value**, but for its extent. -/
theorem outcome_of_extract (hr : r.Loaded) (hc : extract r input = .ok c) (hk : c.descriptor.kind = .counter)
    (hknown : ∀ spelling ∈ c.descriptor.multiplier, (Multiplier.ofString? spelling).isSome) :
    ∃ h, c.Matches h ∧ Outcome r input c h (Value.coded r input) := by
  have hsteps := steps_of_extract hr hc
  obtain ⟨h, hh⟩ := hsteps.exists_read hk hknown
  have hm := hsteps.matches_of_read hk hh
  refine ⟨h, hm, ?_⟩
  rw [hsteps.coded_eq hh]
  cases hn : Value.counterLength r input h with
  | error e => exact hm.outcome_of_error hk hn
  | ok n =>
    have hextent := hm.extent_of_length hk hc hn
    show Outcome r input c h (ensure input n >>= fun _ => .ok ⟨.code h, 0, n⟩)
    unfold ensure
    split
    · next hlt => exact .short hextent hlt
    · next hlt => exact .whole hextent (Nat.not_lt.1 hlt)

/-- **The two readers of counters agree**: a value with the header of a counter is one that the counter is read from as
well, with the same code and the number that the header multiplies; and where a counter is read whose multiplier is
known, or that has none, the header is, and the value too if its extent is found and there. -/
theorem readers_agree (hr : r.Loaded) (hstart : input.head? = some counterStart) :
    (∀ v h, Value.coded r input = .ok v → v.header = .code h → h.descriptor.kind = .counter →
      ∃ c, extract r input = .ok c ∧ c.Matches h) ∧
    ∀ c, extract r input = .ok c → c.descriptor.kind = .counter →
      (∀ spelling ∈ c.descriptor.multiplier, (Multiplier.ofString? spelling).isSome) →
        ∃ h, c.Matches h ∧ Outcome r input c h (Value.coded r input) :=
  ⟨fun _ _ hv hvh hk => exists_of_coded hr hstart hv hvh hk, fun _ hc hk hknown => outcome_of_extract hr hc hk hknown⟩

/-- One triple of two-byte numbers counts three values in both readings; cut inside its second number, the counter is
still read, and its value lacks two characters of the whole. -/
theorem readers_agree_triple :
    (∃ c h, extract .keriV1 (Bytes.ofString "-IABMAAAMAABMAACM") = .ok c ∧ c.Matches h ∧ c.count = 1 ∧
      h.count = some 3) ∧
    ∃ c h, extract .keriV1 (Bytes.ofString "-IABMAAAMA") = .ok c ∧ c.Matches h ∧
      Outcome .keriV1 (Bytes.ofString "-IABMAAAMA") c h (.error (.shortage 10 2)) := by
  constructor
  · have hread : (Value.coded .keriV1 (Bytes.ofString "-IABMAAAMAABMAACM")).toOption.bind
        (fun v => v.header.asCode?.map (fun h => (h.descriptor.kind, h.descriptor.multiplier, h.count))) =
          some (.counter, some "x3", some 3) := by decide +kernel
    have hcount : (extract .keriV1 (Bytes.ofString "-IABMAAAMAABMAACM")).toOption.map Counter.count = some 1 := by
      decide +kernel
    obtain ⟨v, hv, hfields⟩ := Option.bind_eq_some_iff.1 hread
    obtain ⟨h, hvh, hfields⟩ := Option.map_eq_some_iff.1 hfields
    obtain ⟨hk, -, hthree⟩ : h.descriptor.kind = .counter ∧ h.descriptor.multiplier = some "x3" ∧
      h.count = some 3 := by simpa using hfields
    obtain ⟨c, hc, hm⟩ := (readers_agree Registry.loaded_keriV1 (by decide)).1 v h (eq_ok_of_toOption hv)
      (Header.asCode?_eq_some.1 hvh) hk
    rw [hc] at hcount
    exact ⟨c, h, hc, hm, Option.some.inj hcount, hthree⟩
  · have hread : (extract .keriV1 (Bytes.ofString "-IABMAAAMA")).toOption.map
        (fun c => (c.descriptor.kind, c.descriptor.multiplier)) = some (.counter, some "x3") := by decide +kernel
    have hshort : Value.coded .keriV1 (Bytes.ofString "-IABMAAAMA") = .error (.shortage 10 2) := by decide +kernel
    obtain ⟨c, hc, hfields⟩ := exists_of_toOption_map hread
    obtain ⟨hk, hmultiplier⟩ := Prod.mk.inj hfields
    obtain ⟨h, hm, houtcome⟩ := (readers_agree Registry.loaded_keriV1 (by decide)).2 c hc hk
      (by rw [hmultiplier]; simp [Multiplier.ofString?])
    rw [hshort] at houtcome
    exact ⟨c, h, hc, hm, houtcome⟩

end Counter
end Quadlet
