import Quadlet.Proofs.Framing
import Quadlet.Proofs.Numeral
/-!
# Readable codes — which codes of a table a value can have

Tables are checked for sizes that fit each other, and not for codes that no value has.  Such codes get in: what starts
like a counter or an op code is never looked for among the primitives, digits that are read are at most ten, lead bytes
need a body that holds them, and a counter that does not count quadlets needs a full size.  Sizes get in as well whose
sum wraps around, or that no text reaches.  There are no others: a code that is `Readable` has a value, and what has a
value is `Readable`.
-/
namespace Quadlet

open Base64 (Alphabet)

variable {r : Registry} {input : Bytes} {d : Descriptor}

/-! ## Digits -/

namespace Numeral

theorem exists_read {n width : Nat} (hn : n < capacity width) (hwidth : width ≤ maxWidth) :
    ∃ text : Bytes, text.length = width ∧ Bytes.isAscii text = true ∧ read text = .ok n := by
  have hwrite : write n width = .ok (digitsOnto [] width n) := if_pos hn
  exact ⟨_, (write_eq_ok hwrite).2.2, isAscii_of_write hwrite, read_of_write hwrite hwidth⟩

/-- Digits that all stand for zero. -/
def zeros (width : Nat) : Bytes := List.replicate width (Alphabet.url.char 0)

theorem length_zeros (width : Nat) : (zeros width).length = width := List.length_replicate

theorem isAscii_zeros (width : Nat) : Bytes.isAscii (zeros width) = true := by
  rw [Bytes.isAscii, List.all_eq_true]
  intro c hc
  rw [List.eq_of_mem_replicate hc]
  decide +kernel

theorem read_zeros {width : Nat} (h : width ≤ maxWidth) : read (zeros width) = .ok 0 := by
  have hvalues : Alphabet.url.values 0 (zeros width) = .ok (List.replicate width 0) := by
    rw [zeros, ← List.map_replicate]
    refine Alphabet.url.values_map_char Alphabet.nodup_url 0 _ fun v hv => ?_
    rw [List.eq_of_mem_replicate hv]
    decide
  have hzero : ∀ n, ofValues (List.replicate n 0) = 0 := fun n => by
    induction n with
    | zero => rfl
    | succ n ih => exact ih
  rw [read, if_neg (by rw [length_zeros]; omega), hvalues]
  exact congrArg Except.ok (hzero width)

end Numeral

theorem readDigits_eq_ok {digits : Bytes} {n : Nat} : readDigits digits = .ok n ↔ Numeral.read digits = .ok n :=
  mapError_eq_ok

/-! ## What can be read -/

namespace Descriptor

/-- A primitive is looked for by its code unless that starts like a counter or an op code. -/
def StartsPrimitive (d : Descriptor) : Prop :=
  d.selector.head? ≠ some counterStart ∧ d.selector.head? ≠ some opStart

/-- **What a code of a kind needs for a value**: a body of a fixed size holds the lead bytes, and so does the largest
that digits announce; digits that are read are at most ten; and a counter has an extent. -/
def ReadableAs (d : Descriptor) : CodeKind → Prop
  | .fixedSize => d.StartsPrimitive ∧ d.ls ≤ (d.fs.getD 0 - d.cs) * 3 / 4
  | .variableSize =>
    d.StartsPrimitive ∧ d.ss ≤ Numeral.maxWidth ∧ d.ls ≤ 3 * (Numeral.capacity d.ss - 1)
  | .indexer =>
    d.StartsPrimitive ∧ d.os ≤ Numeral.maxWidth ∧ d.ss - d.os ≤ Numeral.maxWidth ∧
      d.ls ≤ (d.fs.getD 0 - d.cs) * 3 / 4
  | .counter =>
    d.ss ≤ Numeral.maxWidth ∧
      (d.name = some Value.sealTriplesName ∨ d.multiplier = none ∨ d.fs.isSome = true)
  | .version =>
    if d.name = some Value.sealTriplesName then d.ss ≤ Numeral.maxWidth else d.fs.isSome = true

/-- The length of the shortest value that the code can have. -/
def least (d : Descriptor) : Nat :=
  match d.kind with
  | .fixedSize | .indexer => d.fs.getD 0
  | .variableSize => d.cs + 4 * ((d.ls + 2) / 3)
  | .counter => if d.name = some Value.sealTriplesName ∨ d.multiplier = none then d.cs else d.fs.getD 0
  | .version => if d.name = some Value.sealTriplesName then d.cs else d.fs.getD 0

/-- **What a code needs for a value**: sizes that a word holds, what its kind asks for, and a text long enough. -/
def Readable (d : Descriptor) : Prop := d.Fits ∧ d.ReadableAs d.kind ∧ d.least < textBound

instance decidableStartsPrimitive (d : Descriptor) : Decidable d.StartsPrimitive :=
  inferInstanceAs (Decidable (_ ≠ _ ∧ _ ≠ _))

instance decidableReadableAs (d : Descriptor) : (k : CodeKind) → Decidable (d.ReadableAs k)
  | .fixedSize => inferInstanceAs (Decidable (d.StartsPrimitive ∧ _ ≤ _))
  | .variableSize => inferInstanceAs (Decidable (d.StartsPrimitive ∧ _ ≤ _ ∧ _ ≤ _))
  | .indexer => inferInstanceAs (Decidable (d.StartsPrimitive ∧ _ ≤ _ ∧ _ ≤ _ ∧ _ ≤ _))
  | .counter => inferInstanceAs (Decidable (_ ≤ _ ∧ (_ = _ ∨ _ = _ ∨ _ = _)))
  | .version => inferInstanceAs (Decidable (if _ = _ then _ ≤ _ else _ = _))

instance decidableReadable (d : Descriptor) : Decidable d.Readable :=
  inferInstanceAs (Decidable (d.Fits ∧ d.ReadableAs d.kind ∧ _ < _))

end Descriptor

/-- The value has the code that the descriptor describes. -/
def Value.Carries (v : Value) (d : Descriptor) : Prop := ∃ h, v.header = .code h ∧ h.descriptor = d

/-- **The code has a value**: the registry reads one at the start of some text that starts with the code. -/
def Registry.HasValue (r : Registry) (d : Descriptor) : Prop :=
  ∃ input v, input.length < textBound ∧ d.selector <+: input ∧ Value.coded r input = .ok v ∧ v.Carries d

/-! ## Primitives -/

/-- A body on the grid has raw bytes when it has room for the lead bytes. -/
theorem exists_bodyText (cs ls m : Nat) (hgrid : (cs % 4 + m) % 4 = 0) (h : ls ≤ m * 3 / 4) :
    ∃ raw, (bodyText cs ls raw).length = m := by
  refine ⟨List.replicate (m * 3 / 4 - ls) 0, ?_⟩
  have hlen := congrArg List.length (pad_append_bodyText cs ls (List.replicate (m * 3 / 4 - ls) 0))
  rw [List.length_append, List.length_replicate, Base64.length_encode, List.length_append, List.length_replicate,
    List.length_replicate] at hlen
  have hbytes : cs % 4 + ls + (m * 3 / 4 - ls) = (cs % 4 + m) / 4 * 3 := by omega
  rw [hbytes] at hlen
  omega

namespace Primitive

/-- Digits and an extent make a primitive when the body has room for the lead bytes. -/
theorem exists_canonical (hr : r.Loaded) (hmem : d ∈ r.primitives.codes.values) (hfits : d.Fits)
    (hstart : d.StartsPrimitive) {soft : Bytes} {total : Nat} (hlength : soft.length = d.ss)
    (hascii : Bytes.isAscii soft = true)
    (hextent : d.fs = some total ∨ d.fs = none ∧ ∃ q, Numeral.read soft = .ok q ∧ total = d.cs + 4 * q)
    (hroom : d.ls ≤ (total - d.cs) * 3 / 4) (hshort : total < textBound) :
    ∃ p, Canonical r d soft p ∧ p.totalLength < textBound := by
  obtain ⟨k, hk⟩ := KeyMap.mem_values.1 hmem
  have hsound := hr.primitives.sound hk
  obtain ⟨hgrid, hle⟩ := grid_of_extent hsound hextent
  obtain ⟨raw, hraw⟩ := exists_bodyText d.cs d.ls (total - d.cs) (by omega) hroom
  refine ⟨⟨d.selector, d.selector ++ soft, total, raw⟩, {
    mem := hmem
    fits := hfits
    not_counter := hstart.1
    not_op := hstart.2
    length_soft := hlength
    ascii_soft := hascii
    extent := hextent
    length_text := ?_
    selector_eq := rfl
    code_eq := rfl }, hshort⟩
  rw [Descriptor.text, List.length_append, List.length_append, hraw, hsound.length_selector, hlength, ← hfits.cs_eq]
  show d.cs + (total - d.cs) = total
  omega

/-- A code has a value among the primitives when it has a text there. -/
theorem hasValue_of_canonical (hr : r.Loaded) {soft : Bytes} {p : Primitive} (hc : Canonical r d soft p)
    (hshort : p.totalLength < textBound) {h : CodeHeader} (hh : CodeHeader.ofDigits d soft = .ok h) :
    r.HasValue d := by
  obtain ⟨hsound, hlookup, first, hfirst, -⟩ := hc.facts hr
  have htake : (d.text soft p.raw).take p.totalLength = d.text soft p.raw := by
    rw [← hc.length_text, List.take_length]
  have hhead : (d.text soft p.raw).head? ≠ some counterStart := by
    rw [Descriptor.text, List.append_assoc, List.head?_append, hfirst, Option.some_or, ← hfirst]
    exact hc.not_counter
  refine ⟨d.text soft p.raw, ⟨.code h, 0, p.totalLength⟩, hc.length_text ▸ hshort, ?_, ?_, h, rfl,
    CodeHeader.descriptor_of_ofDigits hh⟩
  · rw [Descriptor.text, List.append_assoc]
    exact List.prefix_append ..
  · rw [Value.coded, if_neg hhead]
    refine Value.primitive_eq_ok_iff_steps.2 ⟨p, d, h, extract_of_canonical hr hc htake, ?_, ?_, rfl⟩
    · rw [hc.selector_eq, hlookup]
    · rw [hc.code_eq]
      exact (CodeHeader.read_code hsound hc.fits hc.length_soft hc.ascii_soft).trans hh

/-- What a value says of the code that it carries, if it is a primitive. -/
theorem canonical_of_carries (hr : r.Loaded) {v : Value} (hv : Value.primitive r input = .ok v) (hc : v.Carries d) :
    ∃ soft p h, Canonical r d soft p ∧ p.totalLength ≤ input.length ∧ CodeHeader.ofDigits d soft = .ok h := by
  obtain ⟨p, h, soft, hp, hcanonical, -, hh, rfl⟩ := Value.canonical_of_primitive hr hv
  obtain ⟨_, hheader, rfl⟩ := hc
  cases hheader
  exact ⟨soft, p, h, hcanonical, (Primitive.looks hr hp).le, hh⟩

theorem exists_ofDigits_indexer (hk : d.kind = .indexer) {digits : Bytes} :
    (∃ h, CodeHeader.ofDigits d digits = .ok h) ↔
      if 0 < d.os ∧ d.os ≤ digits.length then
        (∃ n, Numeral.read (digits.take d.os) = .ok n) ∧ ∃ n, Numeral.read (digits.drop d.os) = .ok n
      else ∃ n, Numeral.read digits = .ok n := by
  simp only [CodeHeader.ofDigits, hk]
  split
  · simp only [bind_eq_ok, readDigits_eq_ok]
    constructor
    · rintro ⟨_, i, hi, o, ho, -⟩
      exact ⟨⟨i, hi⟩, o, ho⟩
    · rintro ⟨⟨i, hi⟩, o, ho⟩
      exact ⟨_, i, hi, o, ho, rfl⟩
  · simp only [bind_eq_ok, readDigits_eq_ok]
    constructor
    · rintro ⟨_, i, hi, -⟩
      exact ⟨i, hi⟩
    · rintro ⟨i, hi⟩
      exact ⟨_, i, hi, rfl⟩

theorem width_of_ofDigits_indexer (hk : d.kind = .indexer) {digits : Bytes} (hos : d.os ≤ digits.length)
    {h : CodeHeader} (hh : CodeHeader.ofDigits d digits = .ok h) :
    d.os ≤ Numeral.maxWidth ∧ digits.length - d.os ≤ Numeral.maxWidth := by
  have hread := (exists_ofDigits_indexer hk).1 ⟨h, hh⟩
  split at hread
  · obtain ⟨⟨_, hindex⟩, _, hother⟩ := hread
    have hindex := (Numeral.lt_of_read hindex).1
    have hother := (Numeral.lt_of_read hother).1
    rw [List.length_take] at hindex
    rw [List.length_drop] at hother
    omega
  · obtain ⟨_, hindex⟩ := hread
    have hindex := (Numeral.lt_of_read hindex).1
    omega

theorem readable_of_canonical (hr : r.Loaded) {soft : Bytes} {p : Primitive} (hc : Canonical r d soft p)
    (hshort : p.totalLength < textBound) {h : CodeHeader} (hh : CodeHeader.ofDigits d soft = .ok h) :
    d.Readable := by
  have hstart : d.StartsPrimitive := ⟨hc.not_counter, hc.not_op⟩
  have hroom : d.ls ≤ (p.totalLength - d.cs) * 3 / 4 := hc.length_raw hr ▸ Nat.le_add_left ..
  have hos := (hc.facts hr).1.os_le
  have hsoft := hc.length_soft
  obtain ⟨_, hfind⟩ := KeyMap.mem_values.1 hc.mem
  rw [Descriptor.Readable, Descriptor.least]
  obtain ⟨hk, hfs⟩ | ⟨hk | hk, hfs⟩ := hr.primitives.property hfind
  · rw [hk]
    obtain ⟨-, q, hq, htotal⟩ := hc.extent.resolve_left (by rw [hfs]; simp)
    obtain ⟨hwidth, hlt⟩ := Numeral.lt_of_read hq
    rw [hsoft] at hwidth hlt
    refine ⟨hc.fits, ⟨hstart, hwidth, by omega⟩, ?_⟩
    show d.cs + 4 * ((d.ls + 2) / 3) < textBound
    omega
  · rw [hk]
    obtain ⟨fs, hfs⟩ := Option.isSome_iff_exists.1 hfs
    have hfull := hc.extent.resolve_right (by rw [hfs]; simp)
    rw [hfull]
    exact ⟨hc.fits, ⟨hstart, hfull ▸ hroom⟩, hshort⟩
  · rw [hk]
    obtain ⟨fs, hfs⟩ := Option.isSome_iff_exists.1 hfs
    have hfull := hc.extent.resolve_right (by rw [hfs]; simp)
    obtain ⟨hindex, hother⟩ := width_of_ofDigits_indexer hk (hsoft ▸ hos) hh
    rw [hfull]
    exact ⟨hc.fits, ⟨hstart, hindex, hsoft ▸ hother, hfull ▸ hroom⟩, hshort⟩

/-- What is readable has a text: the digits are zero, or count the least body that holds the lead bytes. -/
theorem hasValue_of_readable (hr : r.Loaded) (hfind : r.primitives.codes.find? d.selector = some d)
    (h : d.Readable) : r.HasValue d := by
  have hmem := KeyMap.mem_values.2 ⟨_, hfind⟩
  have hos := (hr.primitives.sound hfind).os_le
  have hzeros := Numeral.length_zeros d.ss
  rw [Descriptor.Readable, Descriptor.least] at h
  obtain ⟨hk, hfs⟩ | ⟨hk | hk, hfs⟩ := hr.primitives.property hfind
  · rw [hk] at h
    obtain ⟨hfits, ⟨hstart, hwidth, hroom⟩, hshort⟩ := h
    have hpos := Numeral.capacity_pos d.ss
    obtain ⟨soft, hlength, hascii, hread⟩ := Numeral.exists_read (n := (d.ls + 2) / 3) (by omega) hwidth
    obtain ⟨p, hp, hshort⟩ :=
      exists_canonical hr hmem hfits hstart hlength hascii (.inr ⟨hfs, _, hread, rfl⟩) (by omega) hshort
    refine hasValue_of_canonical hr hp hshort (h := ?_) ?_
    · exact { descriptor := d, digits := soft, leadBytes := some d.ls, size := some ((d.ls + 2) / 3) }
    · simp only [CodeHeader.ofDigits, hk]
      exact bind_eq_ok.2 ⟨_, readDigits_eq_ok.2 hread, rfl⟩
  · rw [hk] at h
    obtain ⟨hfits, ⟨hstart, hroom⟩, hshort⟩ := h
    obtain ⟨fs, hfs⟩ := Option.isSome_iff_exists.1 hfs
    rw [hfs] at hroom hshort
    obtain ⟨p, hp, hshort⟩ :=
      exists_canonical hr hmem hfits hstart hzeros (Numeral.isAscii_zeros _) (.inl hfs) hroom hshort
    -- these digits are not read, however many they are
    exact hasValue_of_canonical hr hp hshort (by simp only [CodeHeader.ofDigits, hk]; rfl)
  · rw [hk] at h
    obtain ⟨hfits, ⟨hstart, hindex, hother, hroom⟩, hshort⟩ := h
    obtain ⟨fs, hfs⟩ := Option.isSome_iff_exists.1 hfs
    rw [hfs] at hroom hshort
    obtain ⟨p, hp, hshort⟩ :=
      exists_canonical hr hmem hfits hstart hzeros (Numeral.isAscii_zeros _) (.inl hfs) hroom hshort
    obtain ⟨h, hh⟩ : ∃ h, CodeHeader.ofDigits d (Numeral.zeros d.ss) = .ok h := by
      refine (exists_ofDigits_indexer hk).2 ?_
      split
      · rw [Numeral.zeros, List.take_replicate, List.drop_replicate, Nat.min_eq_left hos]
        exact ⟨⟨0, Numeral.read_zeros hindex⟩, 0, Numeral.read_zeros hother⟩
      · exact ⟨0, Numeral.read_zeros (by omega)⟩
    exact hasValue_of_canonical hr hp hshort hh

end Primitive

/-! ## Counters -/

namespace Value

/-- The extent that a header gives its counter, unless the counter has that of its contents. -/
theorem exists_totalLength {h : CodeHeader} (hk : h.descriptor.kind = .counter ∨ h.descriptor.kind = .version) :
    (∃ n, h.totalLength = .ok n) ↔
      h.descriptor.kind = .counter ∧ h.quadlets.isSome = true ∨ h.descriptor.fs.isSome = true := by
  have hfixed : (∃ n, h.fixedLength = .ok n) ↔ h.descriptor.fs.isSome = true := by
    simp only [CodeHeader.fixedLength_eq_ok, Option.isSome_iff_exists]
  rcases hk with hk | hk
  · cases hq : h.quadlets with
    | none => simp [CodeHeader.totalLength, hk, hq, hfixed]
    | some q => simp [CodeHeader.totalLength, hk, hq]
  · simp [CodeHeader.totalLength, hk, hfixed]

/-- The header of a counter has quadlets unless it has a multiplier. -/
theorem CounterSteps.quadlets_eq_none {v : Value} {h : CodeHeader} (hc : CounterSteps r input v h)
    (hk : h.descriptor.kind = .counter) (hm : h.descriptor.multiplier ≠ none) : h.quadlets = none := by
  obtain ⟨-, -, -, hh⟩ := CodeHeader.read_eq_ok.1 hc.read
  obtain ⟨n, -, ⟨hnone, -⟩ | ⟨_, _, -, -, hheader⟩⟩ := (CodeHeader.ofDigits_counter hk).1 hh
  · exact absurd hnone hm
  · rw [hheader]

/-- No value of a counter is shorter than its code needs. -/
theorem CounterSteps.least_le (hr : r.Loaded) (hstart : input.head? = some counterStart) {v : Value} {h : CodeHeader}
    (hc : CounterSteps r input v h) : h.descriptor.least ≤ v.length := by
  have hcs := (hc.looks_counterLength hr hstart).1
  have htotal := hc.totalLength
  rw [CodeHeader.totalLength] at htotal
  rw [Descriptor.least]
  rcases hc.isCounter.2.1 with hk | hk <;> rw [hk] at htotal ⊢ <;> dsimp only at htotal ⊢ <;> split
  · exact hcs
  · next hnot =>
    obtain ⟨hname, hm⟩ := not_or.1 hnot
    have htotal := htotal hname
    rw [hc.quadlets_eq_none hk hm] at htotal
    rw [CodeHeader.fixedLength_eq_ok.1 htotal]
    exact Nat.le_refl _
  · exact hcs
  · next hname =>
    rw [CodeHeader.fixedLength_eq_ok.1 (htotal hname)]
    exact Nat.le_refl _

/-- What a value says of the code that it carries, if it is a counter. -/
theorem readable_of_counter (hr : r.Loaded) (hstart : input.head? = some counterStart)
    (hshort : input.length < textBound) {v : Value} (hv : counter r input = .ok v) (hc : v.Carries d) :
    d.Readable := by
  obtain ⟨h, hsteps⟩ := exists_counterSteps hr hstart hv
  obtain ⟨-, hcs, -, hh⟩ := CodeHeader.read_eq_ok.1 hsteps.read
  obtain ⟨h', hheader, rfl⟩ := hc
  rw [hsteps.value_eq] at hheader
  cases hheader
  have hwidth : (Bytes.slice (input.take h.descriptor.cs) h.descriptor.hs h.descriptor.cs).length =
      h.descriptor.ss := by
    rw [Bytes.length_slice _ _ _ hcs, hsteps.fits.cs_eq, Nat.add_sub_cancel_left]
  have hlength := hsteps.counted
  have htotal : h.descriptor.name ≠ some sealTriplesName → ∃ n, h.totalLength = .ok n :=
    fun hname => ⟨_, hsteps.totalLength hname⟩
  rw [exists_totalLength hsteps.isCounter.2.1] at htotal
  refine ⟨hsteps.fits, ?_,
    Nat.lt_of_le_of_lt (Nat.le_trans (hsteps.least_le hr hstart) hsteps.length_le) hshort⟩
  rcases hsteps.isCounter.2.1 with hk | hk
  · rw [hk]
    obtain ⟨n, hn, -⟩ := (CodeHeader.ofDigits_counter hk).1 hh
    have hdigits := (Numeral.lt_of_read (readDigits_eq_ok.1 hn)).1
    refine ⟨hwidth ▸ hdigits, ?_⟩
    by_cases hname : h.descriptor.name = some sealTriplesName
    · exact .inl hname
    · by_cases hm : h.descriptor.multiplier = none
      · exact .inr (.inl hm)
      · exact .inr (.inr ((htotal hname).resolve_left (by simp [hsteps.quadlets_eq_none hk hm])))
  · rw [hk]
    show if _ then _ else _
    split
    · next hname =>
      rw [counterLength, if_pos hname] at hlength
      -- the header has no number, but the triples are counted
      obtain ⟨t, ht, -⟩ := sealTriplesLength_eq_ok.1 hlength
      obtain ⟨-, hcount⟩ :=
        Counter.descriptor_of_extract (SealTriples.extract_eq_ok ht).1 hsteps.size hsteps.lookup
      have hdigits := (Numeral.lt_of_read (readDigits_eq_ok.1 hcount)).1
      rw [Bytes.length_slice _ _ _ (leadingText_eq_ok.1 hsteps.code).1, hsteps.fits.cs_eq,
        Nat.add_sub_cancel_left] at hdigits
      exact hdigits
    · next hname => exact (htotal hname).resolve_left (by simp [hk])

/-- A counter of no triples is its code. -/
theorem sealTriplesLength_zeros (hr : r.Loaded) (hfind : r.tables.counter.codes.find? d.selector = some d)
    (hfits : d.Fits) (hwidth : d.ss ≤ Numeral.maxWidth) (rest : Bytes) :
    sealTriplesLength r (d.selector ++ Numeral.zeros d.ss ++ rest) = .ok d.cs := by
  obtain ⟨hhead, hsize, hselector, hlookup, htext, hdigits⟩ :=
    counter_code hr hfind hfits (Numeral.length_zeros _) (Numeral.isAscii_zeros _) rest
  have hcounter : Counter.extract r (d.selector ++ Numeral.zeros d.ss ++ rest) =
      .ok ⟨d.selector, d.selector ++ Numeral.zeros d.ss, 0, d⟩ :=
    Counter.extract_eq_ok_iff_steps.2 ⟨d.hs, hhead, hsize, hselector, hlookup, htext, hfits.hs_le_cs,
      by rw [hdigits]; exact readDigits_eq_ok.2 (Numeral.read_zeros hwidth)⟩
  exact sealTriplesLength_eq_ok.2 ⟨⟨⟨d.selector, d.selector ++ Numeral.zeros d.ss, 0, d⟩, [], d.cs⟩,
    bind_eq_ok.2 ⟨_, hcounter, rfl⟩, rfl⟩

/-- A counter of zero has a value when it has an extent. -/
theorem hasValue_of_zeros (hr : r.Loaded) (hfind : r.tables.counter.codes.find? d.selector = some d) (hfits : d.Fits)
    {h : CodeHeader} (hh : CodeHeader.ofDigits d (Numeral.zeros d.ss) = .ok h)
    (hseal : d.name = some sealTriplesName → d.ss ≤ Numeral.maxWidth ∧ d.cs < textBound)
    (hextent : d.name ≠ some sealTriplesName → ∃ n, h.totalLength = .ok n ∧ n < textBound) : r.HasValue d := by
  have hd := CodeHeader.descriptor_of_ofDigits hh
  have hsound := hr.sound.counter.sound hfind
  have hlen : ∀ rest : Bytes, (d.selector ++ Numeral.zeros d.ss ++ rest).length = d.cs + rest.length := by
    intro rest
    rw [List.length_append, List.length_append, hsound.length_selector, Numeral.length_zeros, hfits.cs_eq]
  obtain ⟨n, rest, hlength, hle, hshort⟩ : ∃ (n : Nat) (rest : Bytes),
      counterLength r (d.selector ++ Numeral.zeros d.ss ++ rest) h = .ok n ∧ n ≤ d.cs + rest.length ∧
        d.cs + rest.length < textBound := by
    unfold counterLength
    rw [hd]
    split
    · next hname =>
      obtain ⟨hwidth, hshort⟩ := hseal hname
      exact ⟨d.cs, [], sealTriplesLength_zeros hr hfind hfits hwidth [], Nat.le_refl _, hshort⟩
    · next hname =>
      obtain ⟨n, hn, hshort⟩ := hextent hname
      have hcs := cs_le_totalLength hsound (hr.sound.counter.property hfind).2.1 hd hn
      exact ⟨n, List.replicate (n - d.cs) 0, hn, by rw [List.length_replicate]; omega,
        by rw [List.length_replicate]; omega⟩
  have hvalue := counter_of_code hr hfind hfits (Numeral.length_zeros _) (Numeral.isAscii_zeros _) hh hlength
    (by rw [hlen]; exact hle)
  exact ⟨_, _, hlen rest ▸ hshort, List.append_assoc .. ▸ List.prefix_append .., hvalue, h, rfl, hd⟩

theorem hasValue_of_readable (hr : r.Loaded) (hfind : r.tables.counter.codes.find? d.selector = some d)
    (hm : ∀ {text}, d.multiplier = some text → (Multiplier.ofString? text).isSome = true) (h : d.Readable) :
    r.HasValue d := by
  obtain ⟨hfits, h, hshort⟩ := h
  rw [Descriptor.least] at hshort
  rcases (hr.sound.counter.property hfind).2.1 with hk | hk
  · rw [hk] at h hshort
    obtain ⟨hwidth, hextent⟩ := h
    dsimp only at hshort
    have hread := readDigits_eq_ok.2 (Numeral.read_zeros hwidth)
    have hseal : d.name = some sealTriplesName → d.ss ≤ Numeral.maxWidth ∧ d.cs < textBound :=
      fun hname => ⟨hwidth, by rwa [if_pos (.inl hname)] at hshort⟩
    cases hmultiplier : d.multiplier with
    | none =>
      have hh := (CodeHeader.ofDigits_counter hk).2 ⟨0, hread, .inl ⟨hmultiplier, rfl⟩⟩
      rw [if_pos (.inr hmultiplier)] at hshort
      refine hasValue_of_zeros hr hfind hfits hh hseal fun _ => ⟨d.cs, ?_, hshort⟩
      simp only [CodeHeader.totalLength, hk]
      rfl
    | some text =>
      obtain ⟨m, hm⟩ := Option.isSome_iff_exists.1 (hm hmultiplier)
      have hh := (CodeHeader.ofDigits_counter hk).2 ⟨0, hread, .inr ⟨text, m, hmultiplier, hm, rfl⟩⟩
      refine hasValue_of_zeros hr hfind hfits hh hseal fun hname => ?_
      obtain ⟨fs, hfs⟩ := Option.isSome_iff_exists.1
        ((hextent.resolve_left hname).resolve_left (by rw [hmultiplier]; simp))
      rw [if_neg (by simp [hname, hmultiplier]), hfs] at hshort
      refine ⟨fs, ?_, hshort⟩
      simp only [CodeHeader.totalLength, hk]
      exact CodeHeader.fixedLength_eq_ok.2 hfs
  · rw [hk] at h hshort
    dsimp only at hshort
    have hh : CodeHeader.ofDigits d (Numeral.zeros d.ss) =
        .ok { descriptor := d, digits := Numeral.zeros d.ss, version := some (Numeral.zeros d.ss) } := by
      simp only [CodeHeader.ofDigits, hk]
    refine hasValue_of_zeros hr hfind hfits hh (fun hname => ?_) fun hname => ?_
    · exact ⟨(if_pos hname).mp h, by rwa [if_pos hname] at hshort⟩
    · obtain ⟨fs, hfs⟩ := Option.isSome_iff_exists.1 ((if_neg hname).mp h)
      rw [if_neg hname, hfs] at hshort
      refine ⟨fs, ?_, hshort⟩
      simp only [CodeHeader.totalLength, hk]
      exact CodeHeader.fixedLength_eq_ok.2 hfs

end Value

/-! ## Registries -/

namespace Registry

/-- The codes of a view are found under themselves, among its primitives or among the counters. -/
theorem mem_descriptors (hr : r.Loaded) : d ∈ r.descriptors ↔
    r.primitives.codes.find? d.selector = some d ∨ r.tables.counter.codes.find? d.selector = some d := by
  unfold descriptors
  rw [List.mem_append, KeyMap.mem_values, KeyMap.mem_values]
  refine or_congr ⟨fun ⟨k, hk⟩ => ?_, fun h => ⟨_, h⟩⟩ ⟨fun ⟨k, hk⟩ => ?_, fun h => ⟨_, h⟩⟩
  · exact (hr.primitives.selector_eq hk).symm ▸ hk
  · exact (hr.sound.counter.selector_eq hk).symm ▸ hk

/-- **A code is looked up as itself unless it is a primitive's and starts like a counter.** -/
theorem lookup_selector_iff (hr : r.Loaded) (hd : d ∈ r.descriptors) :
    r.lookup d.selector = .ok d ↔
      (d.selector.head? = some counterStart → d.kind = .counter ∨ d.kind = .version) := by
  by_cases hstart : d.selector.head? = some counterStart
  · rw [lookup_counter hstart]
    refine ⟨fun h _ => (hr.sound.counter.property h).2.1, fun hk => ?_⟩
    rcases (mem_descriptors hr).1 hd with h | h
    · obtain ⟨hk', -⟩ | ⟨hk' | hk', -⟩ := hr.primitives.property h <;> simp [hk', hstart] at hk
    · exact h
  · rw [lookup_primitive hstart]
    refine ⟨fun _ h => absurd h hstart, fun _ => ?_⟩
    rcases (mem_descriptors hr).1 hd with h | h
    · exact h
    · exact absurd (hr.sound.counter.property h).1 hstart

/-- **A code has a value when it is readable, and then only.** -/
theorem hasValue_iff_readable (hr : r.Loaded) (hd : d ∈ r.descriptors)
    (hm : ∀ {text}, d.multiplier = some text → (Multiplier.ofString? text).isSome = true) :
    r.HasValue d ↔ d.Readable := by
  constructor
  · rintro ⟨input, v, hshort, -, hv, hc⟩
    unfold Value.coded at hv
    split at hv
    · next hstart => exact Value.readable_of_counter hr hstart hshort hv hc
    · obtain ⟨soft, p, h, hcanonical, hle, hh⟩ := Primitive.canonical_of_carries hr hv hc
      exact Primitive.readable_of_canonical hr hcanonical (Nat.lt_of_le_of_lt hle hshort) hh
  · intro h
    rcases (mem_descriptors hr).1 hd with hfind | hfind
    · exact Primitive.hasValue_of_readable hr hfind h
    · exact Value.hasValue_of_readable hr hfind hm h

theorem readable_keriV1 (view : View) : ∀ d ∈ (keriV1.withView view).descriptors, d.Readable ∧
    (d.selector.head? = some counterStart → d.kind = .counter ∨ d.kind = .version) ∧
    d.multiplier.all (fun text => (Multiplier.ofString? text).isSome) = true := by
  cases view <;> decide +kernel

/-- **Every code of the bundled tables is looked up and read**, in either view. -/
theorem hasValue_keriV1 (view : View) : ∀ d ∈ (keriV1.withView view).descriptors,
    (keriV1.withView view).lookup d.selector = .ok d ∧ (keriV1.withView view).HasValue d := by
  intro d hd
  have hr := loaded_keriV1.withView view
  obtain ⟨hreadable, hstart, hknown⟩ := readable_keriV1 view d hd
  refine ⟨(lookup_selector_iff hr hd).2 hstart, (hasValue_iff_readable hr hd fun h => ?_).2 hreadable⟩
  rw [h] at hknown
  exact hknown

/-- **Looked up and read.**  Which of the codes of a view, with a multiplier that is known if with any, are looked up
as themselves, and which of them have a value. -/
theorem lookup_and_hasValue_iff (hr : r.Loaded) (hd : d ∈ r.descriptors)
    (hm : ∀ {text}, d.multiplier = some text → (Multiplier.ofString? text).isSome = true) :
    (r.lookup d.selector = .ok d ↔
      (d.selector.head? = some counterStart → d.kind = .counter ∨ d.kind = .version)) ∧
    (r.HasValue d ↔ d.Readable) :=
  ⟨lookup_selector_iff hr hd, hasValue_iff_readable hr hd hm⟩

/-- The group of signatures of the bundled tables is looked up and read. -/
theorem lookup_and_hasValue_signatures :
    keriV1.Loaded ∧ ∃ d ∈ keriV1.descriptors, d.selector = Bytes.ofString "-A" ∧ d.multiplier = some "x1" ∧
      keriV1.lookup d.selector = .ok d ∧ keriV1.HasValue d := by
  obtain ⟨d, hd, hselector, hmultiplier⟩ :
      ∃ d ∈ keriV1.descriptors, d.selector = Bytes.ofString "-A" ∧ d.multiplier = some "x1" := by decide +kernel
  obtain ⟨hreadable, hstart, -⟩ := readable_keriV1 .matter d hd
  obtain ⟨hlookup, hvalue⟩ := lookup_and_hasValue_iff loaded_keriV1 hd (by
    intro text htext
    cases hmultiplier.symm.trans htext
    rfl)
  exact ⟨loaded_keriV1, d, hd, hselector, hmultiplier, hlookup.2 hstart, hvalue.2 hreadable⟩

/-- The sizes of a primitive whose code starts like that of a counter. -/
def dashedSizes : String := "\x7b\"Matter\":\x7b\"-A\":\x7b\"hs\":2,\"ss\":0,\"fs\":4\x7d\x7d\x7d"

/-- **Tables are accepted with a code that is never looked up, and that no value has.** -/
theorem exists_code_without_value :
    ∃ r d, ofJson dashedSizes "\x7b\x7d" "\x7b\x7d" = .ok r ∧ d ∈ r.descriptors ∧ d.multiplier = none ∧
      r.lookup d.selector ≠ .ok d ∧ ¬r.HasValue d := by
  have hmade : (ofJson dashedSizes "\x7b\x7d" "\x7b\x7d").toOption.map (fun r => r.descriptors) =
      some [⟨Bytes.ofString "-A", none, .fixedSize, 2, 0, 0, some 4, 0, none, false, none⟩] := by decide +kernel
  obtain ⟨r, hr, hdescriptors⟩ := exists_of_toOption_map hmade
  have hloaded := loaded_ofJson hr
  have hd := hdescriptors ▸ List.mem_singleton_self _
  refine ⟨r, _, hr, hd, rfl, fun h => ?_, fun h => ?_⟩
  · exact absurd ((lookup_selector_iff hloaded hd).1 h) (by decide +kernel)
  · exact absurd ((hasValue_iff_readable hloaded hd fun h => (by cases h)).1 h) (by decide +kernel)

end Registry
end Quadlet
