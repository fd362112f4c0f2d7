import Quadlet.Framing
import Quadlet.Proofs.Primitive
/-!
# Framing laws — a value is its own bytes

What stands at the start of a span is read from first bytes of it, and read the same in front of anything else.  They
are the bytes that the value covers (`looks_coded`, `looks_sniff`) unless a code wraps around: then a primitive may be
shorter than its selector, and the contents of a seal source counter end before what was looked at.  The code of a
value is among its bytes, and takes at least one (`Framed`), so a stream that is read value by value comes to its end.
-/
namespace Quadlet

variable {r : Registry} {input other : Bytes}

/-! ## What is looked at -/

/-- No code of the view's primitives wraps around. -/
def Registry.PrimitivesFit (r : Registry) : Prop := ∀ d ∈ r.primitives.codes.values, d.Fits

theorem primitivesFit_inView (view : View) : (inView view).PrimitivesFit := by
  have hfits : ∀ d ∈ (inView view).primitives.codes.values, d.Fits := by cases view <;> decide +kernel
  exact hfits

/-- A primitive whose code wraps around to nothing, and which has no body, beside a counter of triples. -/
def wrappingTriples : String :=
  "\x7b\"Matter\":\x7b\"A\":\x7b\"hs\":1,\"ss\":18446744073709551615,\"fs\":0\x7d\x7d," ++
    "\"Counter\":\x7b\"-I\":\x7b\"hs\":2,\"ss\":2,\"fs\":4\x7d\x7d\x7d"

def triplesCounter : String := "\x7b\"Counter\":\x7b\"-I\":\x7b\"name\":\"SealSourceTriples\"\x7d\x7d\x7d"

/-- **What a reader looks at**: `P` holds of all texts that start like the input, with `length` bytes of it if codes
are as `fit` says, and else perhaps with some more. -/
def Looks (fit : Prop) (input : Bytes) (length : Nat) (P : Bytes → Prop) : Prop :=
  ∃ n, length ≤ n ∧ n ≤ input.length ∧ (fit → n = length) ∧
    ∀ other : Bytes, other.take n = input.take n → P other

namespace Looks

variable {fit fit' : Prop} {m n : Nat} {P Q : Bytes → Prop}

theorem exact (hn : n ≤ input.length) (h : ∀ other : Bytes, other.take n = input.take n → P other) :
    Looks fit input n P :=
  ⟨n, Nat.le_refl n, hn, fun _ => rfl, h⟩

theorem le (h : Looks fit input n P) : n ≤ input.length := by
  obtain ⟨k, hnk, hk, -⟩ := h
  exact Nat.le_trans hnk hk

/-- What follows the input is not looked at. -/
theorem append (h : Looks fit input n P) (rest : Bytes) : P (input ++ rest) := by
  obtain ⟨k, -, hk, -, htake⟩ := h
  exact htake _ (List.take_append_of_le_length hk)

theorem of_take (h : Looks fit input n P) (hfit : fit) (ho : other.take n = input.take n) : P other := by
  obtain ⟨k, -, -, hk, htake⟩ := h
  obtain rfl := hk hfit
  exact htake other ho

theorem mono (h : Looks fit input n P)
    (hPQ : ∀ other : Bytes, other.take n = input.take n → P other → Q other) : Looks fit input n Q := by
  obtain ⟨k, hnk, hk, hfit, htake⟩ := h
  exact ⟨k, hnk, hk, hfit, fun other ho => hPQ other (Bytes.take_eq_of_le ho hnk) (htake other ho)⟩

theorem imp (h : Looks fit input n P) (hfit : fit' → fit) : Looks fit' input n P := by
  obtain ⟨k, hnk, hk, hkn, htake⟩ := h
  exact ⟨k, hnk, hk, hkn ∘ hfit, htake⟩

theorem take_drop_eq (h : other.take (m + n) = input.take (m + n)) :
    (other.drop m).take n = (input.drop m).take n := by
  rw [List.take_drop, List.take_drop, h]

/-- One reader after the other. -/
theorem seq (hP : Looks fit input m P) (hQ : Looks fit (input.drop m) n Q) :
    Looks fit input (m + n) (fun other => P other ∧ Q (other.drop m)) := by
  obtain ⟨k, hmk, hk, hfit, hP⟩ := hP
  obtain ⟨l, hnl, hl, hfit', hQ⟩ := hQ
  rw [List.length_drop] at hl
  refine ⟨max k (m + l), by omega, by omega, fun hr => ?_, fun other ho => ⟨?_, ?_⟩⟩
  · have := hfit hr
    have := hfit' hr
    omega
  · exact hP other (Bytes.take_eq_of_le ho (Nat.le_max_left ..))
  · exact hQ _ (take_drop_eq (Bytes.take_eq_of_le ho (Nat.le_max_right ..)))

end Looks

/-! ## Primitives and counters -/

theorem codeText_of_take {n m : Nat} (hmn : m ≤ n) (ho : other.take n = input.take n) {text : Bytes}
    (h : codeText input m = .ok text) : codeText other m = .ok text := by
  obtain ⟨hlen, hascii, htext⟩ := codeText_eq_ok.1 h
  have hm := Bytes.take_eq_of_le ho hmn
  exact codeText_eq_ok.2 ⟨Bytes.le_length_of_take_eq hm hlen, by rw [hm]; exact hascii, by rw [hm]; exact htext⟩

theorem part_of_take {n start stop : Nat} (hn : stop ≤ n) (ho : other.take n = input.take n) {text : Bytes}
    (h : part input start stop = .ok text) : part other start stop = .ok text := by
  obtain ⟨hle, hlen, htext⟩ := part_eq_ok.1 h
  exact part_eq_ok.2 ⟨hle, Bytes.le_length_of_take_eq (Bytes.take_eq_of_le ho hn) hlen,
    by rw [Bytes.slice_eq_of_le ho hn]; exact htext⟩

namespace Primitive

variable {p : Primitive}

/-- The codes that a view's primitives are looked up as do not wrap around. -/
theorem fitsAt_of_extract (hfit : r.PrimitivesFit) (h : extract r input = .ok p) : r.FitsAt p.selector := by
  intro d hd
  obtain ⟨e, he, hfind⟩ := lookup_of_extract h
  obtain rfl := Except.ok.inj (hd.symm.trans he)
  exact hfit d (KeyMap.mem_values.2 ⟨_, hfind⟩)

theorem fitsAt_inView {view : View} (h : extract (inView view) input = .ok p) : (inView view).FitsAt p.selector :=
  fitsAt_of_extract (primitivesFit_inView view) h

theorem extent_of_take {d : Descriptor} {hs n total : Nat} (hn : d.cs ≤ n) (ho : other.take n = input.take n)
    (h : Primitive.extent d input hs = .ok total) : Primitive.extent d other hs = .ok total := by
  unfold Primitive.extent at h ⊢
  split at h
  · exact h
  · obtain ⟨digits, hdigits, h⟩ := bind_eq_ok.1 h
    exact bind_eq_ok.2 ⟨digits, part_of_take hn ho hdigits, h⟩

/-- A primitive is read from its selector and its own bytes. -/
theorem looks (hr : r.Loaded) (h : extract r input = .ok p) :
    Looks (r.FitsAt p.selector) input p.totalLength (fun other => extract r other = .ok p) := by
  obtain ⟨d, hlookup, hfind⟩ := lookup_of_extract h
  obtain ⟨hs, e, hhs, hselector, hd, hfs, hcode, htotal, hlen, hraw⟩ := extract_eq_ok_iff_steps.1 h
  obtain rfl := Except.ok.inj (hlookup.symm.trans hd)
  obtain ⟨first, hfirst, hcounter, hop, hsize⟩ := hardSize_eq_ok.1 hhs
  obtain ⟨hslen, -, hsel⟩ := codeText_eq_ok.1 hselector
  have hsound := hr.primitives.sound hfind
  obtain rfl : hs = d.hs := hsound.hs_of_take hslen ((hr.primitives.selector_eq hfind).trans hsel)
  have hpos := hsound.lead_le
  have hcs : d.cs ≤ p.totalLength := by
    rcases extent_eq_ok.1 htotal with hfs | ⟨-, -, -, quadlets, -, htotal⟩
    · exact hsound.cs_le hfs
    · omega
  refine ⟨max d.hs p.totalLength, Nat.le_max_right .., Nat.max_le.2 ⟨hslen, hlen⟩, fun hfit => ?_, fun other ho => ?_⟩
  · exact Nat.max_eq_right (Nat.le_trans (hfit hlookup).hs_le_cs hcs)
  have hown := Bytes.take_eq_of_le ho (Nat.le_max_right d.hs p.totalLength)
  have hown_len := Bytes.le_length_of_take_eq hown hlen
  refine extract_eq_ok_iff_steps.2 ⟨d.hs, d, ?_, codeText_of_take (Nat.le_max_left ..) ho hselector, hd, ?_,
    codeText_of_take hcs hown hcode, extent_of_take hcs hown htotal, hown_len, ?_⟩
  · exact hardSize_eq_ok.2 ⟨first, (Bytes.head?_eq_of_take_eq (by omega) ho).trans hfirst, hcounter, hop, hsize⟩
  · rcases extent_eq_ok.1 htotal with hfs | ⟨hfs, -⟩
    · rw [hfs]
      exact hown_len
    · rw [hfs]
      exact Nat.zero_le _
  · rw [Bytes.slice_eq_of_le hown (Nat.le_refl _)]
    exact hraw

theorem looks_of_fit (hr : r.Loaded) (h : extract r input = .ok p) :
    Looks r.PrimitivesFit input p.totalLength (fun other => extract r other = .ok p) :=
  (looks hr h).imp fun hfit => fitsAt_of_extract hfit h

theorem totalLength_pos (hr : r.Loaded) (hp : extract r input = .ok p) (hfits : r.FitsAt p.selector) :
    0 < p.totalLength := by
  obtain ⟨d, soft, hc, -⟩ := canonical_of_extract hr hp hfits
  obtain ⟨hsound, -, -⟩ := hc.facts hr
  exact Nat.lt_of_lt_of_le hsound.lead_le
    (Nat.le_trans hc.fits.hs_le_cs (grid_of_extent hsound hc.extent).2)

end Primitive

/-- A counter's code is found in the counter table, under the hard size that its first two characters announce. -/
theorem counter_descriptor (hr : r.Loaded) (hstart : input.head? = some counterStart) {hs : Nat}
    (hlen : hs ≤ input.length) {d : Descriptor} (hlookup : r.lookup (input.take hs) = .ok d) :
    hs = d.hs ∧ d.Sound 2 ∧ d.IsCounter := by
  cases hs with
  | zero =>
    -- no primitive has an empty code
    have hfind := (Registry.lookup_primitive (by rw [List.take_zero]; simp)).1 hlookup
    have hsound := hr.primitives.sound hfind
    have hlength := hsound.length_selector
    rw [hr.primitives.selector_eq hfind, List.take_zero, List.length_nil] at hlength
    have hpos := hsound.lead_le
    omega
  | succ n =>
    have hfind := (Registry.lookup_counter (by rw [List.head?_take, if_neg (by omega)]; exact hstart)).1 hlookup
    have hsound := hr.sound.counter.sound hfind
    exact ⟨hsound.hs_of_take hlen (hr.sound.counter.selector_eq hfind), hsound, hr.sound.counter.property hfind⟩

namespace Counter

theorem hardSize_eq_ok {hs : Nat} :
    hardSize r input = .ok hs ↔ input.head? = some counterStart ∧ r.selectorSize input = .ok hs := by
  cases input with
  | nil => exact ⟨fun h => (by cases h), fun h => (by cases h.1)⟩
  | cons first rest =>
    simp only [hardSize, List.head?_cons, Option.some.injEq]
    by_cases hf : first = counterStart
    · simp [hf]
    · simp only [hf, decide_false, Bool.false_or, decide_eq_true_eq, false_and, iff_false]
      split
      · next ho =>
        intro h
        exact ((Registry.selectorSize_primitive rest hf).1 h).1 ho
      · exact fun h => (by cases h)

theorem extract_eq_ok_iff_steps {c : Counter} :
    extract r input = .ok c ↔
      ∃ hs, input.head? = some counterStart ∧ r.selectorSize input = .ok hs ∧ codeText input hs = .ok c.selector ∧
        r.lookup c.selector = .ok c.descriptor ∧ codeText input c.descriptor.cs = .ok c.code ∧
        hs ≤ c.descriptor.cs ∧ readDigits (input.slice hs c.descriptor.cs) = .ok c.count := by
  unfold extract
  constructor
  · intro h
    obtain ⟨hs, hhs, h⟩ := bind_eq_ok.1 h
    obtain ⟨selector, hselector, h⟩ := bind_eq_ok.1 h
    obtain ⟨d, hd, h⟩ := bind_eq_ok.1 h
    obtain ⟨code, hcode, h⟩ := bind_eq_ok.1 h
    obtain ⟨digits, hdigits, h⟩ := bind_eq_ok.1 h
    obtain ⟨count, hcount, h⟩ := bind_eq_ok.1 h
    cases h
    obtain ⟨hstart, hsize⟩ := hardSize_eq_ok.1 hhs
    obtain ⟨hle, -, rfl⟩ := part_eq_ok.1 hdigits
    exact ⟨hs, hstart, hsize, hselector, hd, hcode, hle, hcount⟩
  · rintro ⟨hs, hstart, hsize, hselector, hd, hcode, hle, hcount⟩
    simp only [bind_eq_ok]
    exact ⟨hs, hardSize_eq_ok.2 ⟨hstart, hsize⟩, _, hselector, _, hd, _, hcode, _,
      part_eq_ok.2 ⟨hle, (codeText_eq_ok.1 hcode).1, rfl⟩, _, hcount, rfl⟩

/-- The counter is that of the code whose selector was looked up, with the number of its digits. -/
theorem descriptor_of_extract {c : Counter} (hc : extract r input = .ok c) {hs : Nat}
    (hsize : r.selectorSize input = .ok hs) {d : Descriptor} (hlookup : r.lookup (input.take hs) = .ok d) :
    c.descriptor = d ∧ readDigits (input.slice hs d.cs) = .ok c.count := by
  obtain ⟨hs', -, hsize', hselector, hd, -, -, hcount⟩ := extract_eq_ok_iff_steps.1 hc
  rw [hsize] at hsize'
  cases hsize'
  rw [(codeText_eq_ok.1 hselector).2.2, hlookup] at hd
  cases hd
  exact ⟨rfl, hcount⟩

end Counter

/-- The first two characters are enough to size the selector of a counter. -/
theorem selectorSize_of_take {n hs : Nat} (hn : 2 ≤ n) (hstart : input.head? = some counterStart)
    (ho : other.take n = input.take n) (h : r.selectorSize input = .ok hs) :
    other.head? = some counterStart ∧ r.selectorSize other = .ok hs := by
  obtain ⟨hlen, hsize⟩ := (Registry.selectorSize_counter hstart).1 h
  have htwo := Bytes.take_eq_of_le ho hn
  have hstart' := (Bytes.head?_eq_of_take_eq (by decide) htwo).trans hstart
  exact ⟨hstart', (Registry.selectorSize_counter hstart').2
    ⟨Bytes.le_length_of_take_eq htwo hlen, by rw [htwo]; exact hsize⟩⟩

/-- A counter is read from its code. -/
theorem Counter.extract_of_take (hr : r.Loaded) {c : Counter} (h : extract r input = .ok c) :
    c.codeLength ≤ input.length ∧
      ∀ other : Bytes, other.take c.codeLength = input.take c.codeLength → extract r other = .ok c := by
  obtain ⟨hs, hstart, hsize, hselector, hd, hcode, hle, hcount⟩ := extract_eq_ok_iff_steps.1 h
  obtain ⟨hslen, -, hsel⟩ := codeText_eq_ok.1 hselector
  obtain ⟨rfl, hsound, -⟩ := counter_descriptor hr hstart hslen (hsel ▸ hd)
  have htwo := hsound.lead_le
  refine ⟨(codeText_eq_ok.1 hcode).1, fun other ho => extract_eq_ok_iff_steps.2 ?_⟩
  obtain ⟨hstart', hsize'⟩ := selectorSize_of_take (Nat.le_trans htwo hle) hstart ho hsize
  exact ⟨_, hstart', hsize', codeText_of_take hle ho hselector, hd, codeText_of_take (Nat.le_refl _) ho hcode, hle,
    by rw [Bytes.slice_eq_of_le ho (show c.descriptor.cs ≤ c.codeLength from Nat.le_refl _)]; exact hcount⟩

/-! ## Seal source triples -/

namespace SealTriples

theorem looks_extractTriples (hr : r.Loaded) :
    ∀ (n : Nat) {input : Bytes} {triples : List SealTriple} {length : Nat},
      extractTriples r n input = .ok (triples, length) →
        Looks r.PrimitivesFit input length (fun other => extractTriples r n other = .ok (triples, length))
  | 0, _, _, _, h => by
    cases h
    exact .exact (Nat.zero_le _) fun _ _ => rfl
  | n + 1, input, triples, length, h => by
    unfold extractTriples at h
    obtain ⟨identifier, h1, h⟩ := bind_eq_ok.1 h
    obtain ⟨sequence, h2, h⟩ := bind_eq_ok.1 h
    obtain ⟨digest, h3, h⟩ := bind_eq_ok.1 h
    obtain ⟨⟨rest, restLength⟩, h4, h⟩ := bind_eq_ok.1 h
    cases h
    -- each reader sees what is left behind those before it
    have hlooks := (Primitive.looks_of_fit hr h1).seq
      ((Primitive.looks_of_fit hr h2).seq ((Primitive.looks_of_fit hr h3).seq (looks_extractTriples hr n h4)))
    rw [← Nat.add_assoc, ← Nat.add_assoc] at hlooks
    refine hlooks.mono fun other _ ⟨h1, h2, h3, h4⟩ => ?_
    unfold extractTriples
    simp only [bind_eq_ok]
    exact ⟨identifier, h1, sequence, h2, digest, h3, _, h4, rfl⟩

theorem extract_eq_ok {t : SealTriples} (h : extract r input = .ok t) :
    Counter.extract r input = .ok t.counter ∧ t.counter.codeLength ≤ t.length := by
  unfold extract at h
  obtain ⟨counter, hc, h⟩ := bind_eq_ok.1 h
  obtain ⟨⟨triples, length⟩, ht, h⟩ := bind_eq_ok.1 h
  cases h
  exact ⟨hc, Nat.le_add_right _ _⟩

theorem looks (hr : r.Loaded) {t : SealTriples} (h : extract r input = .ok t) :
    Looks r.PrimitivesFit input t.length (fun other => extract r other = .ok t) := by
  unfold extract at h
  obtain ⟨counter, hc, h⟩ := bind_eq_ok.1 h
  obtain ⟨⟨triples, length⟩, ht, h⟩ := bind_eq_ok.1 h
  cases h
  obtain ⟨hcl, hct⟩ := Counter.extract_of_take hr hc
  refine ((Looks.exact hcl hct).seq (looks_extractTriples hr _ ht)).mono fun other _ ⟨hc, ht⟩ => ?_
  unfold extract
  simp only [bind_eq_ok]
  exact ⟨counter, hc, _, ht, rfl⟩

end SealTriples

/-! ## Headers -/

theorem Header.asCode?_eq_some {header : Header} {h : CodeHeader} : header.asCode? = some h ↔ header = .code h := by
  cases header <;> simp [asCode?]

namespace CodeHeader

variable {d : Descriptor} {h : CodeHeader}

theorem read_eq_ok {text : Bytes} :
    read d text = .ok h ↔
      Bytes.isAscii text = true ∧ d.cs ≤ text.length ∧ d.hs ≤ d.cs ∧ ofDigits d (text.slice d.hs d.cs) = .ok h := by
  unfold read
  cases Bytes.isAscii text with
  | false => exact ⟨fun h => (by cases h), fun h => (by cases h.1)⟩
  | true =>
    by_cases hlen : text.length < d.cs
    · simp only [Bool.not_true, Bool.false_eq_true, if_false, if_pos hlen, true_and]
      exact ⟨fun h => (by cases h), fun h => absurd hlen (by omega)⟩
    · simp only [Bool.not_true, Bool.false_eq_true, if_false, if_neg hlen, true_and, bind_eq_ok, part_eq_ok]
      constructor
      · rintro ⟨_, ⟨hle, hcs, rfl⟩, hh⟩
        exact ⟨hcs, hle, hh⟩
      · rintro ⟨hcs, hle, hh⟩
        exact ⟨_, ⟨hle, hcs, rfl⟩, hh⟩

/-- A code that has a header does not wrap around. -/
theorem fits_of_read {lead : Nat} (hd : d.Sound lead) {text : Bytes} (hh : read d text = .ok h) : d.Fits :=
  hd.fits_of_le (read_eq_ok.1 hh).2.2.1

/-- The header of a code is that of its digits. -/
theorem read_code {lead : Nat} (hd : d.Sound lead) (hfits : d.Fits) {digits : Bytes} (hlength : digits.length = d.ss)
    (hascii : Bytes.isAscii digits = true) : read d (d.selector ++ digits) = ofDigits d digits := by
  have hcode : (d.selector ++ digits).length = d.cs := by
    rw [List.length_append, hd.length_selector, hlength, hfits.cs_eq]
  have hpart : part (d.selector ++ digits) d.hs d.cs = .ok digits := by
    refine part_eq_ok.2 ⟨hfits.hs_le_cs, Nat.le_of_eq hcode.symm, ?_⟩
    rw [Bytes.slice, ← hcode, List.take_length, ← hd.length_selector, List.drop_left]
  have hwhole : Bytes.isAscii (d.selector ++ digits) = true := by rw [Bytes.isAscii_append, hd.ascii, hascii]; rfl
  rw [read, hwhole, hpart, if_neg (by decide), if_neg (Nat.not_lt.2 (Nat.le_of_eq hcode.symm))]
  rfl

/-- The header of a counter, with its number multiplied if it has a multiplier. -/
theorem ofDigits_counter (hk : d.kind = .counter) {digits : Bytes} :
    ofDigits d digits = .ok h ↔
      ∃ n, readDigits digits = .ok n ∧
        ((d.multiplier = none ∧ h = { descriptor := d, digits, quadlets := some n, count := some n }) ∨
          ∃ text m, d.multiplier = some text ∧ Multiplier.ofString? text = some m ∧
            h = { descriptor := d, digits, count := some (m.apply n) }) := by
  simp only [ofDigits, hk, bind_eq_ok]
  refine exists_congr (fun n => and_congr_right (fun _ => ?_))
  cases d.multiplier with
  | none => simp [eq_comm, pure, Except.pure]
  | some text => cases hm : Multiplier.ofString? text <;> simp [hm, eq_comm, pure, Except.pure]

/-- A header keeps its descriptor and its digits, whatever it reads in them. -/
theorem parts_of_ofDigits {digits : Bytes} (hh : ofDigits d digits = .ok h) : h.descriptor = d ∧ h.digits = digits := by
  cases hk : d.kind with
  | counter =>
    obtain ⟨n, -, ⟨-, rfl⟩ | ⟨_, _, -, -, rfl⟩⟩ := (ofDigits_counter hk).1 hh <;> exact ⟨rfl, rfl⟩
  | fixedSize =>
    simp only [ofDigits, hk] at hh
    cases hh
    exact ⟨rfl, rfl⟩
  | version =>
    simp only [ofDigits, hk] at hh
    cases hh
    exact ⟨rfl, rfl⟩
  | variableSize =>
    simp only [ofDigits, hk] at hh
    obtain ⟨size, -, hh⟩ := bind_eq_ok.1 hh
    cases hh
    exact ⟨rfl, rfl⟩
  | indexer =>
    simp only [ofDigits, hk] at hh
    split at hh
    · obtain ⟨index, -, hh⟩ := bind_eq_ok.1 hh
      obtain ⟨ondex, -, hh⟩ := bind_eq_ok.1 hh
      cases hh
      exact ⟨rfl, rfl⟩
    · obtain ⟨index, -, hh⟩ := bind_eq_ok.1 hh
      cases hh
      exact ⟨rfl, rfl⟩

theorem descriptor_of_ofDigits {digits : Bytes} (hh : ofDigits d digits = .ok h) : h.descriptor = d :=
  (parts_of_ofDigits hh).1

theorem digits_of_ofDigits {digits : Bytes} (hh : ofDigits d digits = .ok h) : h.digits = digits :=
  (parts_of_ofDigits hh).2

theorem fixedLength_eq_ok {n : Nat} : h.fixedLength = .ok n ↔ h.descriptor.fs = some n := by
  unfold fixedLength
  cases h.descriptor.fs <;> simp

theorem kind_of_isGroup (hg : h.isGroup = true) : h.descriptor.kind = .counter := by
  rw [isGroup, Bool.and_eq_true] at hg
  simpa using hg.1

theorem kind_of_isFrame (hf : h.isFrame = true) : h.descriptor.kind = .counter := by
  rw [isFrame, Bool.and_eq_true, Bool.and_eq_true] at hf
  simpa using hf.1.1

theorem kind_of_opens (h' : (h.isFrame || h.isGroup) = true) : h.descriptor.kind = .counter :=
  (Bool.or_eq_true_iff.1 h').elim kind_of_isFrame kind_of_isGroup

/-- A group says how many values are in it. -/
theorem count_of_isGroup {digits : Bytes} (hh : ofDigits d digits = .ok h) (hg : h.isGroup = true) :
    ∃ n, h.count = some n := by
  have hk := kind_of_isGroup hg
  rw [descriptor_of_ofDigits hh] at hk
  obtain ⟨n, -, ⟨-, rfl⟩ | ⟨_, _, -, -, rfl⟩⟩ := (ofDigits_counter hk).1 hh <;> exact ⟨_, rfl⟩

end CodeHeader

/-! ## Values -/

namespace Value

/-- **What a value at the start of a span is**: as long as the span at most, with a code that takes some of it. -/
structure Framed (v : Value) (input : Bytes) : Prop where
  start_eq : v.start = 0
  length_pos : 0 < v.length
  length_le : v.length ≤ input.length
  code_pos : ∀ {h}, v.header = .code h → 0 < h.codeLength
  code_le : ∀ {h}, v.header = .code h → h.codeLength ≤ v.length
  count_of_group : ∀ {h}, v.header = .code h → h.isGroup = true → ∃ n, h.count = some n

theorem leadingText_eq_ok {n : Nat} {text : Bytes} :
    leadingText input n = .ok text ↔
      n ≤ input.length ∧ Utf8.isValid (input.take n) = true ∧ text = input.take n := by
  unfold leadingText
  rw [bind_eq_ok]
  constructor
  · rintro ⟨_, hn, h⟩
    split at h
    · next hvalid =>
      cases h
      exact ⟨ensure_eq_ok.1 hn, hvalid, rfl⟩
    · cases h
  · rintro ⟨hn, hvalid, rfl⟩
    exact ⟨(), ensure_eq_ok.2 hn, by rw [if_pos hvalid]⟩

theorem leadingText_of_take {text : Bytes} {m n : Nat} (hmn : m ≤ n) (ho : other.take n = input.take n)
    (h : leadingText input m = .ok text) : leadingText other m = .ok text := by
  obtain ⟨hlen, hvalid, htext⟩ := leadingText_eq_ok.1 h
  have hm := Bytes.take_eq_of_le ho hmn
  exact leadingText_eq_ok.2 ⟨Bytes.le_length_of_take_eq hm hlen, by rw [hm]; exact hvalid, by rw [hm]; exact htext⟩

theorem primitive_eq_ok_iff_steps {v : Value} :
    primitive r input = .ok v ↔
      ∃ p d h, Primitive.extract r input = .ok p ∧ r.lookup p.selector = .ok d ∧ CodeHeader.read d p.code = .ok h ∧
        v = ⟨.code h, 0, p.totalLength⟩ := by
  unfold primitive
  simp only [bind_eq_ok]
  constructor
  · rintro ⟨p, hp, d, hd, h, hh, hv⟩
    cases hv
    exact ⟨p, d, h, hp, hd, hh, rfl⟩
  · rintro ⟨p, d, h, hp, hd, hh, rfl⟩
    exact ⟨p, hp, d, hd, h, hh, rfl⟩

theorem counter_eq_ok_iff_steps {v : Value} :
    counter r input = .ok v ↔
      ∃ hs selector d text h, r.selectorSize input = .ok hs ∧ leadingText input hs = .ok selector ∧
        r.lookup selector = .ok d ∧ leadingText input d.cs = .ok text ∧ CodeHeader.read d text = .ok h ∧
        counterLength r input h = .ok v.length ∧ v.length ≤ input.length ∧ v = ⟨.code h, 0, v.length⟩ := by
  unfold counter
  simp only [bind_eq_ok]
  constructor
  · rintro ⟨hs, hhs, selector, hselector, d, hd, text, htext, h, hh, length, hlength, _, hle, hv⟩
    cases hv
    exact ⟨hs, selector, d, text, h, hhs, hselector, hd, htext, hh, hlength, ensure_eq_ok.1 hle, rfl⟩
  · rintro ⟨hs, selector, d, text, h, hhs, hselector, hd, htext, hh, hlength, hle, hv⟩
    exact ⟨hs, hhs, selector, hselector, d, hd, text, htext, h, hh, v.length, hlength, (), ensure_eq_ok.2 hle,
      congrArg Except.ok hv.symm⟩

/-! ### Primitives as values -/

/-- A value without a counter has the descriptor and the digits of a primitive. -/
theorem canonical_of_primitive (hr : r.Loaded) {v : Value} (hv : primitive r input = .ok v) :
    ∃ p h soft, Primitive.extract r input = .ok p ∧ Primitive.Canonical r h.descriptor soft p ∧
      input.take p.totalLength = h.descriptor.text soft p.raw ∧ CodeHeader.ofDigits h.descriptor soft = .ok h ∧
      v = ⟨.code h, 0, p.totalLength⟩ := by
  obtain ⟨p, d, h, hp, hd, hh, hv⟩ := primitive_eq_ok_iff_steps.1 hv
  obtain ⟨-, lead, hsound⟩ := Registry.sound_of_lookup hr hd
  obtain ⟨soft, hc, htext⟩ := Primitive.canonical_of_lookup hr hp hd (CodeHeader.fits_of_read hsound hh)
  rw [hc.code_eq, CodeHeader.read_code hsound hc.fits hc.length_soft hc.ascii_soft] at hh
  obtain rfl := CodeHeader.descriptor_of_ofDigits hh
  exact ⟨p, h, soft, hp, hc, htext, hh, hv⟩

theorem framed_primitive (hr : r.Loaded) {v : Value} (hv : primitive r input = .ok v) : v.Framed input := by
  obtain ⟨p, h, soft, hp, hc, -, hh, rfl⟩ := canonical_of_primitive hr hv
  obtain ⟨hsound, -, -⟩ := hc.facts hr
  obtain ⟨-, hle⟩ := Primitive.grid_of_extent hsound hc.extent
  have hpos : 0 < h.codeLength := Nat.lt_of_lt_of_le hsound.lead_le hc.fits.hs_le_cs
  refine ⟨rfl, Nat.lt_of_lt_of_le hpos hle, (Primitive.looks hr hp).le, ?_, ?_, ?_⟩ <;> intro h' heq <;> cases heq
  · exact hpos
  · exact hle
  · exact CodeHeader.count_of_isGroup hh

/-- A primitive that is a value has a header, so its code does not wrap around. -/
theorem looks_primitive (hr : r.Loaded) {v : Value} (hv : primitive r input = .ok v) {fit : Prop} :
    Looks fit input v.length (fun other => primitive r other = .ok v) := by
  obtain ⟨p, d, h, hp, hd, hh, rfl⟩ := primitive_eq_ok_iff_steps.1 hv
  obtain ⟨-, lead, hsound⟩ := Registry.sound_of_lookup hr hd
  have hfits : r.FitsAt p.selector := fun he => Except.ok.inj (hd.symm.trans he) ▸ CodeHeader.fits_of_read hsound hh
  exact ((Primitive.looks hr hp).mono fun other _ hp =>
    primitive_eq_ok_iff_steps.2 ⟨p, d, h, hp, hd, hh, rfl⟩).imp fun _ => hfits

/-! ### Counters as values -/

/-- The extent that a counter's header gives it covers its code. -/
theorem cs_le_totalLength {d : Descriptor} (hd : d.Sound 2) (hk : d.kind = .counter ∨ d.kind = .version)
    {h : CodeHeader} (hh : h.descriptor = d) {n : Nat} (hn : h.totalLength = .ok n) : d.cs ≤ n := by
  subst hh
  have hfixed : ∀ {n}, h.fixedLength = .ok n → h.descriptor.cs ≤ n :=
    fun hn => hd.cs_le (CodeHeader.fixedLength_eq_ok.1 hn)
  unfold CodeHeader.totalLength at hn
  rcases hk with hk | hk
  · simp only [hk] at hn
    split at hn
    · cases hn
      exact Nat.le_add_right _ _
    · exact hfixed hn
  · simp only [hk] at hn
    exact hfixed hn

theorem sealTriplesLength_eq_ok {n : Nat} :
    sealTriplesLength r input = .ok n ↔ ∃ t, SealTriples.extract r input = .ok t ∧ t.length = n := by
  unfold sealTriplesLength
  cases SealTriples.extract r input with
  | ok t => simp
  | error e => cases e <;> simp

/-- A counter named after the triples behind it, and as long as they are. -/
def IsTriples (v : Value) : Prop :=
  ∃ h, v.header = .code h ∧ h.descriptor.selector.head? = some counterStart ∧
    h.descriptor.name = some sealTriplesName

/-- The extent of a counter covers its code, and is found by looking at what it covers. -/
theorem looks_counterLength (hr : r.Loaded) (hstart : input.head? = some counterStart) {hs n : Nat}
    (hsize : r.selectorSize input = .ok hs) (hlen : hs ≤ input.length) {d : Descriptor}
    (hlookup : r.lookup (input.take hs) = .ok d) {h : CodeHeader} (hh : h.descriptor = d)
    (hn : counterLength r input h = .ok n) (hle : n ≤ input.length) :
    d.cs ≤ n ∧ Looks (d.name = some sealTriplesName → r.PrimitivesFit) input n
      (fun other => counterLength r other h = .ok n) := by
  subst hh
  unfold counterLength at hn ⊢
  split at hn
  · next hname =>
    obtain ⟨t, ht, rfl⟩ := sealTriplesLength_eq_ok.1 hn
    obtain ⟨hc, hcl⟩ := SealTriples.extract_eq_ok ht
    -- the counter of the triples is the one whose header was read
    obtain ⟨hd, -⟩ := Counter.descriptor_of_extract hc hsize hlookup
    refine ⟨hd ▸ hcl, ((SealTriples.looks hr ht).mono fun other _ ht => ?_).imp fun hfit => hfit hname⟩
    rw [if_pos hname]
    exact sealTriplesLength_eq_ok.2 ⟨t, ht, rfl⟩
  · next hname =>
    obtain ⟨-, hsound, -, hk, -⟩ := counter_descriptor hr hstart hlen hlookup
    refine ⟨cs_le_totalLength hsound hk rfl hn, .exact hle fun other _ => ?_⟩
    rw [if_neg hname]
    exact hn

/-- **The steps of the reader of counters**, each with the sizes of the header's own descriptor. -/
structure CounterSteps (r : Registry) (input : Bytes) (v : Value) (h : CodeHeader) : Prop where
  size : r.selectorSize input = .ok h.descriptor.hs
  selector : leadingText input h.descriptor.hs = .ok (input.take h.descriptor.hs)
  lookup : r.lookup (input.take h.descriptor.hs) = .ok h.descriptor
  sound : h.descriptor.Sound 2
  isCounter : h.descriptor.IsCounter
  code : leadingText input h.descriptor.cs = .ok (input.take h.descriptor.cs)
  read : CodeHeader.read h.descriptor (input.take h.descriptor.cs) = .ok h
  counted : counterLength r input h = .ok v.length
  length_le : v.length ≤ input.length
  value_eq : v = ⟨.code h, 0, v.length⟩

theorem exists_counterSteps (hr : r.Loaded) (hstart : input.head? = some counterStart) {v : Value}
    (hv : counter r input = .ok v) : ∃ h, CounterSteps r input v h := by
  obtain ⟨hs, selector, d, text, h, hsize, hselector, hd, htext, hh, hlength, hle, hval⟩ :=
    counter_eq_ok_iff_steps.1 hv
  obtain ⟨hslen, -, rfl⟩ := leadingText_eq_ok.1 hselector
  obtain ⟨-, -, rfl⟩ := leadingText_eq_ok.1 htext
  obtain ⟨rfl, hsound, hcounter⟩ := counter_descriptor hr hstart hslen hd
  obtain rfl := CodeHeader.descriptor_of_ofDigits (CodeHeader.read_eq_ok.1 hh).2.2.2
  exact ⟨h, hsize, hselector, hd, hsound, hcounter, htext, hh, hlength, hle, hval⟩

theorem CounterSteps.fits {v : Value} {h : CodeHeader} (hc : CounterSteps r input v h) : h.descriptor.Fits :=
  CodeHeader.fits_of_read hc.sound hc.read

theorem CounterSteps.looks_counterLength (hr : r.Loaded) (hstart : input.head? = some counterStart) {v : Value}
    {h : CodeHeader} (hc : CounterSteps r input v h) :
    h.descriptor.cs ≤ v.length ∧ Looks (h.descriptor.name = some sealTriplesName → r.PrimitivesFit) input v.length
      (fun other => counterLength r other h = .ok v.length) :=
  Value.looks_counterLength hr hstart hc.size (leadingText_eq_ok.1 hc.selector).1 hc.lookup rfl hc.counted hc.length_le

theorem CounterSteps.digits_eq {v : Value} {h : CodeHeader} (hc : CounterSteps r input v h) :
    h.digits = input.slice h.descriptor.hs h.descriptor.cs := by
  rw [CodeHeader.digits_of_ofDigits (CodeHeader.read_eq_ok.1 hc.read).2.2.2, Bytes.slice, List.take_take, Nat.min_self,
    Bytes.slice]

/-- The header says how long the value is, unless it is named after the triples behind it. -/
theorem CounterSteps.totalLength {v : Value} {h : CodeHeader} (hc : CounterSteps r input v h)
    (hname : h.descriptor.name ≠ some sealTriplesName) : h.totalLength = .ok v.length := by
  have hcounted := hc.counted
  rw [counterLength, if_neg hname] at hcounted
  exact hcounted

theorem framed_counter (hr : r.Loaded) (hstart : input.head? = some counterStart) {v : Value}
    (hv : counter r input = .ok v) :
    v.Framed input ∧ Looks (v.IsTriples → r.PrimitivesFit) input v.length (fun other => counter r other = .ok v) := by
  obtain ⟨h, hc⟩ := exists_counterSteps hr hstart hv
  obtain ⟨hcs, hlooks⟩ := hc.looks_counterLength hr hstart
  have htwo := hc.sound.lead_le
  have hhscs := hc.fits.hs_le_cs
  have hheader : v.header = .code h := by rw [hc.value_eq]
  have hcode : h.codeLength = h.descriptor.cs := rfl
  refine ⟨⟨by rw [hc.value_eq], by omega, hc.length_le, ?_, ?_, ?_⟩,
    (hlooks.mono fun other ho hcounted => ?_).imp fun hfit hname => hfit ⟨h, hheader, hc.isCounter.1, hname⟩⟩
  · intro h' heq
    rw [hheader] at heq
    cases heq
    omega
  · intro h' heq
    rw [hheader] at heq
    cases heq
    omega
  · intro h' heq
    rw [hheader] at heq
    cases heq
    exact CodeHeader.count_of_isGroup (CodeHeader.read_eq_ok.1 hc.read).2.2.2
  · have hsize := (selectorSize_of_take (by omega) hstart ho hc.size).2
    exact counter_eq_ok_iff_steps.2 ⟨_, _, _, _, h, hsize, leadingText_of_take (by omega) ho hc.selector, hc.lookup,
      leadingText_of_take hcs ho hc.code, hc.read, hcounted, Bytes.le_length_of_take_eq ho hc.length_le,
      hc.value_eq⟩

/-- What is ASCII is UTF-8. -/
theorem leadingText_of_codeText {n : Nat} {text : Bytes} (h : codeText input n = .ok text) :
    leadingText input n = .ok text := by
  obtain ⟨hlen, hascii, htext⟩ := codeText_eq_ok.1 h
  exact leadingText_eq_ok.2 ⟨hlen, Utf8.isValid_of_isAscii _ hascii, htext⟩

section Code

variable (hr : r.Loaded) {d : Descriptor} (hfind : r.tables.counter.codes.find? d.selector = some d) (hfits : d.Fits)
  {digits : Bytes} (hlength : digits.length = d.ss) (hascii : Bytes.isAscii digits = true)
include hr hfind hfits hlength hascii

/-- The code of a counter is cut into its selector and its digits, whatever follows it. -/
theorem counter_code (rest : Bytes) :
    (d.selector ++ digits ++ rest).head? = some counterStart ∧
      r.selectorSize (d.selector ++ digits ++ rest) = .ok d.hs ∧
      codeText (d.selector ++ digits ++ rest) d.hs = .ok d.selector ∧ r.lookup d.selector = .ok d ∧
      codeText (d.selector ++ digits ++ rest) d.cs = .ok (d.selector ++ digits) ∧
      (d.selector ++ digits ++ rest).slice d.hs d.cs = digits := by
  have hsound := hr.sound.counter.sound hfind
  obtain ⟨hstart, -, -⟩ := hr.sound.counter.property hfind
  have hcode : (d.selector ++ digits).length = d.cs := by
    rw [List.length_append, hsound.length_selector, hlength, hfits.cs_eq]
  have htwo := hsound.lead_le
  have hlead := hfits.hs_le_cs
  have hselector : (d.selector ++ digits ++ rest).take d.hs = d.selector := by
    rw [List.append_assoc, ← hsound.length_selector, List.take_left]
  have htext : (d.selector ++ digits ++ rest).take d.cs = d.selector ++ digits := by rw [← hcode, List.take_left]
  have hhead : (d.selector ++ digits ++ rest).head? = some counterStart := by
    rw [List.append_assoc, List.head?_append, hstart]
    rfl
  have hlen : d.cs ≤ (d.selector ++ digits ++ rest).length := by
    rw [List.length_append, hcode]
    exact Nat.le_add_right _ _
  have hasciiText : Bytes.isAscii (d.selector ++ digits) = true := by
    rw [Bytes.isAscii_append, hsound.ascii, hascii]
    rfl
  refine ⟨hhead, (Registry.selectorSize_counter hhead).2 ⟨by omega, ?_⟩, ?_, (Registry.lookup_counter hstart).2 hfind,
    ?_, ?_⟩
  · rw [Bytes.take_eq_of_le (b := d.selector ++ digits ++ rest) (c := d.selector) (n := d.hs)
      (by rw [hselector, ← hsound.length_selector, List.take_length]) htwo]
    exact hr.sound.counter.hardSize hfind
  · exact codeText_eq_ok.2 ⟨by omega, by rw [hselector]; exact hsound.ascii, hselector.symm⟩
  · exact codeText_eq_ok.2 ⟨hlen, by rw [htext]; exact hasciiText, htext.symm⟩
  · rw [Bytes.slice, htext, ← hsound.length_selector, List.drop_left]

/-- A counter is read where its extent is found, and there. -/
theorem counter_of_code {h : CodeHeader} (hh : CodeHeader.ofDigits d digits = .ok h) {rest : Bytes} {n : Nat}
    (hn : counterLength r (d.selector ++ digits ++ rest) h = .ok n) (hle : n ≤ (d.selector ++ digits ++ rest).length) :
    coded r (d.selector ++ digits ++ rest) = .ok ⟨.code h, 0, n⟩ := by
  obtain ⟨hhead, hsize, hselector, hlookup, htext, -⟩ := counter_code hr hfind hfits hlength hascii rest
  rw [coded, if_pos hhead]
  exact counter_eq_ok_iff_steps.2 ⟨d.hs, d.selector, d, d.selector ++ digits, h, hsize,
    leadingText_of_codeText hselector, hlookup, leadingText_of_codeText htext,
    (CodeHeader.read_code (hr.sound.counter.sound hfind) hfits hlength hascii).trans hh, hn, hle, rfl⟩

end Code

/-- **A counter is read from its selector, its digits and what they count.** -/
theorem counter_of_text (hr : r.Loaded) {d : Descriptor} (hfind : r.tables.counter.codes.find? d.selector = some d)
    (hfits : d.Fits) (hname : d.name ≠ some sealTriplesName) {digits : Bytes} (hlength : digits.length = d.ss)
    (hascii : Bytes.isAscii digits = true) {h : CodeHeader} (hh : CodeHeader.ofDigits d digits = .ok h) {n : Nat}
    (hn : h.totalLength = .ok n) {rest : Bytes} (hrest : d.cs + rest.length = n) :
    coded r (d.selector ++ digits ++ rest) = .ok ⟨.code h, 0, n⟩ := by
  refine counter_of_code hr hfind hfits hlength hascii hh ?_ ?_
  · rw [counterLength, CodeHeader.descriptor_of_ofDigits hh, if_neg hname]
    exact hn
  · rw [List.length_append, List.length_append, (hr.sound.counter.sound hfind).length_selector, hlength, ← hfits.cs_eq]
    exact Nat.le_of_eq hrest.symm

/-! ### Any value -/

/-- **What has a code is framed, and read from its own bytes.** -/
theorem framed_coded (hr : r.Loaded) {v : Value} (hv : coded r input = .ok v) :
    v.Framed input ∧ Looks (v.IsTriples → r.PrimitivesFit) input v.length (fun other => coded r other = .ok v) := by
  unfold coded at hv
  split at hv
  · next hstart =>
    obtain ⟨hf, hlooks⟩ := framed_counter hr hstart hv
    refine ⟨hf, hlooks.mono fun other ho hcounter => ?_⟩
    rw [coded, if_pos ((Bytes.head?_eq_of_take_eq hf.length_pos ho).trans hstart)]
    exact hcounter
  · next hstart =>
    have hf := framed_primitive hr hv
    refine ⟨hf, (looks_primitive hr hv).mono fun other ho hprimitive => ?_⟩
    rw [coded, if_neg (by rw [Bytes.head?_eq_of_take_eq hf.length_pos ho]; exact hstart)]
    exact hprimitive

theorem serialization_eq_ok {v : Value} :
    serialization input = .ok v ↔
      ∃ h, VersionHeader.read input = .ok h ∧ h.size ≤ input.length ∧ v = ⟨.version h, 0, h.size⟩ := by
  unfold serialization
  simp only [bind_eq_ok]
  constructor
  · rintro ⟨h, hh, _, hlen, hv⟩
    cases hv
    exact ⟨h, hh, ensure_eq_ok.1 hlen, rfl⟩
  · rintro ⟨h, hh, hlen, rfl⟩
    exact ⟨h, hh, (), ensure_eq_ok.2 hlen, rfl⟩

end Value

namespace VersionHeader

theorem read_eq_ok {h : VersionHeader} :
    VersionHeader.read input = .ok h ↔
      windowSize ≤ input.length ∧ fits (input.take windowSize) = true ∧ kindOf (input.take windowSize) = json ∧
        (Hex.decodeNat (digitsOf (input.take windowSize))).mapError DecodeError.text = .ok h.size ∧
        windowSize ≤ h.size ∧ h.protocol = protocolOf (input.take windowSize) ∧
        h.kind = kindOf (input.take windowSize) ∧ h.digits = digitsOf (input.take windowSize) := by
  unfold VersionHeader.read
  constructor
  · intro hh
    split at hh
    · cases hh
    next hlen =>
    dsimp only at hh
    split at hh
    · cases hh
    next hfits =>
    split at hh
    · cases hh
    next hkind =>
    obtain ⟨size, hsize, hh⟩ := bind_eq_ok.1 hh
    split at hh
    · cases hh
    next hle =>
    cases hh
    exact ⟨Nat.not_lt.1 hlen, by simpa using hfits, Decidable.not_not.1 hkind, hsize, Nat.not_lt.1 hle, rfl, rfl, rfl⟩
  · rintro ⟨hlen, hfits, hkind, hsize, hle, hprotocol, hkind', hdigits⟩
    rw [if_neg (Nat.not_lt.2 hlen)]
    simp only [hfits, Bool.not_true, Bool.false_eq_true, if_false, hkind, ne_eq, not_true_eq_false]
    refine bind_eq_ok.2 ⟨h.size, hsize, ?_⟩
    rw [if_neg (Nat.not_lt.2 hle), ← hprotocol, ← hdigits, ← hkind, ← hkind']
    rfl

/-- A version string lies in its window, and says that the serialization covers the window. -/
theorem read_of_take {h : VersionHeader} (hh : VersionHeader.read input = .ok h) :
    windowSize ≤ h.size ∧
      ∀ other : Bytes, other.take windowSize = input.take windowSize → VersionHeader.read other = .ok h := by
  obtain ⟨hlen, hrest⟩ := read_eq_ok.1 hh
  refine ⟨hrest.2.2.2.1, fun other ho => read_eq_ok.2 ⟨Bytes.le_length_of_take_eq ho hlen, ?_⟩⟩
  rw [ho]
  exact hrest

/-- It starts with a brace. -/
theorem head?_of_read {h : VersionHeader} (hh : VersionHeader.read input = .ok h) :
    input.head? = some '\x7b'.toUInt8 := by
  obtain ⟨-, hfits, -⟩ := read_eq_ok.1 hh
  cases input with
  | nil => cases hh
  | cons c rest =>
    have hpattern : pattern = (fun x => x == '\x7b'.toUInt8) :: pattern.tail := rfl
    rw [fits, Bool.and_eq_true, windowSize, List.take_succ_cons, hpattern, List.zip_cons_cons, List.all_cons,
      Bool.and_eq_true] at hfits
    have hbrace : c = '\x7b'.toUInt8 := eq_of_beq hfits.2.1
    rw [List.head?_cons, hbrace]

end VersionHeader

namespace Value

theorem framed_serialization {v : Value} (hv : serialization input = .ok v) :
    v.Framed input ∧ ∀ other : Bytes, other.take v.length = input.take v.length → serialization other = .ok v := by
  obtain ⟨h, hh, hlen, rfl⟩ := serialization_eq_ok.1 hv
  obtain ⟨hwindow, htake⟩ := VersionHeader.read_of_take hh
  refine ⟨⟨rfl, Nat.lt_of_lt_of_le (by decide) hwindow, hlen, ?_, ?_, ?_⟩, fun other ho => ?_⟩
  · intro h' heq
    cases heq
  · intro h' heq
    cases heq
  · intro h' heq
    cases heq
  · exact serialization_eq_ok.2 ⟨h, htake other (Bytes.take_eq_of_le ho hwindow),
      Bytes.le_length_of_take_eq ho hlen, rfl⟩

/-- The first byte says how what follows is read. -/
theorem sniff_of_head? {first : UInt8} (h : input.head? = some first) :
    sniff r input =
      match ColdStart.ofByte first with
      | .countText => coded r input
      | .json => serialization input
      | other => .error (.unsupportedColdStart other.tritet) := by
  cases input with
  | nil => cases h
  | cons c rest =>
    cases h
    rfl

/-- **What stands at the start of a span of which nothing is known is framed, and read from its own bytes.** -/
theorem framed_sniff (hr : r.Loaded) {v : Value} (hv : sniff r input = .ok v) :
    v.Framed input ∧ Looks (v.IsTriples → r.PrimitivesFit) input v.length (fun other => sniff r other = .ok v) := by
  cases input with
  | nil => cases hv
  | cons first rest =>
    rw [sniff_of_head? rfl] at hv
    split at hv
    · next hcold =>
      obtain ⟨hf, hlooks⟩ := framed_coded hr hv
      refine ⟨hf, hlooks.mono fun other ho hcoded => ?_⟩
      rw [sniff_of_head? (Bytes.head?_eq_of_take_eq hf.length_pos ho), hcold]
      exact hcoded
    · next hcold =>
      obtain ⟨hf, htake⟩ := framed_serialization hv
      refine ⟨hf, .exact hf.length_le fun other ho => ?_⟩
      rw [sniff_of_head? (Bytes.head?_eq_of_take_eq hf.length_pos ho), hcold]
      exact htake other ho
    · cases hv

end Value
end Quadlet
