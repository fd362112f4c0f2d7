import Mathlib.Algebra.GroupWithZero.Nat
import Quadlet.Proofs.UrlText
/-!
# Sizing — the span of a value follows from its header

The length of a value is found twice: where its bytes are cut from the input, and from the header alone.  For a
primitive the two agree whatever its kind is, since a code of variable size has no full size and every other one has one
(`totalLength_of_primitive`).  A counter is cut by its header (`CounterSteps.totalLength`), but for the counter of seal
source triples: that one reaches over a row of primitives behind its code, three for each that its digits count
(`CounterSteps.row`).
-/
namespace Quadlet

variable {r : Registry} {input : Bytes}

/-! ## Rows -/

/-- The primitives stand one behind the other at the start of the input. -/
def Row (r : Registry) : List Primitive → Bytes → Prop
  | [], _ => True
  | p :: ps, input => Primitive.extract r input = .ok p ∧ Row r ps (input.drop p.totalLength)

def rowLength (ps : List Primitive) : Nat := (ps.map Primitive.totalLength).sum

theorem rowLength_cons (p : Primitive) (ps : List Primitive) : rowLength (p :: ps) = p.totalLength + rowLength ps := by
  rw [rowLength, List.map_cons, List.sum_cons, rowLength]

def SealTriple.members (t : SealTriple) : List Primitive := [t.identifier, t.sequence, t.digest]

/-- Triples are a row of three times as many primitives. -/
theorem SealTriples.row_of_extractTriples {r : Registry} :
    ∀ (n : Nat) {input : Bytes} {triples : List SealTriple} {length : Nat},
      extractTriples r n input = .ok (triples, length) →
        Row r (triples.flatMap SealTriple.members) input ∧ (triples.flatMap SealTriple.members).length = 3 * n ∧
          rowLength (triples.flatMap SealTriple.members) = length
  | 0, _, _, _, h => by
    cases h
    exact ⟨trivial, rfl, rfl⟩
  | n + 1, input, triples, length, h => by
    unfold extractTriples at h
    obtain ⟨identifier, h1, h⟩ := bind_eq_ok.1 h
    obtain ⟨sequence, h2, h⟩ := bind_eq_ok.1 h
    obtain ⟨digest, h3, h⟩ := bind_eq_ok.1 h
    obtain ⟨⟨rest, restLength⟩, h4, h⟩ := bind_eq_ok.1 h
    cases h
    obtain ⟨hrow, hcount, hlength⟩ := row_of_extractTriples n h4
    rw [List.flatMap_cons, SealTriple.members, List.cons_append, List.cons_append, List.cons_append, List.nil_append]
    refine ⟨⟨h1, h2, h3, hrow⟩, ?_, ?_⟩
    · simp only [List.length_cons, hcount]
      omega
    · simp only [rowLength_cons, hlength]
      omega

/-- What triples are: their counter, and a row behind it. -/
theorem SealTriples.row_of_extract {t : SealTriples} (h : extract r input = .ok t) :
    Counter.extract r input = .ok t.counter ∧ ∃ members : List Primitive, members.length = 3 * t.counter.count ∧
      Row r members (input.drop t.counter.codeLength) ∧ t.length = t.counter.codeLength + rowLength members := by
  unfold extract at h
  obtain ⟨counter, hcounter, h⟩ := bind_eq_ok.1 h
  obtain ⟨⟨triples, length⟩, htriples, h⟩ := bind_eq_ok.1 h
  cases h
  obtain ⟨hrow, hcount, hlength⟩ := row_of_extractTriples _ htriples
  exact ⟨hcounter, _, hcount, hrow, by rw [hlength]⟩

/-! ## Headers -/

namespace CodeHeader

variable {d : Descriptor} {h : CodeHeader} {digits : Bytes}

/-- The header of a code of variable size says how many quadlets its digits count. -/
theorem size_of_ofDigits (hk : d.kind = .variableSize) (hh : ofDigits d digits = .ok h) :
    ∃ size, Numeral.read digits = .ok size ∧ h.size = some size := by
  simp only [ofDigits, hk] at hh
  obtain ⟨size, hsize, hh⟩ := bind_eq_ok.1 hh
  cases hh
  exact ⟨size, mapError_eq_ok.1 hsize, rfl⟩

/-- A header that is not one of a counter or of variable size gives the value the full size of its code. -/
theorem totalLength_of_fs (hk : h.descriptor.kind ≠ .variableSize) (hcounter : h.descriptor.kind ≠ .counter)
    {fs : Nat} (hfs : h.descriptor.fs = some fs) : h.totalLength = .ok fs := by
  unfold totalLength
  cases hkind : h.descriptor.kind with
  | variableSize => exact absurd hkind hk
  | counter => exact absurd hkind hcounter
  | _ => exact fixedLength_eq_ok.2 hfs

theorem totalLength_of_size (hk : h.descriptor.kind = .variableSize) {size : Nat} (hsize : h.size = some size) :
    h.totalLength = .ok (h.codeLength + 4 * size) := by
  simp only [totalLength, hk, hsize]

end CodeHeader

namespace Value

open Primitive (Canonical)

/-! ## Primitives -/

/-- **The header of a primitive gives the length that its bytes were cut to**, and where its digits size it, they are
what is added to the code. -/
theorem totalLength_of_primitive (hr : r.Loaded) {p : Primitive} {h : CodeHeader} {soft : Bytes}
    (hc : Canonical r h.descriptor soft p) (hh : CodeHeader.ofDigits h.descriptor soft = .ok h) :
    h.totalLength = .ok p.totalLength ∧
      (h.descriptor.kind = .variableSize → ∃ size, h.size = some size ∧ p.totalLength = h.codeLength + 4 * size) := by
  rcases hc.isPrimitive hr with ⟨hk, hfs⟩ | ⟨hk, hfs⟩
  · -- the digits were read for the length and for the header
    obtain ⟨size, hread, hsize⟩ := CodeHeader.size_of_ofDigits hk hh
    rcases hc.extent with hfs' | ⟨-, quadlets, hquadlets, htotal⟩
    · rw [hfs] at hfs'
      cases hfs'
    · rw [hread] at hquadlets
      cases hquadlets
      rw [CodeHeader.totalLength_of_size hk hsize, htotal]
      exact ⟨rfl, fun _ => ⟨size, hsize, rfl⟩⟩
  · have hvariable : h.descriptor.kind ≠ .variableSize := by rcases hk with hk | hk <;> rw [hk] <;> decide
    rcases hc.extent with hfs' | ⟨hnone, -⟩
    · exact ⟨CodeHeader.totalLength_of_fs hvariable (hc.isPrimitive hr).kind_ne.1 hfs', fun hk => absurd hk hvariable⟩
    · rw [hnone] at hfs
      cases hfs

/-! ## Counters -/

namespace CounterSteps

variable {v : Value} {h : CodeHeader}

/-- **A counter of triples reaches over a row**, of three times as many primitives as its digits say. -/
theorem row (hc : CounterSteps r input v h) (hname : h.descriptor.name = some sealTriplesName) :
    ∃ (count : Nat) (members : List Primitive), readDigits h.digits = .ok count ∧ members.length = 3 * count ∧
      Row r members (input.drop h.codeLength) ∧ v.length = h.codeLength + rowLength members := by
  have hcounted := hc.counted
  rw [counterLength, if_pos hname] at hcounted
  obtain ⟨t, ht, htlength⟩ := sealTriplesLength_eq_ok.1 hcounted
  obtain ⟨hcounter, members, hmembers, hrow, hreach⟩ := SealTriples.row_of_extract ht
  -- the counter of the triples is the one whose header was read
  obtain ⟨hdescriptor, hcount⟩ := Counter.descriptor_of_extract hcounter hc.size hc.lookup
  have hcode : t.counter.codeLength = h.codeLength := by
    rw [Counter.codeLength, hdescriptor]
    rfl
  rw [hcode] at hrow hreach
  exact ⟨t.counter.count, members, by rw [hc.digits_eq]; exact hcount, hmembers, hrow, htlength.symm.trans hreach⟩

/-- The descriptor of a counter stands in the table of counters, under the start of the input. -/
theorem find?_codes (hc : CounterSteps r input v h) (hstart : input.head? = some counterStart) :
    r.tables.counter.codes.find? (input.take h.descriptor.hs) = some h.descriptor := by
  have htwo := hc.sound.lead_le
  have hhead : (input.take h.descriptor.hs).head? = some counterStart := by
    rw [List.head?_take, if_neg (by omega)]
    exact hstart
  exact (Registry.lookup_counter hhead).1 hc.lookup

theorem mem_codes (hc : CounterSteps r input v h) (hstart : input.head? = some counterStart) :
    h.descriptor ∈ r.tables.counter.codes.values := KeyMap.mem_values.2 ⟨_, hc.find?_codes hstart⟩

/-- A counter is as long as its code fixes, or it counts quadlets behind its code. -/
theorem fs_or_quadlets (hc : CounterSteps r input v h) (hname : h.descriptor.name ≠ some sealTriplesName) :
    (h.descriptor.kind = .version ∨ h.isGroup = true) ∧ h.descriptor.fs = some v.length ∨
      h.descriptor.kind = .counter ∧ h.isGroup = false ∧ ∃ quadlets, v.length = h.codeLength + 4 * quadlets := by
  have htotal := hc.totalLength hname
  obtain ⟨-, hk | hk, -⟩ := hc.isCounter
  · -- a counter with a multiplier counts no quadlets
    obtain ⟨n, -, ⟨hnone, hh⟩ | ⟨text, m, hmultiplier, -, hh⟩⟩ :=
      (CodeHeader.ofDigits_counter hk).1 (CodeHeader.read_eq_ok.1 hc.read).2.2.2
    · have hquadlets : h.quadlets = some n := by rw [hh]
      simp only [CodeHeader.totalLength, hk, hquadlets] at htotal
      exact .inr ⟨hk, by simp [CodeHeader.isGroup, hnone], n, (Except.ok.inj htotal).symm⟩
    · have hquadlets : h.quadlets = none := by rw [hh]
      simp only [CodeHeader.totalLength, hk, hquadlets] at htotal
      exact .inl ⟨.inr (by simp [CodeHeader.isGroup, hk, hmultiplier]), CodeHeader.fixedLength_eq_ok.1 htotal⟩
  · simp only [CodeHeader.totalLength, hk] at htotal
    exact .inl ⟨.inl hk, CodeHeader.fixedLength_eq_ok.1 htotal⟩

theorem kind_ne_variableSize (hc : CounterSteps r input v h) : h.descriptor.kind ≠ .variableSize := by
  obtain ⟨-, hk | hk, -⟩ := hc.isCounter <;> rw [hk] <;> decide

end CounterSteps

/-! ## Any value -/

/-- The value is the counter whose extent is that of the triples behind it. -/
def CountsTriples (input : Bytes) (h : CodeHeader) : Prop :=
  input.head? = some counterStart ∧ h.descriptor.name = some sealTriplesName

/-- **The sizing rule**: how the length of a value at the start of an input follows from its header, and what the header
of a primitive has from the primitive. -/
structure Sized (r : Registry) (input : Bytes) (h : CodeHeader) (length : Nat) : Prop where
  code_le : h.codeLength ≤ length
  total : ¬CountsTriples input h → h.totalLength = .ok length
  triples : CountsTriples input h →
    ∃ (count : Nat) (members : List Primitive), readDigits h.digits = .ok count ∧ members.length = 3 * count ∧
      Row r members (input.drop h.codeLength) ∧ length = h.codeLength + rowLength members
  primitive : input.head? ≠ some counterStart →
    ∃ p, Primitive.extract r input = .ok p ∧ p.selector = h.descriptor.selector ∧ p.code = p.selector ++ h.digits ∧
      p.code.length = h.codeLength ∧ p.totalLength = length
  variableSize : h.descriptor.kind = .variableSize → ∃ size, h.size = some size ∧ length = h.codeLength + 4 * size

theorem sized_of_primitive (hr : r.Loaded) (hstart : input.head? ≠ some counterStart) {v : Value}
    (hv : primitive r input = .ok v) : ∃ h, v.header = .code h ∧ Sized r input h v.length := by
  obtain ⟨p, h, soft, hp, hc, -, hh, rfl⟩ := canonical_of_primitive hr hv
  obtain ⟨htotal, hsize⟩ := totalLength_of_primitive hr hc hh
  obtain rfl := CodeHeader.digits_of_ofDigits hh
  refine ⟨h, rfl, (Primitive.grid_of_extent (hc.facts hr).1 hc.extent).2, fun _ => htotal,
    fun htriples => absurd htriples.1 hstart, fun _ => ⟨p, hp, hc.selector_eq, ?_, hc.length_code hr, rfl⟩, hsize⟩
  rw [hc.selector_eq]
  exact hc.code_eq

theorem sized_of_counter (hr : r.Loaded) (hstart : input.head? = some counterStart) {v : Value}
    (hv : counter r input = .ok v) : ∃ h, v.header = .code h ∧ Sized r input h v.length := by
  obtain ⟨h, hc⟩ := exists_counterSteps hr hstart hv
  exact ⟨h, by rw [hc.value_eq], (hc.looks_counterLength hr hstart).1,
    fun hother => hc.totalLength (fun hname => hother ⟨hstart, hname⟩), fun htriples => hc.row htriples.2,
    fun hother => absurd hstart hother, fun hk => absurd hk hc.kind_ne_variableSize⟩

/-- What counts or is a version stands in the table of counters. -/
theorem mem_counters_of_coded (hr : r.Loaded) {v : Value} (hv : coded r input = .ok v) {h : CodeHeader}
    (hh : v.header = .code h) (hk : h.descriptor.kind = .counter ∨ h.descriptor.kind = .version) :
    h.descriptor ∈ r.tables.counter.codes.values := by
  unfold coded at hv
  split at hv
  · next hstart =>
    obtain ⟨c, hc⟩ := exists_counterSteps hr hstart hv
    rw [hc.value_eq] at hh
    cases hh
    exact hc.mem_codes hstart
  · obtain ⟨p, c, soft, -, hc, -, -, rfl⟩ := canonical_of_primitive hr hv
    cases hh
    obtain ⟨hcounter, hversion⟩ := (hc.isPrimitive hr).kind_ne
    exact absurd hk (not_or.2 ⟨hcounter, hversion⟩)

/-- **Spans follow the sizing rule of the header**, in every registry that was put together from tables, in either view,
and for every text that is read as a value with a code. -/
theorem sized_of_coded (hr : r.Loaded) {v : Value} (hv : coded r input = .ok v) :
    v.start = 0 ∧ ∃ h, v.header = .code h ∧ Sized r input h v.length := by
  refine ⟨(framed_coded hr hv).1.start_eq, ?_⟩
  unfold coded at hv
  split at hv
  · next hstart => exact sized_of_counter hr hstart hv
  · next hstart => exact sized_of_primitive hr hstart hv

/-- One triple of two-byte numbers: a row of three reaches over twelve characters behind the code. -/
theorem sized_of_coded_triple :
    ∃ h, Sized .keriV1 (Bytes.ofString "-IABMAAAMAABMAACM") h 16 ∧
      CountsTriples (Bytes.ofString "-IABMAAAMAABMAACM") h := by
  have hread : (coded .keriV1 (Bytes.ofString "-IABMAAAMAABMAACM")).toOption.map
      (fun v => (v.length, v.header.asCode?.bind (fun h => h.descriptor.name))) =
        some (16, some sealTriplesName) := by decide +kernel
  obtain ⟨v, hv, hfacts⟩ := exists_of_toOption_map hread
  obtain ⟨hlength, hname⟩ := Prod.mk.inj hfacts
  obtain ⟨-, h, hh, hsized⟩ := sized_of_coded Registry.loaded_keriV1 hv
  rw [hh] at hname
  rw [hlength] at hsized
  exact ⟨h, hsized, by decide, hname⟩

end Value
end Quadlet
