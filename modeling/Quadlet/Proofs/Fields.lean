import Quadlet.Proofs.Readable
import Quadlet.Proofs.Sizing
/-!
# Fields — what the numbers of a header say of its digits

The digits of a code are read in parts, each as one number (`Descriptor.numerals`), and a number is written as what it
was read from.  So the fields of a header say what its digits are (`Faithful`), multiplied counts among them, since a
multiplier can be divided out again (`Multiplier.apply_inj`).  Digits of a fixed size have no field.  Where there is no
header, there is a reason in the text or in the code (`Fault`).
-/
namespace Quadlet

open Base64 (Alphabet)

variable {r : Registry} {d : Descriptor} {digits text : Bytes} {h : CodeHeader} {e : DecodeError}

/-- A number of ten digits is multiplied without wrapping around. -/
theorem Multiplier.apply_of_lt (m : Multiplier) {n : Nat} (hn : n < Numeral.capacity Numeral.maxWidth) :
    m.apply n =
      match m with
      | .once => n
      | .twice => n * 2
      | .thrice => n * 3
      | .fourfold => n * 4
      | .twicePlusOne => n * 2 + 1 := by
  rw [Numeral.capacity_maxWidth] at hn
  cases m
  · rfl
  all_goals exact (wrap_eq _).trans (Nat.mod_eq_of_lt (by omega))

/-- So no two numbers of ten digits are multiplied to the same count. -/
theorem Multiplier.apply_inj (m : Multiplier) {k n : Nat} (hk : k < Numeral.capacity Numeral.maxWidth)
    (hn : n < Numeral.capacity Numeral.maxWidth) (h : m.apply k = m.apply n) : k = n := by
  rw [m.apply_of_lt hk, m.apply_of_lt hn] at h
  cases m <;> dsimp only at h <;> omega

/-- The parts of the digits that are numbers. -/
def Descriptor.numerals (d : Descriptor) (digits : Bytes) : List Bytes :=
  match d.kind with
  | .fixedSize | .version => []
  | .variableSize | .counter => [digits]
  | .indexer => if d.os = 0 then [digits] else [digits.take d.os, digits.drop d.os]

theorem readDigits_eq_error :
    readDigits digits = .error e ↔
      Numeral.maxWidth < digits.length ∧ e = .text (.invalidLength digits.length) ∨
        digits.length ≤ Numeral.maxWidth ∧
          ∃ c i, Alphabet.url.FirstForeign digits c i ∧ e = .text (.invalidCharacter c i) := by
  unfold readDigits
  rw [mapError_eq_error]
  simp only [Numeral.read_eq_error]
  constructor
  · rintro ⟨_, ⟨hlen, rfl⟩ | ⟨hlen, c, i, hc, rfl⟩, rfl⟩
    · exact .inl ⟨hlen, rfl⟩
    · exact .inr ⟨hlen, c, i, hc, rfl⟩
  · rintro (⟨hlen, rfl⟩ | ⟨hlen, c, i, hc, rfl⟩)
    · exact ⟨_, .inl ⟨hlen, rfl⟩, rfl⟩
    · exact ⟨_, .inr ⟨hlen, c, i, hc, rfl⟩, rfl⟩

namespace CodeHeader

/-! ## One kind after the other -/

theorem ofDigits_variableSize (hk : d.kind = .variableSize) :
    ofDigits d digits = .ok h ↔
      ∃ size, readDigits digits = .ok size ∧
        h = { descriptor := d, digits, leadBytes := some d.ls, size := some size } := by
  simp only [ofDigits, hk, bind_eq_ok, pure_eq_ok]

/-- Without another index all digits are the index. -/
theorem ofDigits_whole (hk : d.kind = .indexer) (hos : d.os = 0) :
    ofDigits d digits = .ok h ↔
      ∃ index, readDigits digits = .ok index ∧
        h = { descriptor := d, digits, leadBytes := some d.ls, index := some index } := by
  simp only [ofDigits, hk, hos, Nat.lt_irrefl, false_and, if_false, bind_eq_ok, pure_eq_ok]

theorem ofDigits_split (hk : d.kind = .indexer) (hos : 0 < d.os) (hle : d.os ≤ digits.length) :
    ofDigits d digits = .ok h ↔
      ∃ index ondex, readDigits (digits.take d.os) = .ok index ∧ readDigits (digits.drop d.os) = .ok ondex ∧
        h = { descriptor := d, digits, leadBytes := some d.ls, index := some index, ondex := some ondex } := by
  simp only [ofDigits, hk, hos, hle, and_self, if_true, bind_eq_ok, pure_eq_ok, exists_and_left]

/-- A header is read when its numbers are, and with a multiplier that is known. -/
theorem readable_of_ofDigits (hos : d.os ≤ digits.length) (hh : ofDigits d digits = .ok h) :
    ∀ part ∈ d.numerals digits, ∃ n, readDigits part = .ok n := by
  intro part hpart
  unfold Descriptor.numerals at hpart
  cases hk : d.kind with
  | fixedSize =>
    rw [hk] at hpart
    cases hpart
  | version =>
    rw [hk] at hpart
    cases hpart
  | variableSize =>
    rw [hk] at hpart
    obtain rfl := List.mem_singleton.1 hpart
    obtain ⟨size, hsize, -⟩ := (ofDigits_variableSize hk).1 hh
    exact ⟨size, hsize⟩
  | counter =>
    rw [hk] at hpart
    obtain rfl := List.mem_singleton.1 hpart
    obtain ⟨n, hn, -⟩ := (ofDigits_counter hk).1 hh
    exact ⟨n, hn⟩
  | indexer =>
    rw [hk] at hpart
    dsimp only at hpart
    split at hpart
    · next hzero =>
      obtain rfl := List.mem_singleton.1 hpart
      obtain ⟨index, hindex, -⟩ := (ofDigits_whole hk hzero).1 hh
      exact ⟨index, hindex⟩
    · next hzero =>
      obtain ⟨index, ondex, hindex, hondex, -⟩ := (ofDigits_split hk (Nat.pos_of_ne_zero hzero) hos).1 hh
      simp only [List.mem_cons, List.not_mem_nil, or_false] at hpart
      rcases hpart with rfl | rfl
      · exact ⟨index, hindex⟩
      · exact ⟨ondex, hondex⟩

/-- Digits that have no header have a part that is no number, or the multiplier is not known. -/
theorem error_of_ofDigits (hos : d.os ≤ digits.length) (he : ofDigits d digits = .error e) :
    (∃ part ∈ d.numerals digits, readDigits part = .error e) ∨
      ∃ spelling, d.kind = .counter ∧ d.multiplier = some spelling ∧ Multiplier.ofString? spelling = none ∧
        e = .unknownCode (.multiplier spelling) d.selector := by
  unfold Descriptor.numerals
  cases hk : d.kind with
  | fixedSize =>
    simp only [ofDigits, hk] at he
    cases he
  | version =>
    simp only [ofDigits, hk] at he
    cases he
  | variableSize =>
    simp only [ofDigits, hk, bind_eq_error] at he
    rcases he with he | ⟨_, -, he⟩
    · exact .inl ⟨digits, List.mem_singleton_self _, he⟩
    · cases he
  | counter =>
    simp only [ofDigits, hk, bind_eq_error] at he
    rcases he with he | ⟨_, -, he⟩
    · exact .inl ⟨digits, List.mem_singleton_self _, he⟩
    · split at he
      · cases he
      next spelling hspelling =>
      split at he
      · next hunknown =>
        cases he
        exact .inr ⟨spelling, rfl, hspelling, hunknown, rfl⟩
      · cases he
  | indexer =>
    dsimp only
    by_cases hzero : d.os = 0
    · simp only [ofDigits, hk, hzero, Nat.lt_irrefl, false_and, if_false, bind_eq_error] at he
      rw [if_pos hzero]
      rcases he with he | ⟨_, -, he⟩
      · exact .inl ⟨digits, List.mem_singleton_self _, he⟩
      · cases he
    · simp only [ofDigits, hk, Nat.pos_of_ne_zero hzero, hos, and_self, if_true, bind_eq_error] at he
      rw [if_neg hzero]
      rcases he with he | ⟨_, -, he | ⟨_, -, he⟩⟩
      · exact .inl ⟨_, List.mem_cons_self, he⟩
      · exact .inl ⟨_, List.mem_cons_of_mem _ (List.mem_singleton_self _), he⟩
      · cases he

/-! ## What the fields say -/

/-- **What the fields of a header say of its digits**, the soft part of the text, kind by kind. -/
structure Faithful (d : Descriptor) (text : Bytes) (h : CodeHeader) : Prop where
  descriptor_eq : h.descriptor = d
  digits_eq : h.digits = text.slice d.hs d.cs
  size : d.kind = .variableSize → ∃ size, h.size = some size ∧ Numeral.write size d.ss = .ok h.digits
  quadlets : d.kind = .counter → d.multiplier = none →
    ∃ n, h.quadlets = some n ∧ h.count = some n ∧ Numeral.write n d.ss = .ok h.digits
  multiplied : ∀ {spelling}, d.kind = .counter → d.multiplier = some spelling →
    ∃ m n, Multiplier.ofString? spelling = some m ∧ h.count = some (m.apply n) ∧
      n < Numeral.capacity Numeral.maxWidth ∧ ∀ k, Numeral.write k d.ss = .ok h.digits ↔ k = n
  index : d.kind = .indexer → d.os = 0 → ∃ index, h.index = some index ∧ Numeral.write index d.ss = .ok h.digits
  indices : d.kind = .indexer → 0 < d.os →
    ∃ index ondex first second, h.index = some index ∧ h.ondex = some ondex ∧ Numeral.write index d.os = .ok first ∧
      Numeral.write ondex (d.ss - d.os) = .ok second ∧ first ++ second = h.digits
  version : d.kind = .version → h.version = some h.digits

theorem write_of_readDigits {n : Nat} (h : readDigits digits = .ok n) {width : Nat} (hwidth : digits.length = width) :
    Numeral.write n width = .ok digits := by
  rw [← hwidth]
  exact Numeral.write_of_read (readDigits_eq_ok.1 h)

/-- The digits of a code whose parts are in order. -/
theorem length_digits {lead : Nat} (hd : d.Sound lead) (hle : d.hs ≤ d.cs) (hcs : d.cs ≤ text.length) :
    (text.slice d.hs d.cs).length = d.ss := by
  rw [Bytes.length_slice _ _ _ hcs, (hd.fits_of_le hle).cs_eq, Nat.add_sub_cancel_left]

theorem faithful_of_read {lead : Nat} (hd : d.Sound lead) (hh : read d text = .ok h) : Faithful d text h := by
  obtain ⟨-, hcs, hle, hh⟩ := read_eq_ok.1 hh
  obtain ⟨hdescriptor, hdigits⟩ := parts_of_ofDigits hh
  have hwidth := length_digits hd hle hcs
  have hos := hd.os_le
  rw [← hdigits] at hh hwidth
  refine ⟨hdescriptor, hdigits, fun hk => ?_, fun hk hnone => ?_, fun {spelling} hk hspelling => ?_, fun hk hzero => ?_,
    fun hk hpos => ?_, fun hk => ?_⟩
  · obtain ⟨size, hsize, hfields⟩ := (ofDigits_variableSize hk).1 hh
    exact ⟨size, by rw [hfields], write_of_readDigits hsize hwidth⟩
  · obtain ⟨n, hn, ⟨-, hfields⟩ | ⟨_, _, hsome, -⟩⟩ := (ofDigits_counter hk).1 hh
    · exact ⟨n, by rw [hfields], by rw [hfields], write_of_readDigits hn hwidth⟩
    · rw [hnone] at hsome
      cases hsome
  · obtain ⟨n, hn, ⟨hnone, -⟩ | ⟨_, m, hsome, hm, hfields⟩⟩ := (ofDigits_counter hk).1 hh
    · rw [hnone] at hspelling
      cases hspelling
    · rw [hspelling] at hsome
      cases hsome
      refine ⟨m, n, hm, by rw [hfields], Numeral.lt_of_read_maxWidth (readDigits_eq_ok.1 hn), ?_⟩
      rw [← hwidth]
      exact Numeral.write_eq_iff_of_read (readDigits_eq_ok.1 hn)
  · obtain ⟨index, hindex, hfields⟩ := (ofDigits_whole hk hzero).1 hh
    exact ⟨index, by rw [hfields], write_of_readDigits hindex hwidth⟩
  · obtain ⟨index, ondex, hindex, hondex, hfields⟩ := (ofDigits_split hk hpos (by omega)).1 hh
    refine ⟨index, ondex, _, _, by rw [hfields], by rw [hfields], write_of_readDigits hindex ?_,
      write_of_readDigits hondex ?_, List.take_append_drop ..⟩
    · rw [List.length_take, hwidth, Nat.min_eq_left hos]
    · rw [List.length_drop, hwidth]
  · simp only [ofDigits, hk] at hh
    rw [← Except.ok.inj hh]

/-- The fields that digits are read into. -/
structure SameFields (h other : CodeHeader) : Prop where
  size : h.size = other.size
  quadlets : h.quadlets = other.quadlets
  count : h.count = other.count
  index : h.index = other.index
  ondex : h.ondex = other.ondex
  version : h.version = other.version

/-- **The same fields are read from the same digits only**, but under a code of fixed size. -/
theorem Faithful.digits_unique {other : Bytes} {h' : CodeHeader} (hh : Faithful d text h) (hh' : Faithful d other h')
    (hkind : d.kind ≠ .fixedSize) (hsame : SameFields h h') : h.digits = h'.digits := by
  -- a field of both is one number, which is written in one way
  have hwritten : ∀ {field field' : Option Nat} {n k width : Nat} {digits digits' : Bytes}, field = field' →
      field = some n → field' = some k → Numeral.write n width = .ok digits → Numeral.write k width = .ok digits' →
        digits = digits' := by
    rintro _ _ n k _ _ _ rfl hn hk hw hw'
    rw [hn] at hk
    cases hk
    exact Except.ok.inj (hw.symm.trans hw')
  cases hk : d.kind with
  | fixedSize => exact absurd hk hkind
  | variableSize =>
    obtain ⟨n, hn, hw⟩ := hh.size hk
    obtain ⟨k, hk, hw'⟩ := hh'.size hk
    exact hwritten hsame.size hn hk hw hw'
  | counter =>
    cases hm : d.multiplier with
    | none =>
      obtain ⟨n, hn, -, hw⟩ := hh.quadlets hk hm
      obtain ⟨k, hk, -, hw'⟩ := hh'.quadlets hk hm
      exact hwritten hsame.quadlets hn hk hw hw'
    | some spelling =>
      obtain ⟨m, n, hm', hn, hlt, hw⟩ := hh.multiplied hk hm
      obtain ⟨m', k, hm'', hk, hlt', hw'⟩ := hh'.multiplied hk hm
      rw [hm'] at hm''
      cases hm''
      have hcount := hsame.count
      rw [hn, hk, Option.some.injEq] at hcount
      obtain rfl := m.apply_inj hlt hlt' hcount
      exact Except.ok.inj (((hw n).2 rfl).symm.trans ((hw' n).2 rfl))
  | indexer =>
    rcases Nat.eq_zero_or_pos d.os with hzero | hpos
    · obtain ⟨n, hn, hw⟩ := hh.index hk hzero
      obtain ⟨k, hk, hw'⟩ := hh'.index hk hzero
      exact hwritten hsame.index hn hk hw hw'
    · obtain ⟨n, n', first, second, hn, hn', hw, hw', hdigits⟩ := hh.indices hk hpos
      obtain ⟨k, k', first', second', hk, hk', hv, hv', hdigits'⟩ := hh'.indices hk hpos
      rw [← hdigits, ← hdigits', hwritten hsame.index hn hk hw hv, hwritten hsame.ondex hn' hk' hw' hv']
  | version =>
    have hversion := hsame.version
    rw [hh.version hk, hh'.version hk] at hversion
    exact Option.some.inj hversion

/-! ## Where there is no header -/

/-- **Why a text has no header** under a code: it is not ASCII, it is shorter than a code, it has digits that are no
number, or the code has a multiplier that is not known.  Where the code wraps around its digits cannot be cut out. -/
inductive Fault (d : Descriptor) (text : Bytes) : DecodeError → Prop where
  | notAscii : Bytes.isAscii text = false → Fault d text (.unexpectedCode text)
  | short : text.length < d.cs → Fault d text (.shortageOf text.length d.cs)
  | wide {part : Bytes} : part ∈ d.numerals (text.slice d.hs d.cs) → Numeral.maxWidth < part.length →
      Fault d text (.text (.invalidLength part.length))
  | foreign {part : Bytes} {c : UInt8} {i : Nat} : part ∈ d.numerals (text.slice d.hs d.cs) →
      Alphabet.url.FirstForeign part c i → Fault d text (.text (.invalidCharacter c i))
  | multiplier {spelling : String} : d.kind = .counter → d.multiplier = some spelling →
      Multiplier.ofString? spelling = none → Fault d text (.unknownCode (.multiplier spelling) d.selector)
  | wrapped : d.cs < d.hs → d.cs ≤ text.length → Fault d text (.argument (.outOfBounds d.hs d.cs text.length))

variable {lead : Nat}

theorem fault_of_read (hd : d.Sound lead) (he : read d text = .error e) : Fault d text e := by
  unfold read at he
  split at he
  · next hascii =>
    cases he
    exact .notAscii (by simpa using hascii)
  split at he
  · next hshort =>
    cases he
    exact .short hshort
  next hcs =>
  have hcs := Nat.not_lt.1 hcs
  by_cases hle : d.cs < d.hs
  · rw [part, if_neg (by omega)] at he
    cases he
    exact .wrapped hle hcs
  have hle := Nat.not_lt.1 hle
  rw [part_eq_ok.2 ⟨hle, hcs, rfl⟩] at he
  rcases error_of_ofDigits (by rw [length_digits hd hle hcs]; exact hd.os_le) he with
    ⟨part, hpart, he⟩ | ⟨_, hk, hm, hnone, rfl⟩
  · rcases readDigits_eq_error.1 he with ⟨hlen, rfl⟩ | ⟨-, c, i, hc, rfl⟩
    · exact .wide hpart hlen
    · exact .foreign hpart hc
  · exact .multiplier hk hm hnone

theorem not_fault_of_read (hd : d.Sound lead) (hh : read d text = .ok h) : ∀ e, ¬Fault d text e := by
  obtain ⟨hascii, hcs, hle, hh⟩ := read_eq_ok.1 hh
  have hread := readable_of_ofDigits (by rw [length_digits hd hle hcs]; exact hd.os_le) hh
  rintro _ (hno | hshort | ⟨hpart, hlen⟩ | ⟨hpart, hc⟩ | ⟨hk, hm, hnone⟩ | ⟨hwrapped, -⟩)
  · rw [hascii] at hno
    cases hno
  · exact absurd hshort (Nat.not_lt.2 hcs)
  · obtain ⟨n, hn⟩ := hread _ hpart
    exact absurd hlen (Nat.not_lt.2 (Numeral.lt_of_read (readDigits_eq_ok.1 hn)).1)
  · obtain ⟨n, hn⟩ := hread _ hpart
    exact hc.notMem (isUrlText_of_readDigits hn _ hc.mem)
  · obtain ⟨_, -, ⟨hsome, -⟩ | ⟨_, _, hsome, hknown, -⟩⟩ := (ofDigits_counter hk).1 hh <;>
      rw [hm] at hsome <;> cases hsome
    rw [hnone] at hknown
    cases hknown
  · exact absurd hwrapped (Nat.not_lt.2 hle)

/-! ## Headers of a registry -/

end CodeHeader
end Quadlet
