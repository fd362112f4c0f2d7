import Quadlet.Primitive
import Quadlet.Proofs.Base64
import Quadlet.Proofs.Loaded
import Quadlet.Proofs.Numeral
/-!
# Canonical texts — a primitive has one text, and the reader takes no other

The text of raw bytes under a code is the code and the characters of zero bytes and the raw bytes, without those that
the code takes the place of (`Descriptor.text`).  The reader accepts such a text and what follows it, and nothing else
(`canonical_of_extract`): the length it asks of the raw bytes rules out dropped padding, and the pad and lead bytes
that it checks hold every bit that the raw bytes do not.
-/
namespace Quadlet

open Base64 (Alphabet)

theorem ensure_eq_ok {input : Bytes} {want : Nat} : ensure input want = .ok () ↔ want ≤ input.length := by
  unfold ensure
  split
  · exact ⟨fun h => (by cases h), fun h => (by omega)⟩
  · exact ⟨fun _ => by omega, fun _ => rfl⟩

theorem codeText_eq_ok {input : Bytes} {n : Nat} {text : Bytes} :
    codeText input n = .ok text ↔ n ≤ input.length ∧ Bytes.isAscii (input.take n) = true ∧ text = input.take n := by
  unfold codeText
  rw [bind_eq_ok]
  constructor
  · rintro ⟨_, hn, h⟩
    split at h
    · next hascii =>
      cases h
      exact ⟨ensure_eq_ok.1 hn, hascii, rfl⟩
    · cases h
  · rintro ⟨hn, hascii, rfl⟩
    exact ⟨(), ensure_eq_ok.2 hn, by rw [if_pos hascii]⟩

/-! ## The body -/

/-- The characters that carry raw bytes under a code of `cs` characters, behind `ls` lead bytes. -/
def bodyText (cs ls : Nat) (raw : Bytes) : Bytes :=
  (Base64.encode .url (List.replicate (cs % 4 + ls) 0 ++ raw)).drop (cs % 4)

/-- The characters that the code takes the place of are those of zero bits. -/
theorem pad_append_bodyText (cs ls : Nat) (raw : Bytes) :
    List.replicate (cs % 4) (Alphabet.url.char 0) ++ bodyText cs ls raw =
      Base64.encode .url (List.replicate (cs % 4 + ls) 0 ++ raw) := by
  have hpad := Base64.take_encode_zeros .url (cs % 4) (by omega) (List.replicate ls 0 ++ raw)
  rw [← List.append_assoc, List.replicate_append_replicate] at hpad
  rw [bodyText, ← hpad, List.take_append_drop]

/-- On the grid of quadlets, the characters say how many raw bytes there are. -/
theorem length_raw {cs ls : Nat} {raw : Bytes} (hgrid : (cs % 4 + (bodyText cs ls raw).length) % 4 = 0) :
    raw.length + ls = (bodyText cs ls raw).length * 3 / 4 := by
  have h := congrArg List.length (pad_append_bodyText cs ls raw)
  rw [List.length_append, List.length_replicate, Base64.length_encode, List.length_append, List.length_replicate] at h
  omega

theorem take_eq_replicate {n : Nat} {b : Bytes} (hn : n ≤ b.length) (h : (b.take n).any (· != 0) = false) :
    b.take n = List.replicate n 0 := by
  refine List.eq_replicate_iff.2 ⟨by rw [List.length_take, Nat.min_eq_left hn], fun c hc => ?_⟩
  simpa using List.any_eq_false.1 h c hc

theorem any_replicate_ne_zero (n : Nat) : (List.replicate n (0 : UInt8)).any (· != 0) = false :=
  List.any_eq_false.2 (fun c hc => by rw [List.eq_of_mem_replicate hc]; decide)

theorem decode_bodyText (cs ls : Nat) (raw : Bytes) :
    Base64.decode .url (List.replicate (cs % 4) (Alphabet.url.char 0) ++ bodyText cs ls raw) =
      .ok (List.replicate (cs % 4 + ls) 0 ++ raw) := by
  rw [pad_append_bodyText]
  exact Base64.decode_encode _ Base64.Alphabet.nodup_url Base64.pad_notMem_url _

/-- Octets that are as many as the characters hold leave no padding, so the characters are theirs. -/
theorem bodyText_of_decode {cs ls : Nat} {body octets : Bytes} (hgrid : (cs % 4 + body.length) % 4 = 0)
    (h : Base64.decode .url (List.replicate (cs % 4) (Alphabet.url.char 0) ++ body) = .ok octets)
    (hlong : (cs % 4 + body.length) * 3 / 4 ≤ octets.length)
    (hzeros : octets.take (cs % 4 + ls) = List.replicate (cs % 4 + ls) 0) :
    body = bodyText cs ls (octets.drop (cs % 4 + ls)) := by
  have htext : (List.replicate (cs % 4) (Alphabet.url.char 0) ++ body).length = cs % 4 + body.length := by
    rw [List.length_append, List.length_replicate]
  have hwritten := Base64.encode_of_decode _ (by rw [htext]; exact hgrid) (by rw [htext]; exact hlong) h
  rw [bodyText, ← hzeros, List.take_append_drop, hwritten, List.drop_left' (by rw [List.length_replicate])]

/-- **A body on the grid holds raw bytes exactly when it is their characters**, with zero bytes that a word counts. -/
theorem decodeBody_eq_ok {d : Descriptor} {code body raw : Bytes} (hls : d.ls < 2 ^ 64)
    (hgrid : (code.length % 4 + body.length) % 4 = 0) :
    Primitive.decodeBody d code body = .ok raw ↔
      code.length % 4 + d.ls < 2 ^ 64 ∧ body = bodyText code.length d.ls raw := by
  unfold Primitive.decodeBody
  rw [bind_eq_ok]
  constructor
  · rintro ⟨octets, hoctets, h⟩
    dsimp only at h
    split at h
    · cases h
    next hlong =>
    obtain ⟨pad, hpart, h⟩ := bind_eq_ok.1 h
    obtain ⟨-, -, rfl⟩ := part_eq_ok.1 hpart
    split at h
    · cases h
    next hpad =>
    obtain ⟨lead, hpart, h⟩ := bind_eq_ok.1 h
    obtain ⟨hle, -, rfl⟩ := part_eq_ok.1 hpart
    -- the lead bytes are cut out behind the pad bytes, so there are not too many of them
    have hfit : code.length % 4 + d.ls < 2 ^ 64 := by
      rw [wrap_eq] at hle
      omega
    rw [wrap_of_lt hfit] at hlong h
    split at h
    · cases h
    next hlead =>
    split at h
    · cases h
    next hraw =>
    cases h
    rw [Decidable.not_not, List.length_drop] at hraw
    refine ⟨hfit, bodyText_of_decode hgrid (mapError_eq_ok.1 hoctets) (by omega) (take_eq_replicate (by omega) ?_)⟩
    rw [← Bytes.take_append_slice octets (Nat.le_add_right _ _), List.any_append]
    simp only [Bool.not_eq_true, Bytes.slice, List.drop_zero] at hpad hlead ⊢
    rw [hpad, hlead, Bool.or_false]
  · rintro ⟨hfit, rfl⟩
    have hlen := length_raw hgrid
    have hzeros : ∀ n, n ≤ code.length % 4 + d.ls →
        (List.replicate (code.length % 4 + d.ls) 0 ++ raw).take n = List.replicate n 0 := by
      intro n hn
      rw [List.take_append_of_le_length (by rw [List.length_replicate]; exact hn), List.take_replicate,
        Nat.min_eq_left hn]
    have hlength : (List.replicate (code.length % 4 + d.ls) 0 ++ raw).length = code.length % 4 + d.ls + raw.length := by
      rw [List.length_append, List.length_replicate]
    refine ⟨_, mapError_eq_ok.2 (decode_bodyText _ _ _), ?_⟩
    dsimp only
    rw [wrap_of_lt hfit, if_neg (by omega)]
    refine bind_eq_ok.2 ⟨_, part_eq_ok.2 ⟨Nat.zero_le _, by omega, rfl⟩, ?_⟩
    rw [if_neg (by rw [Bytes.slice, List.drop_zero, hzeros _ (Nat.le_add_right _ _), any_replicate_ne_zero]; decide)]
    refine bind_eq_ok.2 ⟨_, part_eq_ok.2 ⟨Nat.le_add_right _ _, by omega, rfl⟩, ?_⟩
    rw [if_neg (by rw [Bytes.slice, hzeros _ (Nat.le_refl _), List.drop_replicate, any_replicate_ne_zero]; decide),
      List.drop_left' (by rw [List.length_replicate]), if_neg]
    rw [Decidable.not_not]
    omega

/-! ## The whole text -/

/-- The text of raw bytes under a code with the digits `soft`. -/
def Descriptor.text (d : Descriptor) (soft raw : Bytes) : Bytes := d.selector ++ soft ++ bodyText d.cs d.ls raw

namespace Primitive

/-- **What a primitive of a registry is**: a code of the view's table with its digits, the length that the code or the
digits give it, and raw bytes whose text has that length. -/
structure Canonical (r : Registry) (d : Descriptor) (soft : Bytes) (p : Primitive) : Prop where
  mem : d ∈ r.primitives.codes.values
  fits : d.Fits
  not_counter : d.selector.head? ≠ some counterStart
  not_op : d.selector.head? ≠ some opStart
  length_soft : soft.length = d.ss
  ascii_soft : Bytes.isAscii soft = true
  extent : d.fs = some p.totalLength ∨
    d.fs = none ∧ ∃ quadlets, Numeral.read soft = .ok quadlets ∧ p.totalLength = d.cs + 4 * quadlets
  length_text : (d.text soft p.raw).length = p.totalLength
  selector_eq : p.selector = d.selector
  code_eq : p.code = d.selector ++ soft

variable {r : Registry} {input : Bytes} {p : Primitive}

theorem extract_eq_ok_iff_steps :
    extract r input = .ok p ↔
      ∃ hs d, hardSize r input = .ok hs ∧ codeText input hs = .ok p.selector ∧ r.lookup p.selector = .ok d ∧
        d.fs.getD 0 ≤ input.length ∧ codeText input d.cs = .ok p.code ∧
        Primitive.extent d input hs = .ok p.totalLength ∧ p.totalLength ≤ input.length ∧
        decodeBody d p.code (input.slice d.cs p.totalLength) = .ok p.raw := by
  unfold extract
  constructor
  · intro h
    obtain ⟨hs, hhs, h⟩ := bind_eq_ok.1 h
    obtain ⟨selector, hselector, h⟩ := bind_eq_ok.1 h
    obtain ⟨d, hd, h⟩ := bind_eq_ok.1 h
    obtain ⟨_, hfs, h⟩ := bind_eq_ok.1 h
    obtain ⟨code, hcode, h⟩ := bind_eq_ok.1 h
    obtain ⟨total, htotal, h⟩ := bind_eq_ok.1 h
    obtain ⟨_, hlen, h⟩ := bind_eq_ok.1 h
    obtain ⟨raw, hraw, h⟩ := bind_eq_ok.1 h
    cases h
    exact ⟨hs, d, hhs, hselector, hd, ensure_eq_ok.1 hfs, hcode, htotal, ensure_eq_ok.1 hlen, hraw⟩
  · rintro ⟨hs, d, hhs, hselector, hd, hfs, hcode, htotal, hlen, hraw⟩
    simp only [bind_eq_ok]
    exact ⟨hs, hhs, _, hselector, d, hd, (), ensure_eq_ok.2 hfs, _, hcode, _, htotal, (), ensure_eq_ok.2 hlen, _, hraw,
      rfl⟩

theorem extent_eq_ok {d : Descriptor} {hs total : Nat} :
    Primitive.extent d input hs = .ok total ↔
      d.fs = some total ∨
        d.fs = none ∧ hs ≤ d.cs ∧ d.cs ≤ input.length ∧
          ∃ quadlets, Numeral.read (input.slice hs d.cs) = .ok quadlets ∧ total = d.cs + 4 * quadlets := by
  unfold Primitive.extent readDigits
  cases d.fs with
  | some fs => simp
  | none =>
    simp only [bind_eq_ok, part_eq_ok, mapError_eq_ok, pure_eq_ok, true_and, reduceCtorEq, false_or]
    constructor
    · rintro ⟨_, ⟨hle, hlen, rfl⟩, quadlets, hq, rfl⟩
      exact ⟨hle, hlen, quadlets, hq, by omega⟩
    · rintro ⟨hle, hlen, quadlets, hq, rfl⟩
      exact ⟨_, ⟨hle, hlen, rfl⟩, quadlets, hq, by omega⟩

/-- Code and body together stand on the grid of quadlets. -/
theorem grid_of_extent {d : Descriptor} {lead : Nat} (hd : d.Sound lead) {digits : Bytes} {total : Nat}
    (h : d.fs = some total ∨
      d.fs = none ∧ ∃ quadlets, Numeral.read digits = .ok quadlets ∧ total = d.cs + 4 * quadlets) :
    total % 4 = 0 ∧ d.cs ≤ total := by
  rcases h with hfs | ⟨hfs, quadlets, -, rfl⟩
  · exact ⟨hd.fs_mod hfs, hd.cs_le hfs⟩
  · have := hd.cs_mod hfs
    omega

/-- The size of the selector that the first character announces, and where it must not start. -/
theorem hardSize_eq_ok {hs : Nat} :
    hardSize r input = .ok hs ↔
      ∃ first, input.head? = some first ∧ first ≠ counterStart ∧ first ≠ opStart ∧
        r.primitiveHardSize first = some hs := by
  unfold hardSize
  cases input with
  | nil => exact ⟨fun h => (by cases h), fun ⟨_, h, _⟩ => (by cases h)⟩
  | cons first rest =>
    simp only [List.head?_cons, Option.some.injEq]
    by_cases hf : first = counterStart
    · rw [if_pos hf]
      exact ⟨fun h => (by cases h), fun ⟨_, h, hn, _⟩ => absurd (h ▸ hf) hn⟩
    · rw [if_neg hf, Registry.selectorSize_primitive rest hf]
      exact ⟨fun h => ⟨first, rfl, hf, h.1, h.2⟩, fun ⟨_, h, _, hs⟩ => h ▸ hs⟩

/-- A descriptor of the view's table is sound, and found under its selector and under its first character. -/
theorem Canonical.facts (hr : r.Loaded) {d : Descriptor} {soft : Bytes} (h : Canonical r d soft p) :
    d.Sound 1 ∧ r.lookup d.selector = .ok d ∧
      ∃ first, d.selector.head? = some first ∧ r.primitiveHardSize first = some d.hs := by
  obtain ⟨k, hk⟩ := KeyMap.mem_values.1 h.mem
  have hsound := hr.primitives.sound hk
  have hsize := hr.primitives.hardSize hk
  obtain rfl := hr.primitives.selector_eq hk
  refine ⟨hsound, (Registry.lookup_primitive h.not_counter).2 hk, ?_⟩
  have hpos : 0 < d.selector.length := by
    have := hsound.lead_le
    rw [hsound.length_selector]
    omega
  cases hsel : d.selector with
  | nil =>
    rw [hsel] at hpos
    cases hpos
  | cons first rest =>
    rw [hsel] at hsize
    exact ⟨first, rfl, hsize⟩

/-- The code is the selector and the digits. -/
theorem Canonical.length_code (hr : r.Loaded) {d : Descriptor} {soft : Bytes} (h : Canonical r d soft p) :
    p.code.length = d.cs := by
  rw [h.code_eq, List.length_append, (h.facts hr).1.length_selector, h.length_soft, h.fits.cs_eq]

/-- The raw bytes are as many as the body and the lead size leave. -/
theorem Canonical.length_raw (hr : r.Loaded) {d : Descriptor} {soft : Bytes} (hc : Canonical r d soft p) :
    p.raw.length + d.ls = (p.totalLength - d.cs) * 3 / 4 := by
  obtain ⟨hgrid, hle⟩ := grid_of_extent (hc.facts hr).1 hc.extent
  have htext := hc.length_text
  rw [Descriptor.text, ← hc.code_eq, List.length_append, hc.length_code hr] at htext
  have hbody : (bodyText d.cs d.ls p.raw).length = p.totalLength - d.cs := by omega
  rw [Quadlet.length_raw (by rw [hbody]; omega), hbody]

/-- The body is no longer than a word counts, so a word counts the zero bytes that it starts with. -/
theorem Canonical.zeros_lt (hr : r.Loaded) {d : Descriptor} {soft : Bytes} (hc : Canonical r d soft p) :
    d.cs % 4 + d.ls < 2 ^ 64 := by
  have hraw := hc.length_raw hr
  have hbody : p.totalLength - d.cs < 2 ^ 64 := by
    rcases hc.extent with hfs | ⟨-, quadlets, hquadlets, htotal⟩
    · have := (hc.facts hr).1.words.fs_lt hfs
      omega
    · have := Numeral.lt_of_read_maxWidth hquadlets
      rw [Numeral.capacity_maxWidth] at this
      omega
  omega

/-- What the selector is read from is as long as the descriptor says. -/
theorem Canonical.hs_eq (hr : r.Loaded) {d : Descriptor} {soft : Bytes} (h : Canonical r d soft p) {hs : Nat}
    (hselector : codeText input hs = .ok p.selector) : hs = d.hs := by
  obtain ⟨hlen, -, htake⟩ := codeText_eq_ok.1 hselector
  exact (h.facts hr).1.hs_of_take hlen (h.selector_eq.symm.trans htake)

/-- The code of the primitive was found among those of the view. -/
theorem lookup_of_extract (h : extract r input = .ok p) :
    ∃ d, r.lookup p.selector = .ok d ∧ r.primitives.codes.find? p.selector = some d := by
  obtain ⟨hs, d, hhs, hselector, hd, -⟩ := extract_eq_ok_iff_steps.1 h
  obtain ⟨first, hfirst, hcounter, -⟩ := hardSize_eq_ok.1 hhs
  obtain ⟨-, -, hselector⟩ := codeText_eq_ok.1 hselector
  refine ⟨d, hd, (Registry.lookup_primitive fun hhead => ?_).1 hd⟩
  rw [hselector, List.head?_take, hfirst] at hhead
  split at hhead
  · cases hhead
  · exact hcounter (Option.some.inj hhead)

/-- **What is accepted under a code that does not wrap around is the text of a primitive.** -/
theorem canonical_of_lookup (hr : r.Loaded) (h : extract r input = .ok p) {d : Descriptor}
    (hd : r.lookup p.selector = .ok d) (hfits : d.Fits) :
    ∃ soft, Canonical r d soft p ∧ input.take p.totalLength = d.text soft p.raw := by
  obtain ⟨e, he, hfind⟩ := lookup_of_extract h
  obtain rfl := Except.ok.inj (hd.symm.trans he)
  obtain ⟨hs, e, hhs, hselector, he, -, hcode, htotal, hlen, hraw⟩ := extract_eq_ok_iff_steps.1 h
  obtain rfl := Except.ok.inj (hd.symm.trans he)
  obtain ⟨first, hfirst, hcounter, hop, -⟩ := hardSize_eq_ok.1 hhs
  obtain ⟨hhslen, -, hselector⟩ := codeText_eq_ok.1 hselector
  obtain ⟨hcslen, hascii, hcode⟩ := codeText_eq_ok.1 hcode
  have hhead : ∀ c, c ≠ first → p.selector.head? ≠ some c := by
    intro c hc hsel
    rw [hselector, List.head?_take, hfirst] at hsel
    split at hsel
    · cases hsel
    · exact hc (Option.some.inj hsel).symm
  have hsound := hr.primitives.sound hfind
  have hsel := hr.primitives.selector_eq hfind
  obtain rfl : hs = d.hs := hsound.hs_of_take hhslen (hsel.trans hselector)
  have hcs := hfits.hs_le_cs
  have hcodeEq : p.code = d.selector ++ input.slice d.hs d.cs := by
    rw [hcode, hsel, hselector, Bytes.take_append_slice input hcs]
  have hcodeLength : p.code.length = d.cs := by rw [hcode, List.length_take, Nat.min_eq_left hcslen]
  have hextent : d.fs = some p.totalLength ∨ d.fs = none ∧ ∃ quadlets,
      Numeral.read (input.slice d.hs d.cs) = .ok quadlets ∧ p.totalLength = d.cs + 4 * quadlets :=
    (extent_eq_ok.1 htotal).imp_right fun h => ⟨h.1, h.2.2.2⟩
  obtain ⟨hgrid, hle⟩ := grid_of_extent hsound hextent
  have hbodyLength := Bytes.length_slice input d.cs p.totalLength hlen
  obtain ⟨-, hbody⟩ := (decodeBody_eq_ok hsound.words.ls_lt (by rw [hcodeLength, hbodyLength]; omega)).1 hraw
  have htext : input.take p.totalLength = d.text (input.slice d.hs d.cs) p.raw := by
    rw [Descriptor.text, ← hcodeEq, ← hcodeLength, ← hbody, hcode, Bytes.take_append_slice input hle]
  refine ⟨input.slice d.hs d.cs, ?_, htext⟩
  rw [← hcode, hcodeEq, Bytes.isAscii_append, Bool.and_eq_true] at hascii
  exact {
    mem := KeyMap.mem_values.2 ⟨_, hfind⟩
    fits := hfits
    not_counter := hsel ▸ hhead _ hcounter.symm
    not_op := hsel ▸ hhead _ hop.symm
    length_soft := by rw [Bytes.length_slice input _ _ hcslen, hfits.cs_eq, Nat.add_sub_cancel_left]
    ascii_soft := hascii.2
    extent := hextent
    length_text := by rw [← htext, List.length_take, Nat.min_eq_left hlen]
    selector_eq := hsel.symm
    code_eq := hcodeEq }

theorem canonical_of_extract (hr : r.Loaded) (h : extract r input = .ok p) (hfits : r.FitsAt p.selector) :
    ∃ d soft, Canonical r d soft p ∧ input.take p.totalLength = d.text soft p.raw := by
  obtain ⟨d, hd, -⟩ := lookup_of_extract h
  exact ⟨d, canonical_of_lookup hr h hd (hfits hd)⟩

/-- The text of a primitive is accepted, whatever follows it. -/
theorem extract_of_canonical (hr : r.Loaded) {d : Descriptor} {soft : Bytes} (hc : Canonical r d soft p)
    (htext : input.take p.totalLength = d.text soft p.raw) : extract r input = .ok p := by
  obtain ⟨hsound, hlookup, first, hfirst, hsize⟩ := hc.facts hr
  obtain ⟨hgrid, hle⟩ := grid_of_extent hsound hc.extent
  have hcs := hc.fits.hs_le_cs
  have hlen : p.totalLength ≤ input.length := by
    have := congrArg List.length htext
    rw [hc.length_text, List.length_take] at this
    omega
  have htake : ∀ n, n ≤ p.totalLength → input.take n = (d.text soft p.raw).take n := by
    intro n hn
    rw [← htext, List.take_take, Nat.min_eq_left hn]
  have hselector : input.take d.hs = d.selector := by
    rw [htake _ (Nat.le_trans hcs hle), Descriptor.text, List.append_assoc, List.take_left' hsound.length_selector]
  have hcode : input.take d.cs = p.code := by
    rw [htake _ hle, Descriptor.text, ← hc.code_eq, List.take_left' (hc.length_code hr)]
  have hsoft : input.slice d.hs d.cs = soft := by
    rw [Bytes.slice, hcode, hc.code_eq, List.drop_left' hsound.length_selector]
  have hbody : input.slice d.cs p.totalLength = bodyText p.code.length d.ls p.raw := by
    rw [Bytes.slice, htext, Descriptor.text, ← hc.code_eq, List.drop_left' (hc.length_code hr), hc.length_code hr]
  have hascii : Bytes.isAscii p.code = true := by
    rw [hc.code_eq, Bytes.isAscii_append, hsound.ascii, hc.ascii_soft]
    rfl
  refine extract_eq_ok_iff_steps.2 ⟨d.hs, d, ?_, ?_, ?_, ?_, ?_, ?_, hlen, ?_⟩
  · have hinput : input.head? = some first := by
      rw [← hselector, List.head?_take] at hfirst
      split at hfirst
      · cases hfirst
      · exact hfirst
    exact hardSize_eq_ok.2 ⟨first, hinput, fun h => hc.not_counter (h ▸ hfirst), fun h => hc.not_op (h ▸ hfirst), hsize⟩
  · exact codeText_eq_ok.2 ⟨by omega, by rw [hselector]; exact hsound.ascii, by rw [hselector]; exact hc.selector_eq⟩
  · rw [hc.selector_eq]
    exact hlookup
  · rcases hc.extent with hfs | ⟨hfs, -⟩
    · rw [hfs]
      exact hlen
    · rw [hfs]
      exact Nat.zero_le _
  · exact codeText_eq_ok.2 ⟨by omega, by rw [hcode]; exact hascii, hcode.symm⟩
  · refine extent_eq_ok.2 (hc.extent.imp_right fun h => ⟨h.1, hcs, by omega, ?_⟩)
    rw [hsoft]
    exact h.2
  · have hbodyLength := Bytes.length_slice input d.cs p.totalLength hlen
    refine (decodeBody_eq_ok hsound.words.ls_lt (by rw [hc.length_code hr, hbodyLength]; omega)).2 ⟨?_, hbody⟩
    rw [hc.length_code hr]
    exact hc.zeros_lt hr

/-! ## One text for each value -/

/-- The code determines its descriptor, its digits and the length. -/
theorem Canonical.unique (hr : r.Loaded) {q : Primitive} {d e : Descriptor} {soft other : Bytes}
    (hp : Canonical r d soft p) (hq : Canonical r e other q) (hcode : p.code = q.code) :
    d = e ∧ soft = other ∧ p.totalLength = q.totalLength := by
  obtain ⟨hsound, hlookup, first, hfirst, hsize⟩ := hp.facts hr
  obtain ⟨hsound', hlookup', first', hfirst', hsize'⟩ := hq.facts hr
  rw [hp.code_eq, hq.code_eq] at hcode
  have hhead := congrArg List.head? hcode
  rw [List.head?_append, List.head?_append, hfirst, hfirst'] at hhead
  obtain rfl : first = first' := by simpa using hhead
  rw [hsize] at hsize'
  have hlength : d.selector.length = e.selector.length := by
    rw [hsound.length_selector, hsound'.length_selector]
    exact Option.some.inj hsize'
  obtain ⟨hselector, rfl⟩ := List.append_inj hcode hlength
  rw [hselector, hlookup'] at hlookup
  obtain rfl : e = d := by simpa using hlookup
  refine ⟨rfl, rfl, ?_⟩
  rcases hp.extent with hfs | ⟨hfs, n, hn, htotal⟩
  · rcases hq.extent with hfs' | ⟨hfs', -⟩
    · rw [hfs] at hfs'
      exact Option.some.inj hfs'
    · rw [hfs] at hfs'
      cases hfs'
  · rcases hq.extent with hfs' | ⟨-, n', hn', htotal'⟩
    · rw [hfs] at hfs'
      cases hfs'
    · rw [hn] at hn'
      cases hn'
      rw [htotal, htotal']

/-- A primitive's code is what its selector is looked up as. -/
theorem Canonical.fitsAt (hr : r.Loaded) {d : Descriptor} {soft : Bytes} (hc : Canonical r d soft p) :
    r.FitsAt p.selector := by
  intro e he
  rw [hc.selector_eq, (hc.facts hr).2.1] at he
  cases he
  exact hc.fits

end Primitive
end Quadlet
