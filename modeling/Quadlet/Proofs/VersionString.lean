import Quadlet.Proofs.Framing
import Quadlet.Proofs.Hexadecimal
import Quadlet.Proofs.Utf8
/-!
# Version strings — the grammar of the window

A window fits the pattern when it is a version string: a `Spelling`, whose parts carry the proof that their characters
are in their classes (`fits_iff`).  It is the same whether the pattern is held against the octets or against the text
that they spell, if they spell one (`fits_iff_text`).  What is read, and why nothing is, follows from the parts
(`read_of_spelling`), the kind before the size.
-/
namespace Quadlet.VersionHeader

theorem slice_middle (a b c : Bytes) : Bytes.slice (a ++ b ++ c) a.length (a.length + b.length) = b := by
  rw [Bytes.slice, ← List.length_append, List.take_left, List.drop_left]

/-! ## The grammar -/

/-- A word of `n` characters of one class. -/
def Word (n : Nat) (P : UInt8 → Bool) (word : Bytes) : Prop := word.length = n ∧ ∀ c ∈ word, P c = true

/-- **A version string**, part by part: the name of the member, the protocol with its version, the kind of the
serialization and the digits of its size. -/
structure Spelling where
  label : UInt8
  letters : Bytes
  version : Bytes
  kind : Bytes
  digits : Bytes
  isLower_label : isLower label = true
  word_letters : Word 4 isUpper letters
  word_version : Word 2 isHex version
  word_kind : Word 4 isUpper kind
  word_digits : Word 6 isHex digits

namespace Spelling

def protocol (s : Spelling) : Bytes := s.letters ++ s.version

/-- The parts, with what stands between them. -/
def text (s : Spelling) : Bytes :=
  Bytes.ofString "\x7b\"" ++ [s.label] ++ Bytes.ofString "\":\"" ++ s.letters ++ s.version ++ s.kind ++ s.digits ++
    Bytes.ofString "_\""

end Spelling

theorem forall₂_append {α β : Type} {R : α → β → Prop} {l : List α} {p q : List β} :
    List.Forall₂ R l (p ++ q) ↔ ∃ u v, l = u ++ v ∧ List.Forall₂ R u p ∧ List.Forall₂ R v q := by
  constructor
  · intro h
    exact ⟨_, _, (List.take_append_drop p.length l).symm, List.forall₂_take_append _ _ _ h,
      List.forall₂_drop_append _ _ _ h⟩
  · rintro ⟨u, v, rfl, hu, hv⟩
    exact List.rel_append hu hv

theorem forall₂_replicate {P : UInt8 → Bool} {n : Nat} {word : Bytes} :
    List.Forall₂ (fun c Q => Q c = true) word (List.replicate n P) ↔ Word n P word := by
  induction n generalizing word with
  | zero =>
    rw [List.replicate_zero, List.forall₂_nil_right_iff]
    constructor
    · rintro rfl
      exact ⟨rfl, fun _ hc => nomatch hc⟩
    · exact fun h => List.length_eq_zero_iff.1 h.1
  | succ n ih =>
    rw [List.replicate_succ, List.forall₂_cons_right_iff]
    constructor
    · rintro ⟨c, word, hc, hword, rfl⟩
      obtain ⟨hlength, hall⟩ := ih.1 hword
      exact ⟨congrArg (· + 1) hlength, List.forall_mem_cons.2 ⟨hc, hall⟩⟩
    · rintro ⟨hlength, hall⟩
      obtain ⟨c, word, rfl⟩ := List.exists_cons_of_length_eq_add_one hlength
      obtain ⟨hc, hall⟩ := List.forall_mem_cons.1 hall
      exact ⟨c, word, hc, ih.2 ⟨Nat.succ.inj hlength, hall⟩, rfl⟩

theorem fits_iff_forall₂ {window : Bytes} :
    fits window = true ↔ List.Forall₂ (fun c P => P c = true) window pattern := by
  have hlength : pattern.length = windowSize := by decide
  rw [List.forall₂_iff_zip, fits, Bool.and_eq_true, beq_iff_eq, List.all_eq_true, hlength]
  exact and_congr_right (fun _ => ⟨fun h _ _ hmem => h _ hmem, fun h _ hmem => h hmem⟩)

/-- **A window fits the pattern when it is a version string.** -/
theorem fits_iff {window : Bytes} : fits window = true ↔ ∃ s : Spelling, window = s.text := by
  rw [fits_iff_forall₂, pattern]
  simp only [forall₂_append, forall₂_replicate]
  constructor
  · rintro ⟨_, _, rfl, ⟨_, digits, rfl, ⟨_, kind, rfl, ⟨_, version, rfl, ⟨opening, letters, rfl, hopening, hletters⟩,
      hversion⟩, hkind⟩, hdigits⟩, hclosing⟩
    simp only [List.forall₂_cons_right_iff, List.forall₂_nil_right_iff, beq_iff_eq] at hopening hclosing
    obtain ⟨_, _, rfl, ⟨_, _, rfl, ⟨label, _, hlabel, ⟨_, _, rfl, ⟨_, _, rfl, ⟨_, _, rfl, rfl, rfl⟩, rfl⟩, rfl⟩, rfl⟩,
      rfl⟩, rfl⟩ := hopening
    obtain ⟨_, _, rfl, ⟨_, _, rfl, rfl, rfl⟩, rfl⟩ := hclosing
    exact ⟨⟨label, letters, version, kind, digits, hlabel, hletters, hversion, hkind, hdigits⟩, rfl⟩
  · rintro ⟨s, rfl⟩
    refine ⟨_, _, rfl, ⟨_, _, rfl, ⟨_, _, rfl, ⟨_, _, rfl, ⟨_, _, rfl, ?_, s.word_letters⟩, s.word_version⟩,
      s.word_kind⟩, s.word_digits⟩, ?_⟩
    · exact .cons rfl (.cons rfl (.cons s.isLower_label (.cons rfl (.cons rfl (.cons rfl .nil)))))
    · exact .cons rfl (.cons rfl .nil)

/-! ## The parts of a window -/

namespace Spelling

variable (s : Spelling)

theorem length_protocol : s.protocol.length = 6 := by
  rw [protocol, List.length_append, s.word_letters.1, s.word_version.1]

/-- What stands before the protocol. -/
def opening : Bytes := Bytes.ofString "\x7b\"" ++ [s.label] ++ Bytes.ofString "\":\""

theorem length_opening : s.opening.length = 6 := rfl

theorem text_eq : s.text = s.opening ++ s.protocol ++ s.kind ++ s.digits ++ Bytes.ofString "_\"" := by
  simp only [text, opening, protocol, List.append_assoc]

theorem length_text : s.text.length = windowSize := by
  simp only [text_eq, List.length_append, length_opening, length_protocol, s.word_kind.1, s.word_digits.1]
  rfl

theorem protocolOf_text : protocolOf s.text = s.protocol := by
  have h := slice_middle s.opening s.protocol (s.kind ++ (s.digits ++ Bytes.ofString "_\""))
  rwa [s.length_protocol, s.length_opening, ← List.append_assoc, ← List.append_assoc, ← s.text_eq] at h

theorem kindOf_text : kindOf s.text = s.kind := by
  have h := slice_middle (s.opening ++ s.protocol) s.kind (s.digits ++ Bytes.ofString "_\"")
  rwa [List.length_append, s.length_protocol, s.length_opening, s.word_kind.1, ← List.append_assoc, ← s.text_eq] at h

theorem digitsOf_text : digitsOf s.text = s.digits := by
  have h := slice_middle (s.opening ++ s.protocol ++ s.kind) s.digits (Bytes.ofString "_\"")
  rwa [List.length_append, List.length_append, s.length_protocol, s.length_opening, s.word_kind.1, s.word_digits.1,
    ← s.text_eq] at h

theorem parts_eq {s t : Spelling} (h : s.text = t.text) :
    s.protocol = t.protocol ∧ s.kind = t.kind ∧ s.digits = t.digits := by
  rw [← s.protocolOf_text, ← s.kindOf_text, ← s.digitsOf_text, h, t.protocolOf_text, t.kindOf_text, t.digitsOf_text]
  exact ⟨rfl, rfl, rfl⟩

end Spelling

theorem isSome_value?_of_isHex {c : UInt8} (h : isHex c = true) : (Hex.value? c).isSome = true := by
  simp only [isHex, Bool.or_eq_true, Bool.and_eq_true, decide_eq_true_eq] at h
  unfold Hex.value?
  split
  · rfl
  next hdigit =>
  rw [if_pos (h.resolve_left hdigit)]
  rfl

theorem decodeNat_digits (s : Spelling) : Hex.decodeNat s.digits = .ok (Hex.number s.digits) := by
  obtain ⟨hlength, hall⟩ := s.word_digits
  exact Hex.decodeNat_of_digits (by rw [hlength]) (by rw [hlength]; decide)
    (fun c hc => isSome_value?_of_isHex (hall c hc))

/-! ## Reading -/

variable {input : Bytes}

theorem read_of_length_lt (h : input.length < windowSize) :
    VersionHeader.read input = .error (.shortageOf input.length windowSize) := by
  rw [VersionHeader.read, if_pos h]

theorem read_of_no_spelling (hlen : windowSize ≤ input.length) (h : ¬∃ s : Spelling, input.take windowSize = s.text) :
    VersionHeader.read input = .error (.unsupportedHeader (input.take windowSize)) := by
  rw [← fits_iff, Bool.not_eq_true] at h
  simp only [VersionHeader.read, if_neg (Nat.not_lt.2 hlen), h, Bool.not_false, if_true]

theorem le_length_of_spelling {s : Spelling} (h : input.take windowSize = s.text) : windowSize ≤ input.length := by
  have hlength := congrArg List.length h
  rw [s.length_text, List.length_take] at hlength
  omega

/-- **A version string is read by its parts**: the kind is checked before the size is. -/
theorem read_of_spelling (s : Spelling) (h : input.take windowSize = s.text) :
    VersionHeader.read input =
      if s.kind ≠ json then .error (.unsupportedSerialization s.kind)
      else if Hex.number s.digits < windowSize then .error (.unsupportedHeader s.text)
      else .ok ⟨s.protocol, s.kind, s.digits, Hex.number s.digits⟩ := by
  unfold VersionHeader.read
  rw [if_neg (Nat.not_lt.2 (le_length_of_spelling h)), h]
  dsimp only
  rw [fits_iff.2 ⟨s, rfl⟩, s.kindOf_text, s.digitsOf_text, s.protocolOf_text, decodeNat_digits]
  rfl

/-! ## The window as a text -/

/-- The pattern holds of the first characters of a text, all of them ASCII. -/
def FitsText (text : List Char) : Prop :=
  List.Forall₂ (fun c P => c.toNat < 0x80 ∧ P (UInt8.ofNat c.toNat) = true) (text.take windowSize) pattern

theorem ascii_of_mem_pattern {P : UInt8 → Bool} (hP : P ∈ pattern) {c : UInt8} (hc : P c = true) :
    0 < c.toNat ∧ c.toNat < 0x80 := by
  have hall : ∀ n < 256, pattern.all (fun P => !P (UInt8.ofNat n) || decide (0 < n ∧ n < 0x80)) = true := by
    decide +kernel
  have h := List.all_eq_true.1 (hall c.toNat c.toNat_lt) P hP
  rw [UInt8.ofNat_toNat, hc] at h
  simpa using h

/-- Who is in the classes of the pattern is ASCII, and not the null character. -/
theorem ascii_of_forall₂ {word : Bytes} {ps : List (UInt8 → Bool)} (h : List.Forall₂ (fun c P => P c = true) word ps)
    (hps : ∀ P ∈ ps, P ∈ pattern) : ∀ c ∈ word, 0 < c.toNat ∧ c.toNat < 0x80 := by
  induction h with
  | nil => exact fun _ hc => nomatch hc
  | cons hP _ ih =>
    obtain ⟨hmem, hps⟩ := List.forall_mem_cons.1 hps
    exact List.forall_mem_cons.2 ⟨ascii_of_mem_pattern hmem hP, ih hps⟩

/-- **A window fits the pattern when it is UTF-8 and its text starts as the pattern says**: a text of so many
characters, all of them ASCII, fills the window. -/
theorem fits_iff_text {window : Bytes} (hlen : window.length = windowSize) :
    fits window = true ↔ ∃ text, Utf8.decode window = .ok text ∧ FitsText text.toList := by
  rw [fits_iff_forall₂]
  constructor
  · intro h
    have hascii := ascii_of_forall₂ h (fun _ hP => hP)
    have hisAscii : Bytes.isAscii window = true :=
      List.all_eq_true.2 (fun c hc => decide_eq_true (UInt8.lt_iff_toNat_lt.2 (hascii c hc).2))
    refine ⟨String.ofList (window.map (fun c => Char.ofNat c.toNat)), ?_, ?_⟩
    · rw [Utf8.decode, Utf8.scan_of_isAscii hisAscii]
    · rw [FitsText, String.toList_ofList, List.take_of_length_le (Nat.le_of_eq ((List.length_map _).trans hlen)),
        List.forall₂_map_left_iff]
      refine List.Forall₂.imp ?_ ((List.forall₂_and_left window pattern).2 ⟨hascii, h⟩)
      rintro c P ⟨⟨-, hlt⟩, hc⟩
      rw [Utf8.toNat_ofNat_of_lt hlt, UInt8.ofNat_toNat]
      exact ⟨hlt, hc⟩
  · rintro ⟨text, htext, hfits⟩
    obtain ⟨cs, hscan, rfl⟩ : ∃ cs, (Utf8.scan window).1 = cs ∧ text = String.ofList cs := by
      unfold Utf8.decode at htext
      split at htext
      · next cs hscan =>
        cases htext
        exact ⟨cs, by rw [hscan], rfl⟩
      · cases htext
    rw [FitsText, String.toList_ofList] at hfits
    have hcs : windowSize ≤ cs.length := by
      have hlength := hfits.length_eq
      rw [List.length_take, show pattern.length = windowSize by decide] at hlength
      omega
    -- the octets with the numbers of these characters are what the classes look at
    obtain ⟨hlow, hfits⟩ := (List.forall₂_and_left _ _).1 hfits
    have hoctets : List.Forall₂ (fun c P => P c = true) ((cs.take windowSize).map (fun c => UInt8.ofNat c.toNat))
        pattern := List.forall₂_map_left_iff.2 hfits
    have hascii : ∀ c ∈ cs.take windowSize, 0 < c.toNat ∧ c.toNat < 0x80 := by
      intro c hc
      have hpos := (ascii_of_forall₂ hoctets (fun _ hP => hP) _ (List.mem_map_of_mem hc)).1
      have hlt := hlow c hc
      rw [UInt8.toNat_ofNat', Nat.mod_eq_of_lt (by omega)] at hpos
      exact ⟨hpos, hlt⟩
    have hwindow : window = (cs.take windowSize).map (fun c => UInt8.ofNat c.toNat) := by
      have hsame := congrArg (List.map UInt8.ofNat) (Utf8.take_of_scan windowSize hscan hcs hascii)
      rw [← hlen, List.take_length, List.map_map, List.map_map, hlen] at hsame
      simpa [Function.comp_def] using hsame
    rwa [hwindow]

/-! ## What is read, and what is not -/

/-- The three inputs: without a window, without a version string in it, and with one. -/
inductive Window (input : Bytes) : Prop where
  | short : input.length < windowSize → Window input
  | other : windowSize ≤ input.length → (¬∃ s : Spelling, input.take windowSize = s.text) → Window input
  | spelled (s : Spelling) : input.take windowSize = s.text → Window input

theorem window (input : Bytes) : Window input := by
  rcases Nat.lt_or_ge input.length windowSize with hlt | hle
  · exact .short hlt
  · by_cases h : ∃ s : Spelling, input.take windowSize = s.text
    · obtain ⟨s, hs⟩ := h
      exact .spelled s hs
    · exact .other hle h

theorem read_eq_ok_iff_spelled {v : VersionHeader} :
    VersionHeader.read input = .ok v ↔
      windowSize ≤ input.length ∧ ∃ s : Spelling, input.take windowSize = s.text ∧ s.kind = json ∧
        windowSize ≤ Hex.number s.digits ∧ v = ⟨s.protocol, s.kind, s.digits, Hex.number s.digits⟩ := by
  constructor
  · intro h
    cases window input with
    | short hlt =>
      rw [read_of_length_lt hlt] at h
      cases h
    | other hle hno =>
      rw [read_of_no_spelling hle hno] at h
      cases h
    | spelled s hs =>
      rw [read_of_spelling s hs] at h
      split at h
      · cases h
      next hkind =>
      split at h
      · cases h
      next hsize =>
      exact ⟨le_length_of_spelling hs, s, hs, Decidable.not_not.1 hkind, Nat.not_lt.1 hsize, (Except.ok.inj h).symm⟩
  · rintro ⟨-, s, hs, hkind, hsize, rfl⟩
    rw [read_of_spelling s hs, if_neg (not_not_intro hkind), if_neg (Nat.not_lt.2 hsize)]

/-- **Why there is no version string**: too few bytes, another kind of serialization, whatever its size is, or a window
that has neither that nor a size which covers it. -/
theorem read_eq_error_iff {e : DecodeError} :
    VersionHeader.read input = .error e ↔
      (input.length < windowSize ∧ e = .shortageOf input.length windowSize) ∨
      (∃ s : Spelling, input.take windowSize = s.text ∧ s.kind ≠ json ∧ e = .unsupportedSerialization s.kind) ∨
      (windowSize ≤ input.length ∧ e = .unsupportedHeader (input.take windowSize) ∧
        ∀ s : Spelling, input.take windowSize = s.text → s.kind = json ∧ Hex.number s.digits < windowSize) := by
  cases window input with
  | short hlt =>
    rw [read_of_length_lt hlt, Except.error.injEq]
    constructor
    · exact fun h => .inl ⟨hlt, h.symm⟩
    · rintro (⟨-, rfl⟩ | ⟨s, hs, -⟩ | ⟨hle, -⟩)
      · rfl
      · exact absurd hlt (Nat.not_lt.2 (le_length_of_spelling hs))
      · exact absurd hlt (Nat.not_lt.2 hle)
  | other hle hno =>
    rw [read_of_no_spelling hle hno, Except.error.injEq]
    constructor
    · exact fun h => .inr (.inr ⟨hle, h.symm, fun s hs => absurd ⟨s, hs⟩ hno⟩)
    · rintro (⟨hlt, -⟩ | ⟨s, hs, -⟩ | ⟨-, rfl, -⟩)
      · exact absurd hlt (Nat.not_lt.2 hle)
      · exact absurd ⟨s, hs⟩ hno
      · rfl
  | spelled s hs =>
    have hle := le_length_of_spelling hs
    rw [read_of_spelling s hs]
    constructor
    · intro h
      split at h
      · next hkind =>
        cases h
        exact .inr (.inl ⟨s, hs, hkind, rfl⟩)
      next hkind =>
      split at h
      · next hsize =>
        cases h
        refine .inr (.inr ⟨hle, by rw [hs], fun t ht => ?_⟩)
        obtain ⟨-, hk, hd⟩ := Spelling.parts_eq (hs.symm.trans ht)
        rw [← hk, ← hd]
        exact ⟨Decidable.not_not.1 hkind, hsize⟩
      · cases h
    · rintro (⟨hlt, -⟩ | ⟨t, ht, hkind, rfl⟩ | ⟨-, rfl, hall⟩)
      · exact absurd hlt (Nat.not_lt.2 hle)
      · obtain ⟨-, hk, -⟩ := Spelling.parts_eq (hs.symm.trans ht)
        rw [hk, if_pos hkind]
      · obtain ⟨hkind, hsize⟩ := hall s hs
        rw [if_neg (not_not_intro hkind), if_pos hsize, hs]

/-- Nothing behind the window is looked at. -/
theorem read_congr {other : Bytes} (h : other.take windowSize = input.take windowSize) :
    VersionHeader.read other = VersionHeader.read input := by
  have hlength := congrArg List.length h
  rw [List.length_take, List.length_take] at hlength
  unfold VersionHeader.read
  rw [h]
  by_cases hlt : input.length < windowSize
  · rw [if_pos hlt, if_pos (by omega), show other.length = input.length by omega]
  · rw [if_neg hlt, if_neg (by omega)]

/-- **A version string is read exactly where the grammar has one**, and refused for what it is not: too few bytes,
another kind of serialization whatever its size is, or none of the two; only the window is looked at. -/
theorem read_grammar (input : Bytes) :
    (∀ v, VersionHeader.read input = .ok v ↔
      windowSize ≤ input.length ∧ ∃ s : Spelling, input.take windowSize = s.text ∧ s.kind = json ∧
        windowSize ≤ Hex.number s.digits ∧ v = ⟨s.protocol, s.kind, s.digits, Hex.number s.digits⟩) ∧
    (∀ available need, VersionHeader.read input = .error (.shortage available need) ↔
      input.length < windowSize ∧ available = input.length ∧ need = windowSize - input.length) ∧
    (∀ kind, VersionHeader.read input = .error (.unsupportedSerialization kind) ↔
      ∃ s : Spelling, input.take windowSize = s.text ∧ s.kind = kind ∧ kind ≠ json) ∧
    (∀ window, VersionHeader.read input = .error (.unsupportedHeader window) ↔
      windowSize ≤ input.length ∧ window = input.take windowSize ∧
        ∀ s : Spelling, window = s.text → s.kind = json ∧ Hex.number s.digits < windowSize) ∧
    (∀ e, VersionHeader.read input = .error e → (∃ available need, e = .shortage available need) ∨
      (∃ kind, e = .unsupportedSerialization kind) ∨ ∃ window, e = .unsupportedHeader window) ∧
    ∀ other : Bytes, other.take windowSize = input.take windowSize →
      VersionHeader.read other = VersionHeader.read input := by
  refine ⟨fun v => read_eq_ok_iff_spelled, fun available need => ?_, fun kind => ?_, fun window => ?_, fun e he => ?_,
    fun other h => read_congr h⟩
  · rw [read_eq_error_iff]
    simp only [DecodeError.shortageOf, DecodeError.shortage.injEq, reduceCtorEq, and_false, false_and, exists_false,
      or_false]
  · rw [read_eq_error_iff]
    constructor
    · rintro (⟨-, he⟩ | ⟨s, hs, hkind, he⟩ | ⟨-, he, -⟩) <;> cases he
      exact ⟨s, hs, rfl, hkind⟩
    · rintro ⟨s, hs, rfl, hkind⟩
      exact .inr (.inl ⟨s, hs, hkind, rfl⟩)
  · rw [read_eq_error_iff]
    constructor
    · rintro (⟨-, he⟩ | ⟨s, -, -, he⟩ | ⟨hle, he, hall⟩) <;> cases he
      exact ⟨hle, rfl, hall⟩
    · rintro ⟨hle, rfl, hall⟩
      exact .inr (.inr ⟨hle, rfl, hall⟩)
  · rcases read_eq_error_iff.1 he with ⟨-, rfl⟩ | ⟨s, -, -, rfl⟩ | ⟨-, rfl, -⟩
    · exact .inl ⟨_, _, rfl⟩
    · exact .inr (.inl ⟨_, rfl⟩)
    · exact .inr (.inr ⟨_, rfl⟩)

/-- A serialization of 291 bytes; another kind, with a size that covers nothing; and a window cut inside a character. -/
theorem read_grammar_windows :
    VersionHeader.read (Bytes.ofString "\x7b\"v\":\"KERI10JSON000123_\",") =
        .ok ⟨Bytes.ofString "KERI10", json, Bytes.ofString "000123", 291⟩ ∧
      VersionHeader.read (Bytes.ofString "\x7b\"v\":\"KERI10CBOR000000_\",") =
        .error (.unsupportedSerialization (Bytes.ofString "CBOR")) ∧
      VersionHeader.read (Bytes.ofString "\x7b\"v\":\"KERI10JSON000123_é") =
        .error (.unsupportedHeader ((Bytes.ofString "\x7b\"v\":\"KERI10JSON000123_é").take windowSize)) := by
  have keri : Word 4 isUpper (Bytes.ofString "KERI") := ⟨rfl, List.all_eq_true.1 (by decide)⟩
  have ten : Word 2 isHex (Bytes.ofString "10") := ⟨rfl, List.all_eq_true.1 (by decide)⟩
  have hsize : windowSize ≤ Hex.number (Bytes.ofString "000123") := by decide
  let s : Spelling := ⟨'v'.toUInt8, _, _, json, Bytes.ofString "000123", by decide, keri, ten,
    ⟨rfl, List.all_eq_true.1 (by decide)⟩, ⟨rfl, List.all_eq_true.1 (by decide)⟩⟩
  let other : Spelling := ⟨'v'.toUInt8, _, _, Bytes.ofString "CBOR", Bytes.ofString "000000", by decide, keri, ten,
    ⟨rfl, List.all_eq_true.1 (by decide)⟩, ⟨rfl, List.all_eq_true.1 (by decide)⟩⟩
  exact ⟨((read_grammar _).1 _).2 ⟨by decide, s, rfl, rfl, hsize, rfl⟩,
    ((read_grammar _).2.2.1 _).2 ⟨other, rfl, rfl, by decide⟩,
    ((read_grammar _).2.2.2.1 _).2 ⟨by decide, rfl, fun t ht => absurd (fits_iff.2 ⟨t, ht⟩) (by decide)⟩⟩

end Quadlet.VersionHeader
