import Quadlet.Proofs.Loaded
import Quadlet.Proofs.Numeral
/-!
# Hexadecimal laws — octets and numbers in pairs of digits

Octets are read back from their text, and a text of digits is written back in lowercase, the form that the writer knows
(`encode_of_decodePairs`).  The reader puts the octets together pair by pair and only then the number; digits spell the
same number one by one (`decodeNat_of_digits`), since two digits in a row are one octet.  An odd length is found first,
then a bad digit, and last that there are more digits than a word holds (`decodeNat_eq_error`).  The first and the last
of these are reported alike.
-/
namespace Quadlet.Hex

/-! ## Characters -/

/-- The digits in lowercase, in the order of their values. -/
def digits : Bytes := Base64.Alphabet.run '0' 10 ++ Base64.Alphabet.run 'a' 6

/-- One of `0-9 a-f A-F`. -/
def isDigit (c : UInt8) : Bool := c ∈ digits ++ Base64.Alphabet.run 'A' 6

/-- A character in lowercase, as ASCII has it. -/
def lower (c : UInt8) : UInt8 := if 'A'.toUInt8 ≤ c ∧ c ≤ 'Z'.toUInt8 then c + 0x20 else c

/-- **The value of a digit is its place among the digits**, in lowercase, and no other character has one. -/
theorem value?_eq (c : UInt8) : value? c = if isDigit c then some (digits.idxOf (lower c)) else none := by
  have hall : ∀ n < 256, value? (UInt8.ofNat n) =
      if isDigit (UInt8.ofNat n) then some (digits.idxOf (lower (UInt8.ofNat n))) else none := by decide +kernel
  have hc := hall c.toNat c.toNat_lt
  rwa [UInt8.ofNat_toNat] at hc

theorem value?_eq_some {c : UInt8} {v : Nat} :
    value? c = some v ↔ isDigit c = true ∧ v = digits.idxOf (lower c) := by
  rw [value?_eq]
  split
  · next hc => rw [and_iff_right hc, Option.some.injEq, eq_comm]
  · next hc => exact ⟨fun h => (by cases h), fun h => absurd h.1 hc⟩

theorem value?_lt {c : UInt8} {v : Nat} (h : value? c = some v) : v < 16 := by
  have hall : ∀ c ∈ digits ++ Base64.Alphabet.run 'A' 6, digits.idxOf (lower c) < 16 := by decide +kernel
  obtain ⟨hc, rfl⟩ := value?_eq_some.1 h
  exact hall c (of_decide_eq_true hc)

theorem valueAt_eq_ok {i v : Nat} {c : UInt8} : valueAt i c = .ok v ↔ value? c = some v := by
  unfold valueAt
  cases value? c <;> simp

theorem valueAt_eq_error {i : Nat} {c : UInt8} {e : TextError} :
    valueAt i c = .error e ↔ isDigit c = false ∧ e = .invalidCharacter c i := by
  unfold valueAt
  rw [value?_eq]
  cases isDigit c <;> simp [eq_comm]

theorem digit_mod (n : Nat) : digit (n % 16) = digit n := by simp [digit]

theorem digit_mem (n : Nat) : digit n ∈ digits := by
  have hall : ∀ n < 16, digit n ∈ digits := by decide
  rw [← digit_mod]
  exact hall _ (Nat.mod_lt _ (by decide))

theorem digit_of_value? {c : UInt8} {v : Nat} (h : value? c = some v) : digit v = lower c := by
  have hall : ∀ c ∈ digits ++ Base64.Alphabet.run 'A' 6, digit (digits.idxOf (lower c)) = lower c := by
    decide +kernel
  obtain ⟨hc, rfl⟩ := value?_eq_some.1 h
  exact hall c (of_decide_eq_true hc)

/-! ## Octets -/

theorem encode_cons (x : UInt8) (b : Bytes) : encode (x :: b) = digit (x.toNat / 16) :: digit x.toNat :: encode b := rfl

theorem length_encode : ∀ b : Bytes, (encode b).length = 2 * b.length
  | [] => rfl
  | x :: b => by
    rw [encode_cons, List.length_cons, List.length_cons, length_encode b, List.length_cons]
    omega

theorem mem_encode {b : Bytes} {c : UInt8} (h : c ∈ encode b) : c ∈ digits := by
  obtain ⟨x, -, hc⟩ := List.mem_flatMap.1 h
  rcases List.mem_cons.1 hc with rfl | hc
  · exact digit_mem _
  · rw [List.mem_singleton.1 hc]
    exact digit_mem _

theorem decodePairs_encode : ∀ (i : Nat) (b : Bytes), decodePairs i (encode b) = .ok b
  | _, [] => rfl
  | i, x :: b => by
    have hx := x.toNat_lt
    rw [encode_cons]
    unfold decodePairs
    refine bind_eq_ok.2 ⟨_, valueAt_eq_ok.2 (value?_digit _), bind_eq_ok.2 ⟨_, valueAt_eq_ok.2 (value?_digit _),
      bind_eq_ok.2 ⟨b, decodePairs_encode (i + 2) b, ?_⟩⟩⟩
    rw [show x.toNat / 16 % 16 * 16 + x.toNat % 16 = x.toNat by omega, UInt8.ofNat_toNat]
    rfl

/-- **Octets are read back from their text.** -/
theorem decode_encode (b : Bytes) : decode (encode b) = .ok b := by
  rw [decode, if_neg (by rw [length_encode]; omega)]
  exact decodePairs_encode 0 b

/-- **What pairs are read to is written as the pairs in lowercase**, and all of them are digits. -/
theorem encode_of_decodePairs : ∀ {i : Nat} {text octets : Bytes}, text.length % 2 = 0 →
    decodePairs i text = .ok octets → (∀ c ∈ text, isDigit c = true) ∧ encode octets = text.map lower
  | _, [], _, _, h => by
    cases h
    exact ⟨fun _ hc => (by cases hc), rfl⟩
  | _, [_], _, heven, _ => by
    rw [List.length_singleton] at heven
    cases heven
  | i, high :: low :: rest, octets, heven, h => by
    unfold decodePairs at h
    obtain ⟨v, hhigh, h⟩ := bind_eq_ok.1 h
    obtain ⟨w, hlow, h⟩ := bind_eq_ok.1 h
    obtain ⟨octets, hrest, h⟩ := bind_eq_ok.1 h
    cases h
    have hhigh := valueAt_eq_ok.1 hhigh
    have hlow := valueAt_eq_ok.1 hlow
    obtain ⟨hdigits, hencode⟩ := encode_of_decodePairs (by simp only [List.length_cons] at heven; omega) hrest
    constructor
    · intro c hc
      rcases List.mem_cons.1 hc with rfl | hc
      · exact (value?_eq_some.1 hhigh).1
      rcases List.mem_cons.1 hc with rfl | hc
      · exact (value?_eq_some.1 hlow).1
      · exact hdigits c hc
    · have hv := value?_lt hhigh
      have hw := value?_lt hlow
      rw [encode_cons, UInt8.toNat_ofNat', Nat.mod_eq_of_lt (by omega), ← digit_mod (v * 16 + w),
        show (v * 16 + w) / 16 = v by omega, show (v * 16 + w) % 16 = w by omega, digit_of_value? hhigh,
        digit_of_value? hlow, hencode]
      rfl

/-- **The first bad digit of the pairs is the one that is reported**, with its offset. -/
theorem decodePairs_eq_error : ∀ {i : Nat} {text : Bytes} {e : TextError}, text.length % 2 = 0 →
    (decodePairs i text = .error e ↔ ∃ c, text.find? (!isDigit ·) = some c ∧
      e = .invalidCharacter c (i + text.findIdx (!isDigit ·)))
  | _, [], _, _ => ⟨fun h => (by cases h), fun ⟨_, h, _⟩ => (by cases h)⟩
  | _, [_], _, heven => by
    rw [List.length_singleton] at heven
    cases heven
  | i, high :: low :: rest, e, heven => by
    have ih := @decodePairs_eq_error (i + 2) rest e (by simp only [List.length_cons] at heven; omega)
    unfold decodePairs
    -- the pair is at fault in its first half, in its second, or the fault is behind it
    cases hhigh : isDigit high with
    | false =>
      have hv : valueAt i high = .error (.invalidCharacter high i) := valueAt_eq_error.2 ⟨hhigh, rfl⟩
      simp [hv, hhigh, List.findIdx_cons, bind, Except.bind, eq_comm]
    | true =>
      obtain ⟨v, hv⟩ : ∃ v, valueAt i high = .ok v := ⟨_, valueAt_eq_ok.2 (value?_eq_some.2 ⟨hhigh, rfl⟩)⟩
      cases hlow : isDigit low with
      | false =>
        have hw : valueAt (i + 1) low = .error (.invalidCharacter low (i + 1)) := valueAt_eq_error.2 ⟨hlow, rfl⟩
        simp [hv, hw, hhigh, hlow, List.findIdx_cons, bind, Except.bind, eq_comm]
      | true =>
        obtain ⟨w, hw⟩ : ∃ w, valueAt (i + 1) low = .ok w := ⟨_, valueAt_eq_ok.2 (value?_eq_some.2 ⟨hlow, rfl⟩)⟩
        have hfind : (high :: low :: rest).find? (!isDigit ·) = rest.find? (!isDigit ·) := by simp [hhigh, hlow]
        have hindex : i + (high :: low :: rest).findIdx (!isDigit ·) = i + 2 + rest.findIdx (!isDigit ·) := by
          simp only [List.findIdx_cons, hhigh, hlow, Bool.not_true, cond_false]
          omega
        rw [hv, hw, hfind, hindex, ← ih]
        show (decodePairs (i + 2) rest >>= fun octets => .ok (UInt8.ofNat (v * 16 + w) :: octets)) = .error e ↔ _
        rw [bind_eq_error, or_iff_left (fun ⟨_, _, h⟩ => (by cases h))]

theorem exists_decode_iff {text : Bytes} :
    (∃ octets, decode text = .ok octets) ↔ text.length % 2 = 0 ∧ ∀ c ∈ text, isDigit c = true := by
  unfold decode
  split
  · next hodd => exact ⟨fun ⟨_, h⟩ => (by cases h), fun h => (by omega)⟩
  · next hodd =>
    have heven : text.length % 2 = 0 := by omega
    rw [and_iff_right heven]
    refine ⟨fun ⟨_, h⟩ => (encode_of_decodePairs heven h).1, fun hdigits => ?_⟩
    cases h : decodePairs 0 text with
    | ok octets => exact ⟨octets, rfl⟩
    | error e =>
      obtain ⟨c, hc, -⟩ := (decodePairs_eq_error heven).1 h
      have hbad := List.find?_some hc
      rw [hdigits c (List.mem_of_find?_eq_some hc)] at hbad
      cases hbad

theorem encode_of_decode {text octets : Bytes} (h : decode text = .ok octets) : encode octets = text.map lower := by
  unfold decode at h
  split at h
  · cases h
  · exact (encode_of_decodePairs (by omega) h).2

theorem length_of_decode {text octets : Bytes} (h : decode text = .ok octets) : text.length = 2 * octets.length := by
  have hlength := congrArg List.length (encode_of_decode h)
  rw [length_encode, List.length_map] at hlength
  exact hlength.symm

/-- **What is no text of octets** has an odd length, which is found first, or a character that is no digit. -/
theorem decode_eq_error {text : Bytes} {e : TextError} :
    decode text = .error e ↔ text.length % 2 = 1 ∧ e = .invalidLength text.length ∨
      text.length % 2 = 0 ∧ ∃ c, text.find? (!isDigit ·) = some c ∧
        e = .invalidCharacter c (text.findIdx (!isDigit ·)) := by
  unfold decode
  split
  · next hodd =>
    refine ⟨fun h => by cases h; exact .inl ⟨hodd, rfl⟩, ?_⟩
    rintro (⟨-, rfl⟩ | ⟨heven, -⟩)
    · rfl
    · omega
  · next hodd =>
    have heven : text.length % 2 = 0 := by omega
    rw [or_iff_right (fun h => hodd h.1), and_iff_right heven, decodePairs_eq_error heven, Nat.zero_add]

/-! ## Numbers -/

/-- The number that digits spell, one by one, the most significant first. -/
def number (digits : Bytes) : Nat := digits.foldl (fun n c => n * 16 + (value? c).getD 0) 0

/-- Pairs of digits are read, to octets that add up to the same number. -/
theorem decodePairs_of_digits :
    ∀ (i : Nat) (text : Bytes), text.length % 2 = 0 → (∀ c ∈ text, (value? c).isSome = true) →
      ∃ octets, decodePairs i text = .ok octets ∧ text.length = 2 * octets.length ∧
        ∀ n, octets.foldl (fun n x => n * 256 + x.toNat) n = text.foldl (fun n c => n * 16 + (value? c).getD 0) n
  | _, [], _, _ => ⟨[], rfl, rfl, fun _ => rfl⟩
  | _, [_], heven, _ => by
    rw [List.length_singleton] at heven
    cases heven
  | i, high :: low :: rest, heven, hdigits => by
    obtain ⟨h, hhigh⟩ := Option.isSome_iff_exists.1 (hdigits high (by simp))
    obtain ⟨l, hlow⟩ := Option.isSome_iff_exists.1 (hdigits low (by simp))
    obtain ⟨octets, hrest, hlength, hfold⟩ := decodePairs_of_digits (i + 2) rest
      (by simp only [List.length_cons] at heven; omega) (fun c hc => hdigits c (by simp [hc]))
    refine ⟨UInt8.ofNat (h * 16 + l) :: octets, ?_, ?_, fun n => ?_⟩
    · unfold decodePairs
      exact bind_eq_ok.2 ⟨h, valueAt_eq_ok.2 hhigh, bind_eq_ok.2 ⟨l, valueAt_eq_ok.2 hlow,
        bind_eq_ok.2 ⟨octets, hrest, rfl⟩⟩⟩
    · simp only [List.length_cons, hlength]
      omega
    · -- two digits shift the number by an octet
      have hh := value?_lt hhigh
      have hl := value?_lt hlow
      rw [List.foldl_cons, List.foldl_cons, List.foldl_cons, hhigh, hlow, hfold, UInt8.toNat_ofNat',
        Nat.mod_eq_of_lt (by omega)]
      congr 1
      simp only [Option.getD_some]
      omega

/-- **An even number of digits, sixteen at most, is read as the number that they spell.** -/
theorem decodeNat_of_digits {text : Bytes} (heven : text.length % 2 = 0) (hle : text.length ≤ 16)
    (hdigits : ∀ c ∈ text, (value? c).isSome = true) : decodeNat text = .ok (number text) := by
  obtain ⟨octets, hoctets, hlength, hfold⟩ := decodePairs_of_digits 0 text heven hdigits
  have hdecode : decode text = .ok octets := by rw [decode, if_neg (by omega), hoctets]
  unfold decodeNat
  refine bind_eq_ok.2 ⟨octets, hdecode, ?_⟩
  rw [if_neg (by omega), bigEndian, hfold, number]

theorem isSome_value? {text : Bytes} (h : ∀ c ∈ text, isDigit c = true) : ∀ c ∈ text, (value? c).isSome = true :=
  fun c hc => Option.isSome_iff_exists.2 ⟨_, value?_eq_some.2 ⟨h c hc, rfl⟩⟩

theorem number_eq_ofDigits {text : Bytes} (h : ∀ c ∈ text, isDigit c = true) :
    number text = Nat.ofDigits 16 (text.reverse.map fun c => digits.idxOf (lower c)) := by
  rw [number, Numeral.foldl_eq_ofDigits 16 (fun c => (value? c).getD 0) text]
  refine congrArg (Nat.ofDigits 16) (List.map_congr_left fun c hc => ?_)
  rw [value?_eq, if_pos (h c (List.mem_reverse.1 hc)), Option.getD_some]

theorem number_lt {text : Bytes} (h : ∀ c ∈ text, isDigit c = true) : number text < 16 ^ text.length := by
  rw [number_eq_ofDigits h]
  have hlt := Nat.ofDigits_lt_base_pow_length (b := 16) (l := text.reverse.map fun c => digits.idxOf (lower c))
    (by decide) fun v hv => by
      obtain ⟨c, hc, rfl⟩ := List.mem_map.1 hv
      exact value?_lt (value?_eq_some.2 ⟨h c (List.mem_reverse.1 hc), rfl⟩)
  rwa [List.length_map, List.length_reverse] at hlt

/-- **A text is a number exactly if it is octets of sixteen digits at most**, and then it is the number of its digits. -/
theorem decodeNat_eq_ok {text : Bytes} {n : Nat} :
    decodeNat text = .ok n ↔ (∃ octets, decode text = .ok octets) ∧ text.length ≤ 16 ∧ n = number text := by
  have hread : (∃ octets, decode text = .ok octets) → text.length ≤ 16 → decodeNat text = .ok (number text) := by
    intro hdecode hle
    obtain ⟨heven, hdigits⟩ := exists_decode_iff.1 hdecode
    exact decodeNat_of_digits heven hle (isSome_value? hdigits)
  constructor
  · intro h
    obtain ⟨octets, hdecode, hwidth⟩ := bind_eq_ok.1 h
    have hlength := length_of_decode hdecode
    have hle : text.length ≤ 16 := by
      split at hwidth
      · cases hwidth
      · omega
    rw [hread ⟨octets, hdecode⟩ hle] at h
    exact ⟨⟨octets, hdecode⟩, hle, (Except.ok.inj h).symm⟩
  · rintro ⟨hdecode, hle, rfl⟩
    exact hread hdecode hle

/-- **What is no number** is no octets, or has more than sixteen digits, which is found last. -/
theorem decodeNat_eq_error {text : Bytes} {e : TextError} :
    decodeNat text = .error e ↔ decode text = .error e ∨
      (∃ octets, decode text = .ok octets) ∧ 16 < text.length ∧ e = .invalidLength text.length := by
  unfold decodeNat
  rw [bind_eq_error]
  refine or_congr_right ⟨?_, ?_⟩
  · rintro ⟨octets, hdecode, hwidth⟩
    have hlength := length_of_decode hdecode
    split at hwidth <;> cases hwidth
    exact ⟨⟨octets, hdecode⟩, by omega, rfl⟩
  · rintro ⟨⟨octets, hdecode⟩, hwide, rfl⟩
    have hlength := length_of_decode hdecode
    exact ⟨octets, hdecode, if_pos (by omega)⟩

/-! ## Big-endian octets -/

/-- The last `width` octets of a number, the most significant first. -/
def octetsOf : (width n : Nat) → Bytes
  | 0, _ => []
  | width + 1, n => octetsOf width (n / 256) ++ [UInt8.ofNat n]

theorem length_octetsOf : ∀ width n, (octetsOf width n).length = width
  | 0, _ => rfl
  | width + 1, n => by rw [octetsOf, List.length_append, length_octetsOf width, List.length_singleton]

theorem bigEndian_octetsOf : ∀ {width n : Nat}, n < 256 ^ width → bigEndian (octetsOf width n) = n
  | 0, n, h => by
    have hzero : n < 1 := h
    show 0 = n
    omega
  | width + 1, n, h => by
    have hrest := @bigEndian_octetsOf width (n / 256) (Nat.div_lt_of_lt_mul (by rw [Nat.pow_succ] at h; omega))
    rw [bigEndian, octetsOf, List.foldl_append, ← bigEndian, hrest, List.foldl_cons, List.foldl_nil,
      UInt8.toNat_ofNat']
    omega

/-- **A number is read from the text of its octets.** -/
theorem decodeNat_encode {width n : Nat} (hn : n < 256 ^ width) (hwidth : width ≤ 8) :
    decodeNat (encode (octetsOf width n)) = .ok n := by
  unfold decodeNat
  refine bind_eq_ok.2 ⟨_, decode_encode _, ?_⟩
  rw [length_octetsOf, if_neg (by omega), bigEndian_octetsOf hn]

/-! ## Texts -/

/-- **Pairs of digits, octets and numbers are faithful to each other.**  Octets are written in lowercase digits, two
each, and read back from them.  A text is read to octets exactly if it is pairs of digits, and these are written as the
text in lowercase; else an odd length is reported, and in a text of pairs the first character that is no digit.  A number
is read from the digits of octets, sixteen at most: the one that they spell in base 16.  A wider text is reported by its
length exactly if it is pairs of digits, or if its length is odd. -/
theorem pairs_exact :
    (∀ b, decode (encode b) = .ok b ∧ (encode b).length = 2 * b.length ∧ ∀ c ∈ encode b, c ∈ digits) ∧
    (∀ text,
      ((∃ b, decode text = .ok b) ↔ text.length % 2 = 0 ∧ ∀ c ∈ text, isDigit c = true) ∧
      (∀ b, decode text = .ok b → encode b = text.map lower) ∧
      ∀ e, decode text = .error e ↔
        text.length % 2 = 1 ∧ e = .invalidLength text.length ∨
          text.length % 2 = 0 ∧ ∃ c, text.find? (!isDigit ·) = some c ∧
            e = .invalidCharacter c (text.findIdx (!isDigit ·))) ∧
    (∀ text,
      ((∃ n, decodeNat text = .ok n) ↔ (∃ b, decode text = .ok b) ∧ text.length ≤ 16) ∧
      (∀ n, decodeNat text = .ok n →
        n = Nat.ofDigits 16 (text.reverse.map fun c => digits.idxOf (lower c)) ∧ n < 2 ^ 64) ∧
      (∀ e, decode text = .error e → decodeNat text = .error e) ∧
      (16 < text.length → ∀ n, decodeNat text = .error (.invalidLength n) ↔
        n = text.length ∧ ((∃ b, decode text = .ok b) ∨ text.length % 2 = 1))) ∧
    ∀ v : UInt64, decodeNat (encode (octetsOf 8 v.toNat)) = .ok v.toNat := by
  refine ⟨fun b => ⟨decode_encode b, length_encode b, fun c hc => mem_encode hc⟩,
    fun text => ⟨exists_decode_iff, fun b h => encode_of_decode h, fun e => decode_eq_error⟩,
    fun text => ⟨?_, fun n h => ?_, fun e h => decodeNat_eq_error.2 (.inl h), fun hwide n => ?_⟩,
    fun v => decodeNat_encode v.toNat_lt (Nat.le_refl 8)⟩
  · simp only [decodeNat_eq_ok, exists_and_left, exists_eq, and_true]
  · obtain ⟨hdecode, hle, rfl⟩ := decodeNat_eq_ok.1 h
    have hdigits := (exists_decode_iff.1 hdecode).2
    refine ⟨number_eq_ofDigits hdigits, Nat.lt_of_lt_of_le (number_lt hdigits) ?_⟩
    exact Nat.le_trans (Nat.pow_le_pow_right (by decide) hle) (by decide : 16 ^ 16 ≤ 2 ^ 64)
  · constructor
    · intro h
      rcases decodeNat_eq_error.1 h with h | ⟨hdecode, -, hn⟩
      · rcases decode_eq_error.1 h with ⟨hodd, hn⟩ | ⟨-, c, -, hcharacter⟩
        · exact ⟨TextError.invalidLength.inj hn, .inr hodd⟩
        · cases hcharacter
      · exact ⟨TextError.invalidLength.inj hn, .inl hdecode⟩
    · rintro ⟨rfl, hdecode | hodd⟩
      · exact decodeNat_eq_error.2 (.inr ⟨hdecode, hwide, rfl⟩)
      · exact decodeNat_eq_error.2 (.inl (decode_eq_error.2 (.inl ⟨hodd, rfl⟩)))

/-- Digits in both cases are written back in lowercase; eighteen of them are octets and no number. -/
theorem pairs_exact_mixedCase :
    decode (Bytes.ofString "0aFf") = .ok [0x0a, 0xff] ∧ encode [0x0a, 0xff] = Bytes.ofString "0aff" ∧
      decodeNat (Bytes.ofString "0aFf") = .ok 2815 ∧ 2815 < 2 ^ 64 ∧
      decodeNat (List.replicate 18 '0'.toUInt8) = .error (.invalidLength 18) ∧
      ∃ b, decode (List.replicate 18 '0'.toUInt8) = .ok b := by
  obtain ⟨-, hoctets, hnumber, -⟩ := pairs_exact
  have hb : decode (Bytes.ofString "0aFf") = .ok [0x0a, 0xff] := by decide +kernel
  have hn : decodeNat (Bytes.ofString "0aFf") = .ok 2815 := by decide +kernel
  have he : decodeNat (List.replicate 18 '0'.toUInt8) = .error (.invalidLength 18) := by decide +kernel
  refine ⟨hb, ?_, hn, ((hnumber _).2.1 _ hn).2, he, ?_⟩
  · rw [(hoctets _).2.1 _ hb]
    decide +kernel
  · exact (((hnumber _).2.2.2 (by decide) _).1 he).2.resolve_right (by decide)

/-- Eighteen digits and a character that is none are reported by their length, which is odd. -/
theorem not_decodes_of_invalidLength :
    ¬∀ text, 16 < text.length → decodeNat text = .error (.invalidLength text.length) →
      ∃ octets, decode text = .ok octets := by
  intro h
  obtain ⟨octets, hdecode⟩ := h (Bytes.ofString "000000000000000000g") (by decide +kernel) (by decide +kernel)
  have herror : decode (Bytes.ofString "000000000000000000g") = .error (.invalidLength 19) := by decide +kernel
  rw [herror] at hdecode
  cases hdecode

end Quadlet.Hex
