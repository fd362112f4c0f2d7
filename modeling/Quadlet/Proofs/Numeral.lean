import Mathlib.Data.List.Induction
import Mathlib.Data.Nat.Digits.Defs
import Quadlet.Text.Numeral
import Quadlet.Proofs.Base64
/-!
# Numeral laws — a number is read from the digits that it is written in

The digits of a number are its values in base 64 (`places`), most significant first, so writing and reading are inverse
up to the width that is read (`read_of_write`, `write_of_read`).  What is not read is too wide, or has a character that
is no digit (`read_eq_error`).  A word of 64 bits holds every number that is read, and the shifts that put it together
lose no bit of it (`toNat_word`, `toNat_word_shift`).
-/
namespace Quadlet.Numeral

open Base64 (Alphabet)

/-- The last `width` values of a number in base 64. -/
def places : (width value : Nat) → List Nat
  | 0, _ => []
  | width + 1, value => places width (value / 64) ++ [value % 64]

theorem places_lt : ∀ (width value : Nat), ∀ v ∈ places width value, v < 64
  | 0, _, _, h => by cases h
  | width + 1, value, v, h => by
    rcases List.mem_append.1 h with h | h
    · exact places_lt width _ v h
    · rw [List.mem_singleton.1 h]
      exact Nat.mod_lt _ (by decide)

theorem digitsOnto_eq_map_places (tail : Bytes) :
    ∀ width value, digitsOnto tail width value = (places width value).map Alphabet.url.char ++ tail
  | 0, _ => rfl
  | width + 1, value => by
    rw [digitsOnto, digitsOnto_eq_map_places _ width, places, List.map_append, List.append_assoc, List.map_singleton,
      Alphabet.char_mod]
    rfl

theorem ofValues_append (values : List Nat) (v : Nat) : ofValues (values ++ [v]) = ofValues values * 64 + v := by
  rw [ofValues, List.foldl_append]
  rfl

theorem ofValues_places : ∀ {width value : Nat}, value < capacity width → ofValues (places width value) = value
  | 0, value, h => by
    have hvalue : value < 1 := h
    show 0 = value
    omega
  | width + 1, value, h => by
    have hvalue : value < capacity width * 64 := h
    rw [places, ofValues_append, ofValues_places (Nat.div_lt_of_lt_mul (by omega))]
    omega

/-- What a number is written as: so many digits, each of the alphabet. -/
theorem write_eq_ok {value width : Nat} {text : Bytes} (h : write value width = .ok text) :
    value < capacity width ∧ text = (places width value).map Alphabet.url.char ∧ text.length = width := by
  unfold write at h
  split at h
  · next hlt =>
    cases h
    refine ⟨hlt, ?_, length_digitsOnto [] width value⟩
    rw [digitsOnto_eq_map_places, List.append_nil]
  · cases h

theorem isAscii_of_write {value width : Nat} {text : Bytes} (h : write value width = .ok text) :
    Bytes.isAscii text = true := by
  have hchars : ∀ c ∈ Alphabet.url.chars, decide (c < 0x80) = true := by decide +kernel
  obtain ⟨-, rfl, -⟩ := write_eq_ok h
  rw [Bytes.isAscii, List.all_eq_true]
  intro c hc
  obtain ⟨v, -, rfl⟩ := List.mem_map.1 hc
  exact hchars _ (Alphabet.url.char_mem v)

/-- **A number is read from what it is written as.** -/
theorem read_of_write {value width : Nat} {text : Bytes} (h : write value width = .ok text)
    (hwidth : width ≤ maxWidth) : read text = .ok value := by
  obtain ⟨hlt, htext, hlength⟩ := write_eq_ok h
  rw [read, if_neg (by omega), htext, Alphabet.url.values_map_char Alphabet.nodup_url 0 _ (places_lt width value)]
  exact congrArg Except.ok (ofValues_places hlt)

/-! ## What is read -/

theorem ofValues_lt (values : List Nat) (h : ∀ v ∈ values, v < 64) : ofValues values < capacity values.length := by
  induction values using List.reverseRecOn with
  | nil => decide
  | append_singleton values v ih =>
    have hlt := ih fun w hw => h w (List.mem_append_left _ hw)
    have hv := h v (by simp)
    rw [ofValues_append, List.length_append, List.length_singleton]
    show _ < capacity values.length * 64
    omega

theorem capacity_pos (width : Nat) : 0 < capacity width := Nat.pow_pos (by decide)

theorem capacity_maxWidth : capacity maxWidth = 2 ^ 60 := (Nat.pow_mul 2 6 10).symm

/-- Values in base 64 are the last ones of the number that they spell. -/
theorem places_ofValues (values : List Nat) (h : ∀ v ∈ values, v < 64) :
    places values.length (ofValues values) = values := by
  induction values using List.reverseRecOn with
  | nil => rfl
  | append_singleton values v ih =>
    have hrest := ih fun w hw => h w (List.mem_append_left _ hw)
    have hv := h v (by simp)
    rw [ofValues_append, List.length_append, List.length_singleton, places, show
      (ofValues values * 64 + v) / 64 = ofValues values by omega, show (ofValues values * 64 + v) % 64 = v by omega,
      hrest]

/-- **A text is a number exactly if it has ten characters at most and all of them are digits**, and then it is the one
that the digits spell in base 64. -/
theorem read_eq_ok_iff {text : Bytes} {n : Nat} :
    read text = .ok n ↔ text.length ≤ maxWidth ∧ (∀ c ∈ text, c ∈ Alphabet.url.chars) ∧
      n = ofValues (text.map Alphabet.url.position) := by
  unfold read
  split
  · next hlen => exact ⟨fun h => (by cases h), fun h => absurd hlen (Nat.not_lt.2 h.1)⟩
  · next hlen => rw [and_iff_right (Nat.not_lt.1 hlen), Alphabet.url.map_values_eq_ok Alphabet.nodup_url]

/-- What a number is read from: few digits, and it is the number that their values spell. -/
theorem read_eq_ok {text : Bytes} {n : Nat} (h : read text = .ok n) :
    text.length ≤ maxWidth ∧
      ∃ vs : List Nat, (∀ v ∈ vs, v < 64) ∧ text = vs.map Alphabet.url.char ∧ n = ofValues vs := by
  obtain ⟨hlen, hmem, hn⟩ := read_eq_ok_iff.1 h
  exact ⟨hlen, _, Alphabet.positions_lt hmem, (Alphabet.map_char_position hmem).symm, hn⟩

/-- A number that is read has ten digits at most, and is one of those that so many digits write. -/
theorem lt_of_read {text : Bytes} {n : Nat} (h : read text = .ok n) :
    text.length ≤ maxWidth ∧ n < capacity text.length := by
  obtain ⟨hlen, vs, hlt, htext, rfl⟩ := read_eq_ok h
  refine ⟨hlen, ?_⟩
  rw [htext, List.length_map]
  exact ofValues_lt vs hlt

/-- Ten digits at most, so the number is far from the greatest word. -/
theorem lt_of_read_maxWidth {text : Bytes} {n : Nat} (h : read text = .ok n) : n < capacity maxWidth := by
  obtain ⟨hlen, hlt⟩ := lt_of_read h
  exact Nat.lt_of_lt_of_le hlt (Nat.pow_le_pow_right (by decide) hlen)

/-- **A number is written as what it was read from.** -/
theorem write_of_read {text : Bytes} {n : Nat} (h : read text = .ok n) : write n text.length = .ok text := by
  obtain ⟨-, vs, hlt, rfl, rfl⟩ := read_eq_ok h
  have hfits := ofValues_lt vs hlt
  rw [List.length_map, write, if_pos hfits, digitsOnto_eq_map_places, places_ofValues vs hlt, List.append_nil]

/-- It is the only number that is written so. -/
theorem write_eq_iff_of_read {text : Bytes} {n : Nat} (h : read text = .ok n) (k : Nat) :
    write k text.length = .ok text ↔ k = n := by
  constructor
  · intro hk
    have hread := read_of_write hk (lt_of_read h).1
    rw [h] at hread
    exact (Except.ok.inj hread).symm
  · rintro rfl
    exact write_of_read h

/-- **What is not read is too wide, which is found first, or has a character that is no digit.** -/
theorem read_eq_error {text : Bytes} {e : TextError} :
    read text = .error e ↔
      maxWidth < text.length ∧ e = .invalidLength text.length ∨
        text.length ≤ maxWidth ∧ ∃ c i, Alphabet.url.FirstForeign text c i ∧ e = .invalidCharacter c i := by
  unfold read
  split
  · next hlen =>
    refine ⟨fun h => by cases h; exact .inl ⟨hlen, rfl⟩, ?_⟩
    rintro (⟨-, rfl⟩ | ⟨hle, -⟩)
    · rfl
    · exact absurd hlen (Nat.not_lt.2 hle)
  · next hlen =>
    have hle := Nat.not_lt.1 hlen
    rw [or_iff_right (fun h => hlen h.1), and_iff_right hle, Alphabet.map_values_eq_error]

/-! ## In base 64 -/

/-- Digits that are taken up one after the other, the most significant first, spell a number in the base. -/
theorem foldl_eq_ofDigits {α : Type} (base : Nat) (value : α → Nat) (digits : List α) :
    digits.foldl (fun n x => n * base + value x) 0 = Nat.ofDigits base (digits.reverse.map value) := by
  induction digits using List.reverseRecOn with
  | nil => rfl
  | append_singleton digits x ih =>
    rw [List.foldl_append, ih, List.reverse_append, List.reverse_singleton, List.singleton_append, List.map_cons,
      Nat.ofDigits_cons, Nat.mul_comm base, Nat.add_comm]
    rfl

/-! ## In 64 bits -/

/-- Values put together in a word of 64 bits: it is shifted by six bits for each, and the value takes their place. -/
def word (values : List Nat) : UInt64 := values.foldl (fun w v => w <<< 6 ||| UInt64.ofNat v) 0

theorem word_append (values : List Nat) (v : Nat) : word (values ++ [v]) = word values <<< 6 ||| UInt64.ofNat v := by
  rw [word, List.foldl_append]
  rfl

theorem toNat_shiftLeft_six {w : UInt64} (h : w.toNat < 2 ^ 58) : (w <<< 6).toNat = w.toNat * 64 := by
  have hsix : (6 : UInt64).toNat % 64 = 6 := by decide
  rw [UInt64.toNat_shiftLeft, hsix, Nat.shiftLeft_eq]
  omega

/-- Fewer than ten values leave the digits of another one free. -/
theorem ofValues_lt_of_length {values : List Nat} (h : ∀ v ∈ values, v < 64) (hlen : values.length < maxWidth) :
    ofValues values < 2 ^ 58 :=
  Nat.lt_of_lt_of_le (ofValues_lt values h)
    (Nat.le_trans (Nat.pow_le_pow_right (by decide) (Nat.le_of_lt_succ hlen)) (by decide : 64 ^ 9 ≤ 2 ^ 58))

/-- **Up to ten values make the same word as they make a number.** -/
theorem toNat_word (values : List Nat) (h : ∀ v ∈ values, v < 64) (hlen : values.length ≤ maxWidth) :
    (word values).toNat = ofValues values := by
  induction values using List.reverseRecOn with
  | nil => rfl
  | append_singleton values v ih =>
    rw [List.length_append, List.length_singleton] at hlen
    have hlt : ∀ w ∈ values, w < 64 := fun w hw => h w (List.mem_append_left _ hw)
    have hv : v < 2 ^ 6 := h v (by simp)
    have hrest := ih hlt (Nat.le_of_succ_le hlen)
    have hshift : (word values <<< 6).toNat = ofValues values * 64 := by
      rw [toNat_shiftLeft_six (by rw [hrest]; exact ofValues_lt_of_length hlt hlen), hrest]
    have hvalue : (UInt64.ofNat v).toNat = v := by rw [UInt64.toNat_ofNat', Nat.mod_eq_of_lt (by omega)]
    rw [word_append, ofValues_append, UInt64.toNat_or, hshift, hvalue, ← Nat.shiftLeft_eq _ 6,
      ← Nat.shiftLeft_add_eq_or_of_lt hv]

/-- **No bit of fewer than ten values is shifted out** to make place for another. -/
theorem toNat_word_shift (values : List Nat) (h : ∀ v ∈ values, v < 64) (hlen : values.length < maxWidth) :
    (word values <<< 6).toNat = (word values).toNat * 64 := by
  refine toNat_shiftLeft_six ?_
  rw [toNat_word values h (Nat.le_of_lt hlen)]
  exact ofValues_lt_of_length h hlen

/-- **The bits of a word are those of `width` digits exactly if so many digits hold it.** -/
theorem fits_iff (v : UInt64) (width : Nat) : fits v width = true ↔ v.toNat < capacity width := by
  have hv := v.toNat_lt
  unfold fits
  split
  · rw [beq_iff_eq, ← UInt64.toNat_inj]
    exact Nat.lt_one_iff.symm
  rw [Bool.or_eq_true, decide_eq_true_eq, beq_iff_eq]
  by_cases hwide : maxWidth + 1 ≤ width
  · refine iff_of_true (.inl hwide) (Nat.lt_of_lt_of_le hv ?_)
    exact Nat.le_trans (by decide : 2 ^ 64 ≤ 64 ^ 11) (Nat.pow_le_pow_right (by decide) hwide)
  · have hle : 6 * width ≤ 60 := Nat.mul_le_mul_left 6 (Nat.not_lt.1 hwide)
    have hbits : (UInt64.ofNat (6 * width)).toNat % 64 = 6 * width := by rw [UInt64.toNat_ofNat']; omega
    have hcapacity : capacity width = 2 ^ (6 * width) := (Nat.pow_mul 2 6 width).symm
    rw [or_iff_right hwide, ← UInt64.toNat_inj, UInt64.toNat_shiftRight, hbits, Nat.shiftRight_eq_div_pow, hcapacity]
    exact Nat.div_eq_zero_iff_lt (Nat.two_pow_pos _)

/-! ## A system of numerals -/

/-- **What a text spells**: the number of its digits in base 64, which is below the capacity of the text, is put together
in a word without losing a bit, and is written as the text. -/
structure Spells (text : Bytes) (n : Nat) : Prop where
  value : n = Nat.ofDigits 64 (text.reverse.map Alphabet.url.position)
  lt : n < 64 ^ text.length
  word_eq : (word (text.map Alphabet.url.position)).toNat = n
  word_shift : ∀ k < text.length, (word ((text.take k).map Alphabet.url.position) <<< 6).toNat =
    (word ((text.take k).map Alphabet.url.position)).toNat * 64
  written : write n text.length = .ok text

theorem spells_of_read {text : Bytes} {n : Nat} (h : read text = .ok n) : Spells text n := by
  obtain ⟨hlen, hmem, hn⟩ := read_eq_ok_iff.1 h
  have hlt := Alphabet.positions_lt hmem
  refine ⟨?_, (lt_of_read h).2, ?_, fun k hk => ?_, write_of_read h⟩
  · rw [hn, ofValues, List.foldl_map]
    exact foldl_eq_ofDigits 64 Alphabet.url.position text
  · rw [toNat_word _ hlt (by rwa [List.length_map]), hn]
  · refine toNat_word_shift _ (Alphabet.positions_lt fun c hc => hmem c (List.mem_of_mem_take hc)) ?_
    rw [List.length_map, List.length_take_of_le (Nat.le_of_lt hk)]
    exact Nat.lt_of_lt_of_le hk hlen

end Quadlet.Numeral
