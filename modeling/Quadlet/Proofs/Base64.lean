import Mathlib.Algebra.Group.Nat.Defs
import Quadlet.Text.Base64
/-!
# Base64 laws — octets and characters, each from the other

Both directions go through the values of the characters: `encode` is `sextets` written in the alphabet, `decode` is
`joinValues` of what the alphabet reads.  Octets are always read back (`decode_encode`); a text is written back when it
is whole quadlets without padding (`encode_of_decode`), since then no bit of it is dropped.
-/
namespace Quadlet.Base64

namespace Alphabet

/-! ## Characters and their values -/

theorem getElem?_char (a : Alphabet) (n : Nat) : a.chars[n % 64]? = some (a.char n) := by
  unfold char
  rw [List.get_eq_getElem, List.getElem?_eq_getElem]

theorem char_mod (a : Alphabet) (n : Nat) : a.char (n % 64) = a.char n := by
  have h := a.getElem?_char (n % 64)
  rw [Nat.mod_mod, a.getElem?_char n] at h
  exact (Option.some.inj h).symm

theorem char_mem (a : Alphabet) (n : Nat) : a.char n ∈ a.chars := List.mem_of_getElem? (a.getElem?_char n)

theorem getElem?_of_lastIndexFrom (c : UInt8) :
    ∀ (i : Nat) (l : List UInt8) {j : Nat}, lastIndexFrom c i l = some j → i ≤ j ∧ l[j - i]? = some c
  | _, [], _, h => by cases h
  | i, x :: rest, j, h => by
    rw [lastIndexFrom, Option.or_eq_some_iff] at h
    rcases h with h | ⟨-, h⟩
    · obtain ⟨hj, hc⟩ := getElem?_of_lastIndexFrom c (i + 1) rest h
      refine ⟨by omega, ?_⟩
      rw [show j - i = (j - (i + 1)) + 1 by omega, List.getElem?_cons_succ]
      exact hc
    · split at h
      · next hx =>
        cases h
        rw [Nat.sub_self, List.getElem?_cons_zero, hx]
        exact ⟨Nat.le_refl _, rfl⟩
      · cases h

theorem lastIndexFrom_eq_none (c : UInt8) :
    ∀ (i : Nat) (l : List UInt8), lastIndexFrom c i l = none → c ∉ l
  | _, [], _, hc => by cases hc
  | i, x :: rest, h, hc => by
    rw [lastIndexFrom, Option.or_eq_none_iff] at h
    obtain ⟨h, hx⟩ := h
    rcases List.mem_cons.1 hc with rfl | hc
    · simp at hx
    · exact lastIndexFrom_eq_none c (i + 1) rest h hc

/-- A value that is read is one of the 64, and is written as the character it was read from. -/
theorem char_of_value? (a : Alphabet) {c : UInt8} {v : Nat} (h : a.value? c = some v) : v < 64 ∧ a.char v = c := by
  obtain ⟨-, hc⟩ := getElem?_of_lastIndexFrom c 0 a.chars h
  have hv : v < 64 := by
    have := (List.getElem?_eq_some_iff.1 hc).1
    rw [a.length_chars] at this
    omega
  refine ⟨hv, ?_⟩
  have hn := a.getElem?_char v
  rw [Nat.mod_eq_of_lt hv] at hn
  rw [Nat.sub_zero, hn] at hc
  exact Option.some.inj hc

/-- With distinct characters, the value of a character is the one it was written for. -/
theorem value?_char (a : Alphabet) (hd : a.chars.Nodup) (n : Nat) : a.value? (a.char n) = some (n % 64) := by
  cases h : a.value? (a.char n) with
  | none => exact absurd (a.char_mem n) (lastIndexFrom_eq_none _ 0 a.chars h)
  | some v =>
    obtain ⟨hv, hc⟩ := a.char_of_value? h
    have hn := a.getElem?_char n
    rw [← hc, ← a.getElem?_char v, Nat.mod_eq_of_lt hv] at hn
    have hlt : n % 64 < a.chars.length := by rw [a.length_chars]; exact Nat.mod_lt _ (by decide)
    rw [(List.getElem?_inj hlt hd).1 hn]

theorem values_eq_ok (a : Alphabet) :
    ∀ {i : Nat} {text : Bytes} {vs : List Nat}, a.values i text = .ok vs →
      text = vs.map a.char ∧ ∀ v ∈ vs, v < 64
  | _, [], _, h => by
    cases h
    exact ⟨rfl, fun _ hv => by cases hv⟩
  | i, c :: rest, vs, h => by
    rw [values] at h
    split at h
    · cases h
    · next v hv =>
      cases hr : a.values (i + 1) rest with
      | error e => rw [hr] at h; cases h
      | ok ws =>
        rw [hr] at h
        cases h
        obtain ⟨hrest, hlt⟩ := values_eq_ok a hr
        obtain ⟨hv, hc⟩ := a.char_of_value? hv
        refine ⟨by rw [List.map_cons, hc, hrest], fun w hw => ?_⟩
        rcases List.mem_cons.1 hw with rfl | hw
        · exact hv
        · exact hlt w hw

theorem values_map_char (a : Alphabet) (hd : a.chars.Nodup) :
    ∀ (i : Nat) (vs : List Nat), (∀ v ∈ vs, v < 64) → a.values i (vs.map a.char) = .ok vs
  | _, [], _ => rfl
  | i, v :: vs, h => by
    rw [List.map_cons, values, a.value?_char hd, Nat.mod_eq_of_lt (h v List.mem_cons_self)]
    simp only [values_map_char a hd (i + 1) vs (fun w hw => h w (List.mem_cons_of_mem _ hw))]
    rfl

theorem nodup_url : url.chars.Nodup := by decide

/-! ## Positions -/

/-- Where a character stands in the alphabet. -/
def position (a : Alphabet) (c : UInt8) : Nat := a.chars.idxOf c

theorem position_lt {a : Alphabet} {c : UInt8} (hc : c ∈ a.chars) : a.position c < 64 := by
  rw [← a.length_chars]
  exact List.idxOf_lt_length_of_mem hc

theorem char_position {a : Alphabet} {c : UInt8} (hc : c ∈ a.chars) : a.char (a.position c) = c := by
  have hn := a.getElem?_char (a.position c)
  rw [Nat.mod_eq_of_lt (position_lt hc), position, List.getElem?_eq_getElem (List.idxOf_lt_length_of_mem hc),
    List.getElem_idxOf] at hn
  exact (Option.some.inj hn).symm

theorem map_char_position {a : Alphabet} {text : Bytes} (h : ∀ c ∈ text, c ∈ a.chars) :
    (text.map a.position).map a.char = text := by
  rw [List.map_map]
  exact (List.map_congr_left (fun c hc => char_position (h c hc))).trans (List.map_id text)

theorem position_char (a : Alphabet) (hd : a.chars.Nodup) {v : Nat} (hv : v < 64) : a.position (a.char v) = v := by
  unfold position char
  rw [List.get_eq_getElem]
  exact (hd.idxOf_getElem _ _).trans (Nat.mod_eq_of_lt hv)

theorem positions_lt {a : Alphabet} {text : Bytes} (h : ∀ c ∈ text, c ∈ a.chars) :
    ∀ v ∈ text.map a.position, v < 64 := by
  intro v hv
  obtain ⟨c, hc, rfl⟩ := List.mem_map.1 hv
  exact position_lt (h c hc)

/-- **With distinct characters, the values of a text are the positions of its characters**, and it has them if all of it
is of the alphabet. -/
theorem values_eq_ok_iff (a : Alphabet) (hd : a.chars.Nodup) {i : Nat} {text : Bytes} {vs : List Nat} :
    a.values i text = .ok vs ↔ (∀ c ∈ text, c ∈ a.chars) ∧ vs = text.map a.position := by
  constructor
  · intro h
    obtain ⟨rfl, hlt⟩ := a.values_eq_ok h
    refine ⟨fun c hc => ?_, ?_⟩
    · obtain ⟨v, -, rfl⟩ := List.mem_map.1 hc
      exact a.char_mem v
    · rw [List.map_map]
      exact ((List.map_congr_left (fun v hv => a.position_char hd (hlt v hv))).trans (List.map_id vs)).symm
  · rintro ⟨hmem, rfl⟩
    have hvalues := a.values_map_char hd i _ (positions_lt hmem)
    rwa [map_char_position hmem] at hvalues

theorem map_values_eq_ok (a : Alphabet) (hd : a.chars.Nodup) {α : Type} {f : List Nat → α} {i : Nat} {text : Bytes}
    {y : α} : (a.values i text).map f = .ok y ↔ (∀ c ∈ text, c ∈ a.chars) ∧ y = f (text.map a.position) := by
  constructor
  · intro h
    cases hvalues : a.values i text with
    | error e =>
      rw [hvalues] at h
      cases h
    | ok vs =>
      rw [hvalues] at h
      cases h
      obtain ⟨hmem, rfl⟩ := (a.values_eq_ok_iff hd).1 hvalues
      exact ⟨hmem, rfl⟩
  · rintro ⟨hmem, rfl⟩
    rw [(a.values_eq_ok_iff hd).2 ⟨hmem, rfl⟩]
    rfl

/-! ## Characters without a value -/

theorem value?_eq_none {a : Alphabet} {c : UInt8} : a.value? c = none ↔ c ∉ a.chars := by
  refine ⟨lastIndexFrom_eq_none c 0 a.chars, fun hc => ?_⟩
  cases h : a.value? c with
  | none => rfl
  | some v => exact absurd ((a.char_of_value? h).2 ▸ a.char_mem v) hc

/-- At `i` the text has `c`, its first character that is not of the alphabet. -/
structure FirstForeign (a : Alphabet) (text : Bytes) (c : UInt8) (i : Nat) : Prop where
  getElem? : text[i]? = some c
  notMem : c ∉ a.chars
  before : ∀ x ∈ text.take i, x ∈ a.chars

theorem FirstForeign.mem {a : Alphabet} {text : Bytes} {c : UInt8} {i : Nat} (h : a.FirstForeign text c i) :
    c ∈ text := List.mem_of_getElem? h.getElem?

theorem firstForeign_cons {a : Alphabet} {x c : UInt8} {rest : Bytes} {i : Nat} :
    a.FirstForeign (x :: rest) c i ↔
      if x ∈ a.chars then ∃ j, i = j + 1 ∧ a.FirstForeign rest c j else i = 0 ∧ c = x := by
  cases i with
  | zero =>
    split
    · next hx => exact ⟨fun h => absurd hx (Option.some.inj h.getElem? ▸ h.notMem), fun ⟨_, h, _⟩ => (by cases h)⟩
    · next hx =>
      constructor
      · exact fun h => ⟨rfl, (Option.some.inj h.getElem?).symm⟩
      · rintro ⟨-, rfl⟩
        exact ⟨rfl, hx, fun y hy => (by cases hy)⟩
  | succ i =>
    split
    · next hx =>
      constructor
      · intro h
        exact ⟨i, rfl, h.getElem?, h.notMem, fun y hy => h.before y (List.mem_cons_of_mem _ hy)⟩
      · rintro ⟨j, hj, h⟩
        cases hj
        refine ⟨h.getElem?, h.notMem, fun y hy => ?_⟩
        rcases List.mem_cons.1 hy with rfl | hy
        · exact hx
        · exact h.before y hy
    · next hx => exact ⟨fun h => absurd (h.before x List.mem_cons_self) hx, fun ⟨h, _⟩ => (by cases h)⟩

theorem map_eq_error {α β : Type} {x : Except TextError α} {f : α → β} {e : TextError} :
    x.map f = .error e ↔ x = .error e := by
  cases x with
  | error d => exact ⟨fun h => by cases h; rfl, fun h => by cases h; rfl⟩
  | ok y => exact ⟨fun h => (by cases h), fun h => (by cases h)⟩

/-- **The first bad character is the one that is reported**, with its offset. -/
theorem values_eq_error (a : Alphabet) :
    ∀ {i : Nat} {text : Bytes} {e : TextError}, a.values i text = .error e ↔
      ∃ c j, a.FirstForeign text c j ∧ e = .invalidCharacter c (i + j)
  | _, [], _ => ⟨fun h => (by cases h), fun ⟨_, _, h, _⟩ => (by cases h.getElem?)⟩
  | i, x :: rest, e => by
    have ih := @values_eq_error a (i + 1) rest e
    simp only [firstForeign_cons]
    rw [values]
    cases hv : a.value? x with
    | none =>
      simp only [if_neg (value?_eq_none.1 hv)]
      exact ⟨fun h => by cases h; exact ⟨x, 0, ⟨rfl, rfl⟩, rfl⟩, fun ⟨_, _, ⟨hj, hc⟩, he⟩ => by rw [he, hj, hc]; rfl⟩
    | some v =>
      have hx : x ∈ a.chars := (a.char_of_value? hv).2 ▸ a.char_mem v
      simp only [if_pos hx]
      rw [map_eq_error, ih]
      constructor
      · rintro ⟨c, j, h, rfl⟩
        exact ⟨c, j + 1, ⟨j, rfl, h⟩, by rw [Nat.add_right_comm, Nat.add_assoc]⟩
      · rintro ⟨c, _, ⟨j, rfl, h⟩, rfl⟩
        exact ⟨c, j, h, by rw [Nat.add_right_comm, Nat.add_assoc]⟩

/-- Whatever is made of the values, the first bad character of the text is reported. -/
theorem map_values_eq_error (a : Alphabet) {α : Type} {f : List Nat → α} {text : Bytes} {e : TextError} :
    (a.values 0 text).map f = .error e ↔ ∃ c i, a.FirstForeign text c i ∧ e = .invalidCharacter c i := by
  rw [map_eq_error, values_eq_error]
  simp only [Nat.zero_add]

end Alphabet

theorem pad_notMem_url : pad ∉ Alphabet.url.chars := by decide

/-! ## Octets and values -/

/-- The values of the characters of the octets. -/
def sextets : Bytes → List Nat
  | x :: y :: z :: rest =>
    x.toNat / 4 :: (x.toNat % 4 * 16 + y.toNat / 16) :: (y.toNat % 16 * 4 + z.toNat / 64) :: z.toNat % 64 ::
      sextets rest
  | [x, y] => [x.toNat / 4, x.toNat % 4 * 16 + y.toNat / 16, y.toNat % 16 * 4]
  | [x] => [x.toNat / 4, x.toNat % 4 * 16]
  | [] => []

/-! ### Bits

What is masked and shifted are digits of base 4, 16 and 64, so bits that are put together are added. -/

theorem toNat_shiftLeft (x : UInt8) {k : Nat} (hk : k < 8) : (x <<< UInt8.ofNat k).toNat = x.toNat * 2 ^ k % 256 := by
  rw [UInt8.toNat_shiftLeft, UInt8.toNat_ofNat', Nat.mod_eq_of_lt (show k < 2 ^ 8 by omega), Nat.mod_eq_of_lt hk,
    Nat.shiftLeft_eq]

theorem toNat_shiftRight (x : UInt8) {k : Nat} (hk : k < 8) : (x >>> UInt8.ofNat k).toNat = x.toNat / 2 ^ k := by
  rw [UInt8.toNat_shiftRight, UInt8.toNat_ofNat', Nat.mod_eq_of_lt (show k < 2 ^ 8 by omega), Nat.mod_eq_of_lt hk,
    Nat.shiftRight_eq_div_pow]

theorem toNat_or {x y : UInt8} {k m : Nat} (hx : x.toNat = m * 2 ^ k) (hy : y.toNat < 2 ^ k) :
    (x ||| y).toNat = m * 2 ^ k + y.toNat := by
  rw [UInt8.toNat_or, hx, Nat.mul_comm, Nat.two_pow_add_eq_or_of_lt hy]

/-- The low bits of an octet, moved up by six bits less. -/
theorem toNat_low_shiftLeft (x : UInt8) : ((x &&& 3) <<< 4).toNat = x.toNat % 4 * 2 ^ 4 ∧
    ((x &&& 15) <<< 2).toNat = x.toNat % 16 * 2 ^ 2 := by
  have hthree : (x &&& 3).toNat = x.toNat % 4 := UInt8.toNat_and x 3 ▸ Nat.and_two_pow_sub_one_eq_mod x.toNat 2
  have hfifteen : (x &&& 15).toNat = x.toNat % 16 := UInt8.toNat_and x 15 ▸ Nat.and_two_pow_sub_one_eq_mod x.toNat 4
  have hshift := toNat_shiftLeft (x &&& 3) (k := 4) (by decide)
  have hshift' := toNat_shiftLeft (x &&& 15) (k := 2) (by decide)
  rw [hthree] at hshift
  rw [hfifteen] at hshift'
  refine ⟨hshift.trans (Nat.mod_eq_of_lt ?_), hshift'.trans (Nat.mod_eq_of_lt ?_)⟩ <;> omega

/-- The bits of the values of three octets. -/
theorem toNat_sextets (x y z : UInt8) :
    (x >>> 2).toNat = x.toNat / 4 ∧ ((x &&& 3) <<< 4 ||| y >>> 4).toNat = x.toNat % 4 * 16 + y.toNat / 16 ∧
      ((y &&& 15) <<< 2 ||| z >>> 6).toNat = y.toNat % 16 * 4 + z.toNat / 64 ∧ (z &&& 63).toNat = z.toNat % 64 := by
  have hy := y.toNat_lt
  have hz := z.toNat_lt
  have hfour := toNat_shiftRight y (k := 4) (by decide)
  have hsix := toNat_shiftRight z (k := 6) (by decide)
  refine ⟨toNat_shiftRight x (k := 2) (by decide), ?_, ?_, UInt8.toNat_and z 63 ▸ Nat.and_two_pow_sub_one_eq_mod _ 6⟩
  · exact (toNat_or (toNat_low_shiftLeft x).1 (y := y >>> 4) (hfour ▸ by omega)).trans (hfour ▸ rfl)
  · exact (toNat_or (toNat_low_shiftLeft y).2 (y := z >>> 6) (hsix ▸ by omega)).trans (hsix ▸ rfl)

theorem encode_eq_map_sextets (a : Alphabet) : ∀ b : Bytes, encode a b = (sextets b).map a.char
  | x :: y :: z :: rest => by
    obtain ⟨hs, ht, hu, hv⟩ := toNat_sextets x y z
    rw [encode, sextets, List.map_cons, List.map_cons, List.map_cons, List.map_cons, encode_eq_map_sextets a rest,
      hs, ht, hu, hv]
  | [x, y] => by
    obtain ⟨hs, ht, -, -⟩ := toNat_sextets x y 0
    rw [encode, hs, ht, (toNat_low_shiftLeft y).2]
    rfl
  | [x] => by
    obtain ⟨hs, -, -, -⟩ := toNat_sextets x 0 0
    rw [encode, hs, (toNat_low_shiftLeft x).1]
    rfl
  | [] => rfl

/-- What is shifted out of an octet is a multiple of 256. -/
theorem ofNat_shiftLeft_or (s : Nat) {y : UInt8} {k : Nat} (hk : k = 2 ∨ k = 4 ∨ k = 6) (hy : y.toNat < 2 ^ k) :
    UInt8.ofNat s <<< UInt8.ofNat k ||| y = UInt8.ofNat (s * 2 ^ k + y.toNat) := by
  have hshift := toNat_shiftLeft (UInt8.ofNat s) (k := k) (by omega)
  rw [UInt8.toNat_ofNat'] at hshift
  rcases hk with rfl | rfl | rfl
  · have hkept := hshift.trans (show s % 2 ^ 8 * 2 ^ 2 % 256 = s % 64 * 2 ^ 2 by omega)
    rw [← UInt8.toNat_inj, toNat_or hkept hy, UInt8.toNat_ofNat']
    omega
  · have hkept := hshift.trans (show s % 2 ^ 8 * 2 ^ 4 % 256 = s % 16 * 2 ^ 4 by omega)
    rw [← UInt8.toNat_inj, toNat_or hkept hy, UInt8.toNat_ofNat']
    omega
  · have hkept := hshift.trans (show s % 2 ^ 8 * 2 ^ 6 % 256 = s % 4 * 2 ^ 6 by omega)
    rw [← UInt8.toNat_inj, toNat_or hkept hy, UInt8.toNat_ofNat']
    omega

/-- The bits of the octets of four values. -/
theorem joined {t u v : Nat} (s : Nat) (ht : t < 64) (hu : u < 64) (hv : v < 64) :
    UInt8.ofNat s <<< 2 ||| UInt8.ofNat t >>> 4 = UInt8.ofNat (s * 4 + t / 16) ∧
      UInt8.ofNat t <<< 4 ||| UInt8.ofNat u >>> 2 = UInt8.ofNat (t * 16 + u / 4) ∧
      UInt8.ofNat u <<< 6 ||| UInt8.ofNat v = UInt8.ofNat (u * 64 + v) := by
  have htoNat : ∀ {n : Nat}, n < 64 → (UInt8.ofNat n).toNat = n := fun hn =>
    UInt8.toNat_ofNat'.trans (Nat.mod_eq_of_lt (by omega))
  have hfour := toNat_shiftRight (UInt8.ofNat t) (k := 4) (by decide)
  have htwo := toNat_shiftRight (UInt8.ofNat u) (k := 2) (by decide)
  rw [htoNat ht] at hfour
  rw [htoNat hu] at htwo
  have hs := ofNat_shiftLeft_or s (k := 2) (.inl rfl) (y := UInt8.ofNat t >>> UInt8.ofNat 4) (by omega)
  have ht' := ofNat_shiftLeft_or t (k := 4) (.inr (.inl rfl)) (y := UInt8.ofNat u >>> UInt8.ofNat 2) (by omega)
  have hu' := ofNat_shiftLeft_or u (k := 6) (.inr (.inr rfl)) (y := UInt8.ofNat v) (by rw [htoNat hv]; exact hv)
  rw [hfour] at hs
  rw [htwo] at ht'
  rw [htoNat hv] at hu'
  exact ⟨hs, ht', hu'⟩

theorem joinValues_four {t u v : Nat} (s : Nat) (ht : t < 64) (hu : u < 64) (hv : v < 64) (rest : List Nat) :
    joinValues (s :: t :: u :: v :: rest) =
      UInt8.ofNat (s * 4 + t / 16) :: UInt8.ofNat (t * 16 + u / 4) :: UInt8.ofNat (u * 64 + v) :: joinValues rest := by
  obtain ⟨hx, hy, hz⟩ := joined s ht hu hv
  rw [joinValues, List.map_cons, List.map_cons, List.map_cons, List.map_cons, join, hx, hy, hz]
  rfl

theorem joinValues_three {t u : Nat} (s : Nat) (ht : t < 64) (hu : u < 64) :
    joinValues [s, t, u] = [UInt8.ofNat (s * 4 + t / 16), UInt8.ofNat (t * 16 + u / 4)] := by
  obtain ⟨hx, hy, -⟩ := joined s ht hu (show 0 < 64 by decide)
  rw [← hx, ← hy]
  rfl

theorem joinValues_two {t : Nat} (s : Nat) (ht : t < 64) : joinValues [s, t] = [UInt8.ofNat (s * 4 + t / 16)] := by
  rw [← (joined s ht (show 0 < 64 by decide) (show 0 < 64 by decide)).1]
  rfl

theorem sextets_lt : ∀ (b : Bytes), ∀ v ∈ sextets b, v < 64
  | x :: y :: z :: rest, v, h => by
    have hx := x.toNat_lt
    have hy := y.toNat_lt
    have hz := z.toNat_lt
    simp only [sextets, List.mem_cons] at h
    rcases h with rfl | rfl | rfl | rfl | h
    · omega
    · omega
    · omega
    · omega
    · exact sextets_lt rest v h
  | [x, y], v, h => by
    have hx := x.toNat_lt
    have hy := y.toNat_lt
    simp only [sextets, List.mem_cons, List.not_mem_nil, or_false] at h
    omega
  | [x], v, h => by
    have hx := x.toNat_lt
    simp only [sextets, List.mem_cons, List.not_mem_nil, or_false] at h
    omega
  | [], _, h => by cases h

/-- Four characters for three octets, and one more than its octets for a tail. -/
theorem length_sextets : ∀ b : Bytes, (sextets b).length = (4 * b.length + 2) / 3
  | x :: y :: z :: rest => by
    simp only [sextets, List.length_cons, length_sextets rest]
    omega
  | [_, _] => by simp [sextets]
  | [_] => by simp [sextets]
  | [] => rfl

theorem length_encode (a : Alphabet) (b : Bytes) : (encode a b).length = (4 * b.length + 2) / 3 := by
  rw [encode_eq_map_sextets, List.length_map, length_sextets]

theorem ofNat_eq (x : UInt8) {n : Nat} (h : n % 256 = x.toNat) : UInt8.ofNat n = x :=
  UInt8.toNat_inj.1 (by rw [UInt8.toNat_ofNat']; exact h)

theorem joinValues_sextets : ∀ b : Bytes, joinValues (sextets b) = b
  | x :: y :: z :: rest => by
    have hx := x.toNat_lt
    have hy := y.toNat_lt
    have hz := z.toNat_lt
    rw [sextets, joinValues_four _ (by omega) (by omega) (by omega), joinValues_sextets rest]
    rw [ofNat_eq x (by omega), ofNat_eq y (by omega), ofNat_eq z (by omega)]
  | [x, y] => by
    have hx := x.toNat_lt
    have hy := y.toNat_lt
    rw [sextets, joinValues_three _ (by omega) (by omega), ofNat_eq x (by omega), ofNat_eq y (by omega)]
  | [x] => by
    have hx := x.toNat_lt
    rw [sextets, joinValues_two _ (by omega), ofNat_eq x (by omega)]
  | [] => rfl

/-- Whole quadlets of values are kept: their octets have no bit more and none less. -/
theorem sextets_joinValues :
    ∀ vs : List Nat, vs.length % 4 = 0 → (∀ v ∈ vs, v < 64) → sextets (joinValues vs) = vs
  | s :: t :: u :: v :: rest, hl, h => by
    have hs := h s (by simp)
    have ht := h t (by simp)
    have hu := h u (by simp)
    have hv := h v (by simp)
    have hrest := sextets_joinValues rest (by simp only [List.length_cons] at hl; omega)
      (fun w hw => h w (by simp [hw]))
    simp only [joinValues_four s ht hu hv, sextets, UInt8.toNat_ofNat', hrest, List.cons.injEq, and_true]
    refine ⟨?_, ?_, ?_, ?_⟩ <;> omega
  | [_, _, _], hl, _ => by cases hl
  | [_, _], hl, _ => by cases hl
  | [_], hl, _ => by cases hl
  | [], _, _ => rfl

theorem length_join : ∀ vs : List UInt8, (join vs).length = vs.length * 3 / 4
  | s :: t :: u :: v :: rest => by
    simp only [join, List.length_cons, length_join rest]
    omega
  | [_, _, _] => by simp [join]
  | [_, _] => by simp [join]
  | [_] => by simp [join]
  | [] => rfl

theorem length_joinValues (vs : List Nat) : (joinValues vs).length = vs.length * 3 / 4 := by
  rw [joinValues, length_join, List.length_map]

/-! ## Round trips -/

theorem withoutPadding_of_notMem {text : Bytes} (h : pad ∉ text) : withoutPadding text = text := by
  unfold withoutPadding
  rw [if_neg]
  rintro ⟨-, hl⟩
  exact h (List.mem_of_getLast? hl)

/-- Padding that is dropped makes the text shorter. -/
theorem withoutPadding_eq_or (text : Bytes) :
    withoutPadding text = text ∨ (withoutPadding text).length < text.length := by
  unfold withoutPadding
  split
  · next h =>
    have hne : 0 < text.length := List.length_pos_of_mem (List.mem_of_getLast? h.2)
    split
    · exact .inr (by rw [List.length_dropLast, List.length_dropLast]; omega)
    · exact .inr (by rw [List.length_dropLast]; omega)
  · exact .inl rfl

theorem pad_notMem_encode {a : Alphabet} (hp : pad ∉ a.chars) (b : Bytes) : pad ∉ encode a b := fun h => by
  rw [encode_eq_map_sextets] at h
  obtain ⟨v, -, hv⟩ := List.mem_map.1 h
  exact hp (hv ▸ a.char_mem v)

/-- **Octets are read back from their text.** -/
theorem decode_encode (a : Alphabet) (hd : a.chars.Nodup) (hp : pad ∉ a.chars) (b : Bytes) :
    decode a (encode a b) = .ok b := by
  unfold decode
  simp only [withoutPadding_of_notMem (pad_notMem_encode hp b)]
  rw [if_neg (by rw [length_encode]; omega), encode_eq_map_sextets, a.values_map_char hd 0 _ (sextets_lt b)]
  exact congrArg Except.ok (joinValues_sextets b)

/-- What a decoded text is: the characters of values, all of the text unless padding was dropped. -/
theorem decode_eq_ok (a : Alphabet) {text b : Bytes} (h : decode a text = .ok b) :
    ∃ vs : List Nat, withoutPadding text = vs.map a.char ∧ (∀ v ∈ vs, v < 64) ∧ b = joinValues vs := by
  simp only [decode] at h
  split at h
  · cases h
  · cases hv : a.values 0 (withoutPadding text) with
    | error e => rw [hv] at h; cases h
    | ok vs =>
      rw [hv] at h
      cases h
      obtain ⟨ht, hlt⟩ := a.values_eq_ok hv
      exact ⟨vs, ht, hlt, rfl⟩

/-- A decoded text holds at most three octets for four characters. -/
theorem length_of_decode (a : Alphabet) {text b : Bytes} (h : decode a text = .ok b) :
    b.length = (withoutPadding text).length * 3 / 4 := by
  obtain ⟨vs, ht, -, rfl⟩ := decode_eq_ok a h
  rw [length_joinValues, ht, List.length_map]

/-- **A text of whole quadlets without padding is written back from its octets.** -/
theorem encode_of_decode (a : Alphabet) {text b : Bytes} (hl : text.length % 4 = 0)
    (hb : text.length * 3 / 4 ≤ b.length) (h : decode a text = .ok b) : encode a b = text := by
  have hfull : withoutPadding text = text := by
    refine (withoutPadding_eq_or text).resolve_right (fun hlt => ?_)
    have := length_of_decode a h
    omega
  obtain ⟨vs, ht, hlt, rfl⟩ := decode_eq_ok a h
  rw [hfull] at ht
  subst ht
  rw [List.length_map] at hl
  rw [encode_eq_map_sextets, sextets_joinValues vs hl hlt]

/-- Up to three zero octets at the front make as many characters of the value zero. -/
theorem take_encode_zeros (a : Alphabet) (n : Nat) (hn : n ≤ 3) (b : Bytes) :
    (encode a (List.replicate n 0 ++ b)).take n = List.replicate n (a.char 0) := by
  rw [encode_eq_map_sextets, ← List.map_take, ← List.map_replicate (n := n) (f := a.char)]
  congr 1
  match n, hn, b with
  | 0, _, _ => rfl
  | 1, _, [] => rfl
  | 1, _, [_] => rfl
  | 1, _, _ :: _ :: _ => rfl
  | 2, _, [] => rfl
  | 2, _, _ :: _ => rfl
  | 3, _, _ => rfl

end Quadlet.Base64
