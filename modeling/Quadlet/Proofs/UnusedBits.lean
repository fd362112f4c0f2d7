import Mathlib.Data.List.ModifyLast
import Quadlet.Proofs.Padding
/-!
# Unused bits — which texts hold the same octets

A text is read if its body has a length that octets can have and characters of the alphabet only; of what is wrong with
another, the length is found first (`decode_eq_error`).  Six bits to a character and eight to an octet leave some bits
of the last character over.  The reader drops them and the writer clears them (`encode_joinValues`), so texts of the
same octets may differ in them, and in nothing else (`same_octets_iff`).
-/
namespace Quadlet.Base64

variable {a : Alphabet} {text other body body' b b' : Bytes}

/-! ## Values -/

/-- How many low bits of the last of so many characters no octet takes. -/
def unusedBits (length : Nat) : Nat :=
  match length % 4 with
  | 2 => 4
  | 3 => 2
  | _ => 0

theorem unusedBits_add_four (length : Nat) : unusedBits (length + 4) = unusedBits length := by
  rw [unusedBits, Nat.add_mod_right]
  rfl

/-- A value with its `k` low bits cleared. -/
def clearBits (k v : Nat) : Nat := v >>> k <<< k

theorem clearBits_le (k v : Nat) : clearBits k v ≤ v := by
  rw [clearBits, Nat.shiftRight_eq_div_pow, Nat.shiftLeft_eq]
  exact Nat.div_mul_le_self v (2 ^ k)

theorem clearBits_inj {k v w : Nat} : clearBits k v = clearBits k w ↔ v >>> k = w >>> k := by
  constructor
  · intro h
    simp only [clearBits, Nat.shiftLeft_eq] at h
    exact Nat.eq_of_mul_eq_mul_right (Nat.two_pow_pos k) h
  · intro h
    rw [clearBits, clearBits, h]

/-- **Values that are joined and taken apart again have lost the unused bits of the last one.** -/
theorem sextets_joinValues_eq : ∀ vs : List Nat, vs.length % 4 ≠ 1 → (∀ v ∈ vs, v < 64) →
    sextets (joinValues vs) = vs.modifyLast (clearBits (unusedBits vs.length))
  | s :: t :: u :: v :: w :: ws, hl, h => by
    have hquad := sextets_joinValues [s, t, u, v] (by simp) fun x hx => h x (List.mem_append_left (w :: ws) hx)
    have hrest := sextets_joinValues_eq (w :: ws) (by simp only [List.length_cons] at hl ⊢; omega)
      fun x hx => h x (List.mem_append_right [s, t, u, v] hx)
    have ht := h t (by simp)
    have hu := h u (by simp)
    have hv := h v (by simp)
    simp only [joinValues_four s ht hu hv, sextets, List.cons.injEq] at hquad
    simp only [joinValues_four s ht hu hv, sextets, hquad, hrest]
    -- four values are whole octets, and in front of others none of them is the last
    show _ = List.modifyLast (clearBits (unusedBits ((w :: ws).length + 4))) ([s, t, u, v] ++ w :: ws)
    rw [unusedBits_add_four, List.modifyLast_append_of_right_ne_nil _ _ _ (List.cons_ne_nil w ws)]
    rfl
  | [s, t, u, v], _, h => by
    have hbits : unusedBits [s, t, u, v].length = 0 := by simp [unusedBits]
    rw [sextets_joinValues [s, t, u, v] (by simp) h, hbits]
    exact (List.modifyLast_concat (clearBits 0) v [s, t, u]).symm
  | [s, t, u], _, h => by
    have hs := h s (by simp)
    have ht := h t (by simp)
    have hu := h u (by simp)
    simp only [joinValues_three s ht hu, sextets, UInt8.toNat_ofNat']
    show _ = [s, t, u >>> 2 <<< 2]
    simp only [List.cons.injEq, and_true]
    omega
  | [s, t], _, h => by
    have hs := h s (by simp)
    have ht := h t (by simp)
    simp only [joinValues_two s ht, sextets, UInt8.toNat_ofNat']
    show _ = [s, t >>> 4 <<< 4]
    simp only [List.cons.injEq, and_true]
    omega
  | [_], hl, _ => absurd rfl hl
  | [], _, _ => rfl

/-! ## Bodies -/

/-- The text with the unused bits of its last character cleared. -/
def Alphabet.clearUnused (a : Alphabet) (text : Bytes) : Bytes :=
  text.modifyLast fun c => a.char (clearBits (unusedBits text.length) (a.position c))

/-- **Two texts of one length that differ at most in the unused bits** of their last characters. -/
structure Alphabet.SameButUnused (a : Alphabet) (text other : Bytes) : Prop where
  length_eq : text.length = other.length
  front_eq : text.dropLast = other.dropLast
  used_eq : text.getLast?.map (fun c => a.position c >>> unusedBits text.length) =
    other.getLast?.map (fun c => a.position c >>> unusedBits text.length)

theorem clearUnused_concat (a : Alphabet) (front : Bytes) (c : UInt8) :
    a.clearUnused (front ++ [c]) =
      front ++ [a.char (clearBits (unusedBits (front.length + 1)) (a.position c))] := by
  rw [Alphabet.clearUnused, List.modifyLast_concat, List.length_append, List.length_singleton]

theorem length_clearUnused (a : Alphabet) (text : Bytes) : (a.clearUnused text).length = text.length := by
  rcases List.eq_nil_or_concat' text with rfl | ⟨front, c, rfl⟩
  · rfl
  · rw [clearUnused_concat, List.length_append, List.length_append]
    rfl

/-- **What a body is read to is written as the body with its unused bits cleared.** -/
theorem encode_joinValues (hlen : body.length % 4 ≠ 1) (hmem : ∀ c ∈ body, c ∈ a.chars) :
    encode a (joinValues (body.map a.position)) = a.clearUnused body := by
  rw [encode_eq_map_sextets,
    sextets_joinValues_eq _ (by rwa [List.length_map]) (Alphabet.positions_lt hmem), List.length_map]
  rcases List.eq_nil_or_concat' body with rfl | ⟨front, c, rfl⟩
  · rfl
  · have hfront := Alphabet.map_char_position fun x hx => hmem x (List.mem_append_left [c] hx)
    rw [clearUnused_concat, List.map_append, List.map_singleton, List.modifyLast_concat, List.map_append, hfront,
      List.length_append]
    rfl

theorem char_clearBits_inj {c c' : UInt8} {k : Nat} (hd : a.chars.Nodup) (hc : c ∈ a.chars) (hc' : c' ∈ a.chars) :
    a.char (clearBits k (a.position c)) = a.char (clearBits k (a.position c')) ↔
      a.position c >>> k = a.position c' >>> k := by
  have hposition : ∀ x ∈ a.chars, a.position (a.char (clearBits k (a.position x))) = clearBits k (a.position x) :=
    fun x hx => a.position_char hd (Nat.lt_of_le_of_lt (clearBits_le _ _) (Alphabet.position_lt hx))
  rw [← clearBits_inj]
  refine ⟨fun h => ?_, congrArg a.char⟩
  have hcleared := congrArg a.position h
  rwa [hposition c hc, hposition c' hc'] at hcleared

/-- Bodies of one length are alike in what is used if they are alike with the rest cleared. -/
theorem clearUnused_eq_iff (hd : a.chars.Nodup) (hmem : ∀ c ∈ body, c ∈ a.chars) (hmem' : ∀ c ∈ body', c ∈ a.chars)
    (hlen : body.length = body'.length) : a.clearUnused body = a.clearUnused body' ↔ a.SameButUnused body body' := by
  rcases List.eq_nil_or_concat' body with rfl | ⟨front, c, rfl⟩
  · obtain rfl := List.eq_nil_of_length_eq_zero hlen.symm
    exact iff_of_true rfl ⟨rfl, rfl, rfl⟩
  rcases List.eq_nil_or_concat' body' with rfl | ⟨front', c', rfl⟩
  · simp at hlen
  have hfronts : front.length = front'.length := by simpa using hlen
  have hlast := fun k => char_clearBits_inj (k := k) hd (hmem c (by simp)) (hmem' c' (by simp))
  constructor
  · intro h
    rw [clearUnused_concat, clearUnused_concat, ← hfronts] at h
    obtain ⟨rfl, hc⟩ := List.append_inj h hfronts
    refine ⟨hlen, by rw [List.dropLast_concat, List.dropLast_concat], ?_⟩
    rw [List.getLast?_concat, List.getLast?_concat, List.length_append]
    exact congrArg some ((hlast _).1 (List.singleton_inj.1 hc))
  · rintro ⟨-, hfront, hused⟩
    rw [List.dropLast_concat, List.dropLast_concat] at hfront
    subst hfront
    rw [List.getLast?_concat, List.getLast?_concat, List.length_append] at hused
    rw [clearUnused_concat, clearUnused_concat]
    exact congrArg (fun x => front ++ [x]) ((hlast _).2 (Option.some.inj hused))

/-! ## Reading -/

/-- **What is read**: a body of a length that octets have, all of it of the alphabet. -/
theorem decode_eq_ok_iff (hd : a.chars.Nodup) (h : Unpadded text body) :
    decode a text = .ok b ↔
      body.length % 4 ≠ 1 ∧ (∀ c ∈ body, c ∈ a.chars) ∧ b = joinValues (body.map a.position) := by
  rw [decode_eq h]
  split
  · next hone => exact ⟨fun hb => (by cases hb), fun hb => absurd hone hb.1⟩
  · next hone => rw [and_iff_right hone, a.map_values_eq_ok hd]

/-- **What is not read** has no length that octets have, which is found first, or a character that is foreign. -/
theorem decode_eq_error (h : Unpadded text body) {e : TextError} :
    decode a text = .error e ↔
      body.length % 4 = 1 ∧ e = .invalidLength body.length ∨
        body.length % 4 ≠ 1 ∧ ∃ c i, a.FirstForeign body c i ∧ e = .invalidCharacter c i := by
  rw [decode_eq h]
  split
  · next hone =>
    refine ⟨fun he => by cases he; exact .inl ⟨hone, rfl⟩, ?_⟩
    rintro (⟨-, rfl⟩ | ⟨hne, -⟩)
    · rfl
    · exact absurd hone hne
  · next hone =>
    rw [or_iff_right (fun he => hone he.1), and_iff_right hone, a.map_values_eq_error]

theorem encode_inj (hd : a.chars.Nodup) (h : encode a b = encode a b') : b = b' := by
  have hvalues : ∀ b, a.values 0 (encode a b) = .ok (sextets b) := fun b => by
    rw [encode_eq_map_sextets, a.values_map_char hd 0 _ (sextets_lt b)]
  have hb := hvalues b
  rw [h, hvalues b'] at hb
  rw [← joinValues_sextets b, ← joinValues_sextets b', Except.ok.inj hb]

/-- **Texts of the same octets** are those whose bodies are alike but for the unused bits. -/
theorem same_octets_iff (hd : a.chars.Nodup) (h : Unpadded text body) (h' : Unpadded other body')
    (hb : decode a text = .ok b) (hb' : decode a other = .ok b') : b = b' ↔ a.SameButUnused body body' := by
  obtain ⟨hlen, hmem, rfl⟩ := (decode_eq_ok_iff hd h).1 hb
  obtain ⟨hlen', hmem', rfl⟩ := (decode_eq_ok_iff hd h').1 hb'
  constructor
  · intro hsame
    have htexts := congrArg (encode a) hsame
    rw [encode_joinValues hlen hmem, encode_joinValues hlen' hmem'] at htexts
    have hlength := congrArg List.length htexts
    rw [length_clearUnused, length_clearUnused] at hlength
    exact (clearUnused_eq_iff hd hmem hmem' hlength).1 htexts
  · intro hsame
    refine encode_inj hd ?_
    rw [encode_joinValues hlen hmem, encode_joinValues hlen' hmem']
    exact (clearUnused_eq_iff hd hmem hmem' hsame.length_eq).2 hsame

/-- **Which texts are read, and to what.**  Every text has one body without padding.  It is read exactly if the body has
a length that octets have and all of it is of the alphabet, to octets that are written as the body with its unused bits
cleared; so other texts are read to the same octets exactly if their bodies are alike but for those bits.  Of a text
that is not read, the length of the body is reported, and if that is not at fault its first character that is foreign. -/
theorem decode_exact (a : Alphabet) (hd : a.chars.Nodup) :
    (∀ text, ∃! body, Unpadded text body) ∧
    (∀ text body, Unpadded text body →
      ((∃ b, decode a text = .ok b) ↔ body.length % 4 ≠ 1 ∧ ∀ c ∈ body, c ∈ a.chars) ∧
      (∀ b, decode a text = .ok b → b.length = 3 * body.length / 4 ∧ encode a b = a.clearUnused body) ∧
      ∀ e, decode a text = .error e ↔
        body.length % 4 = 1 ∧ e = .invalidLength body.length ∨
          body.length % 4 ≠ 1 ∧ ∃ c i, a.FirstForeign body c i ∧ e = .invalidCharacter c i) ∧
    ∀ text other body body' b b', Unpadded text body → Unpadded other body' →
      decode a text = .ok b → decode a other = .ok b' → (b = b' ↔ a.SameButUnused body body') := by
  refine ⟨fun text => ?_, fun text body h => ⟨?_, fun b hb => ?_, fun e => decode_eq_error h⟩,
    fun text other body body' b b' h h' hb hb' => same_octets_iff hd h h' hb hb'⟩
  · exact ⟨withoutPadding text, unpadded_withoutPadding text, fun body h => (unpadded_iff.1 h).symm⟩
  · simp only [decode_eq_ok_iff hd h, exists_and_left, exists_eq, and_true]
  · obtain ⟨hlen, hmem, rfl⟩ := (decode_eq_ok_iff hd h).1 hb
    refine ⟨?_, encode_joinValues hlen hmem⟩
    rw [length_joinValues, List.length_map, Nat.mul_comm]

/-- One octet, padded with its unused bits clear and unpadded with all of them set: the latter is written back as the
former is without its padding. -/
theorem decode_exact_unusedBits :
    Alphabet.url.chars.Nodup ∧ Unpadded (Bytes.ofString "QQ==") (Bytes.ofString "QQ") ∧
      Unpadded (Bytes.ofString "Qf") (Bytes.ofString "Qf") ∧
      decode .url (Bytes.ofString "QQ==") = .ok [0x41] ∧ decode .url (Bytes.ofString "Qf") = .ok [0x41] ∧
      Alphabet.url.SameButUnused (Bytes.ofString "QQ") (Bytes.ofString "Qf") ∧
      encode .url [0x41] = Alphabet.url.clearUnused (Bytes.ofString "Qf") ∧
      decode .url (Bytes.ofString "Q!==") = .error (.invalidCharacter '!'.toUInt8 1) := by
  obtain ⟨-, hread, hsame⟩ := decode_exact .url Alphabet.nodup_url
  have hpadded : Unpadded (Bytes.ofString "QQ==") (Bytes.ofString "QQ") := unpadded_iff.2 (by decide +kernel)
  have hset : Unpadded (Bytes.ofString "Qf") (Bytes.ofString "Qf") := unpadded_iff.2 (by decide +kernel)
  have hforeign : Unpadded (Bytes.ofString "Q!==") (Bytes.ofString "Q!") := unpadded_iff.2 (by decide +kernel)
  have hb : decode .url (Bytes.ofString "QQ==") = .ok [0x41] := by decide +kernel
  have hb' : decode .url (Bytes.ofString "Qf") = .ok [0x41] := by decide +kernel
  exact ⟨Alphabet.nodup_url, hpadded, hset, hb, hb', (hsame _ _ _ _ _ _ hpadded hset hb hb').1 rfl,
    ((hread _ _ hset).2.1 _ hb').2, ((hread _ _ hforeign).2.2 _).2 (.inr ⟨by decide +kernel, '!'.toUInt8, 1,
      ⟨by decide +kernel, by decide +kernel, by decide +kernel⟩, rfl⟩)⟩

end Quadlet.Base64
