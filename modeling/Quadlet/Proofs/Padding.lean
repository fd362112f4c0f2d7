import Mathlib.Algebra.Order.Floor.Div
import Mathlib.Data.List.DropRight
import Quadlet.Proofs.Base64
/-!
# Padding — `=` at the end of a text

A padded text is filled up to whole quadlets, so its padding can be told by its length and its end alone: two `=` at
most, and none unless the quadlets are whole (`Unpadded`).  An alphabet without `=` ends no text of octets with it, so
what the writer adds is what the reader drops, and octets are read back from both their texts (`octets_kept`).
-/
namespace Quadlet.Base64

variable {a : Alphabet} {text body b : Bytes}

/-! ## A text and its body -/

/-- **What is left of a text without its padding**: one or two `=` go where the quadlets are whole, two if there are
two, and any other text is kept as it is. -/
inductive Unpadded : (text body : Bytes) → Prop where
  | two {body : Bytes} : (body ++ [pad, pad]).length % 4 = 0 → Unpadded (body ++ [pad, pad]) body
  | one {body : Bytes} : (body ++ [pad]).length % 4 = 0 → body.getLast? ≠ some pad → Unpadded (body ++ [pad]) body
  | none {text : Bytes} : ¬(text.length % 4 = 0 ∧ text.getLast? = some pad) → Unpadded text text

theorem unpadded_withoutPadding (text : Bytes) : Unpadded text (withoutPadding text) := by
  unfold withoutPadding
  split
  · next h =>
    obtain ⟨hlen, hlast⟩ := h
    have htext := List.dropLast_append_getLast? pad hlast
    split
    · next hlast' =>
      have htext' := List.dropLast_append_getLast? pad hlast'
      have htwo : text.dropLast.dropLast ++ [pad, pad] = text := by
        rw [← List.singleton_append, ← List.append_assoc, htext', htext]
      have := @Unpadded.two text.dropLast.dropLast (by rw [htwo]; exact hlen)
      rwa [htwo] at this
    · next hlast' =>
      have := @Unpadded.one text.dropLast (by rw [htext]; exact hlen) hlast'
      rwa [htext] at this
  · next h => exact .none h

theorem unpadded_iff : Unpadded text body ↔ withoutPadding text = body := by
  constructor
  · rintro (hlen | ⟨hlen, hlast⟩ | h)
    · unfold withoutPadding
      have htwo : body ++ [pad, pad] = body ++ [pad] ++ [pad] := by rw [List.append_assoc]; rfl
      rw [htwo] at hlen ⊢
      rw [if_pos ⟨hlen, List.getLast?_concat⟩, List.dropLast_concat, if_pos List.getLast?_concat, List.dropLast_concat]
    · unfold withoutPadding
      rw [if_pos ⟨hlen, List.getLast?_concat⟩, List.dropLast_concat, if_neg hlast]
    · exact if_neg h
  · rintro rfl
    exact unpadded_withoutPadding text

theorem unpadded_self (h : pad ∉ text) : Unpadded text text := unpadded_iff.2 (withoutPadding_of_notMem h)

theorem decode_eq (h : Unpadded text body) :
    decode a text =
      if body.length % 4 = 1 then .error (.invalidLength body.length) else (a.values 0 body).map joinValues := by
  rw [← unpadded_iff.1 h]
  rfl

/-! ## The two texts of octets -/

/-- The characters of the octets and the padding come to whole quadlets, one for each three octets begun. -/
theorem length_encodePadded (a : Alphabet) (b : Bytes) : (encodePadded a b).length = 4 * ((b.length + 2) / 3) := by
  rw [encodePadded, List.length_append, List.length_replicate, length_encode]
  omega

/-- The padding is all that is dropped from a padded text. -/
theorem unpadded_encodePadded (hp : pad ∉ a.chars) (b : Bytes) : Unpadded (encodePadded a b) (encode a b) := by
  have hpad := pad_notMem_encode hp b
  have hlen : (encodePadded a b).length % 4 = 0 := by rw [length_encodePadded]; omega
  unfold encodePadded at hlen ⊢
  obtain h | h | h : (3 - b.length % 3) % 3 = 0 ∨ (3 - b.length % 3) % 3 = 1 ∨ (3 - b.length % 3) % 3 = 2 := by omega
  · rw [h, List.replicate_zero, List.append_nil]
    exact unpadded_self hpad
  · rw [h] at hlen ⊢
    exact .one hlen fun hlast => hpad (List.mem_of_getLast? hlast)
  · rw [h] at hlen ⊢
    exact .two hlen

theorem rdropWhile_encodePadded (hp : pad ∉ a.chars) (b : Bytes) :
    (encodePadded a b).rdropWhile (· == pad) = encode a b := by
  have hkept : (encode a b).rdropWhile (· == pad) = encode a b := by
    refine List.rdropWhile_eq_self_iff.2 fun hne hlast => pad_notMem_encode hp b ?_
    rw [← beq_iff_eq.1 hlast]
    exact List.getLast_mem hne
  have hdropped : ∀ n, (encode a b ++ List.replicate n pad).rdropWhile (· == pad) = encode a b := by
    intro n
    induction n with
    | zero => rw [List.replicate_zero, List.append_nil, hkept]
    | succ n ih =>
      rw [List.replicate_succ', ← List.append_assoc,
        List.rdropWhile_concat_pos (· == pad) _ _ (beq_self_eq_true pad), ih]
  exact hdropped _

/-- **Octets are read back from both their texts**, the padded one and the one that is stripped of its padding.  The
padded text is whole quadlets, the stripped one is as long as the bits of the octets ask; they differ by the `=` at the
end of the former, of which there are as many as octets are missing to a multiple of three. -/
theorem octets_kept (a : Alphabet) (hd : a.chars.Nodup) (hp : pad ∉ a.chars) (b : Bytes) :
    decode a (encodePadded a b) = .ok b ∧ decode a (encode a b) = .ok b ∧
    (encodePadded a b).length = 4 * (b.length ⌈/⌉ 3) ∧ (encode a b).length = (4 * b.length) ⌈/⌉ 3 ∧
    (encodePadded a b).rdropWhile (· == pad) = encode a b ∧
    ((encodePadded a b).rtakeWhile (· == pad)).length = (3 - b.length % 3) % 3 := by
  have hstripped := decode_encode a hd hp b
  have hbody := unpadded_self (pad_notMem_encode hp b)
  have hdropped := rdropWhile_encodePadded hp b
  refine ⟨?_, hstripped, ?_, ?_, hdropped, ?_⟩
  · rw [decode_eq (unpadded_encodePadded hp b), ← decode_eq hbody]
    exact hstripped
  · rw [length_encodePadded, Nat.ceilDiv_eq_add_pred_div]
    rfl
  · rw [length_encode, Nat.ceilDiv_eq_add_pred_div]
    rfl
  · -- what is not dropped and what is dropped are the whole
    have hwhole := congrArg List.length (List.rdropWhile_append_rtakeWhile (p := (· == pad)) (l := encodePadded a b))
    rw [List.length_append, hdropped, encodePadded, List.length_append, List.length_replicate] at hwhole
    exact Nat.add_left_cancel hwhole

/-- Two octets, written with one `=` in an alphabet that has `+` and `/` for its last characters. -/
theorem octets_kept_twoOctets :
    ∃ a : Alphabet, a.chars.Nodup ∧ pad ∉ a.chars ∧ encodePadded a [0xfb, 0xff] = Bytes.ofString "+/8=" ∧
      decode a (Bytes.ofString "+/8=") = .ok [0xfb, 0xff] ∧ decode a (Bytes.ofString "+/8") = .ok [0xfb, 0xff] := by
  let a : Alphabet :=
    ⟨Alphabet.run 'A' 26 ++ Alphabet.run 'a' 26 ++ Alphabet.run '0' 10 ++ Bytes.ofString "+/", by decide⟩
  have hd : a.chars.Nodup := by decide
  have hp : pad ∉ a.chars := by decide
  have hpadded : encodePadded a [0xfb, 0xff] = Bytes.ofString "+/8=" := by decide +kernel
  have hstripped : encode a [0xfb, 0xff] = Bytes.ofString "+/8" := by decide +kernel
  obtain ⟨hread, hread', -⟩ := octets_kept a hd hp [0xfb, 0xff]
  rw [hpadded] at hread
  rw [hstripped] at hread'
  exact ⟨a, hd, hp, hpadded, hread, hread'⟩

end Quadlet.Base64
