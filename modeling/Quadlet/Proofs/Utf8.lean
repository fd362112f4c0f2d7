import Mathlib.Data.List.Forall2
import Quadlet.Text.Utf8
/-!
# UTF-8 laws — characters of one octet

An ASCII character is the octet with its number and nothing else is, since the ranges behind a first octet leave out
overlong forms (`le_codePoint`).  So a text that starts with ASCII characters starts with them as octets too.
-/
namespace Quadlet.Utf8

theorem matched_eq_length :
    ∀ {ranges : List Range} {rest : Bytes}, matched ranges rest = ranges.length →
      List.Forall₂ (fun c r => Range.contains r c = true) (rest.take ranges.length) ranges
  | [], _, _ => by simp
  | r :: ranges, [], h => by simp [matched] at h
  | r :: ranges, c :: rest, h => by
    unfold matched at h
    split at h
    · next hc =>
      rw [List.length_cons, Nat.add_right_cancel_iff] at h
      exact .cons hc (matched_eq_length h)
    · simp at h

theorem contains_iff {r : Range} {c : UInt8} :
    r.contains c = true ↔ r.first.toNat ≤ c.toNat ∧ c.toNat ≤ r.last.toNat := by
  rw [Range.contains, Bool.and_eq_true, decide_eq_true_eq, decide_eq_true_eq, UInt8.le_iff_toNat_le,
    UInt8.le_iff_toNat_le]

/-- What takes more than one octet is no ASCII character. -/
theorem le_codePoint {lead : UInt8} {following : Bytes} {ranges : List Range} (hlead : 0x80 ≤ lead.toNat)
    (hc : continuation lead = some ranges)
    (hfit : List.Forall₂ (fun c r => Range.contains r c = true) following ranges) :
    0x80 ≤ codePoint lead following := by
  unfold continuation at hc
  simp only [UInt8.lt_iff_toNat_lt, ← UInt8.toNat_inj] at hc
  simp only [contains_iff] at hfit
  split at hc
  · next h =>
    exact absurd h (by simpa using hlead)
  repeat' split at hc
  all_goals cases hc
  -- one to three octets follow; the first of them is bounded where the bits of the lead alone could be too few
  all_goals
    rcases hfit with _ | ⟨h1, _ | ⟨h2, _ | ⟨h3, _ | _⟩⟩⟩
    simp only [codePoint, tail, List.length_cons, List.length_nil, List.foldl_cons, List.foldl_nil,
      UInt8.reduceToNat] at *
    omega

theorem piece_ascii {lead : UInt8} (h : lead < 0x80) (rest : Bytes) :
    piece lead rest = .character (Char.ofNat lead.toNat) 0 := by
  rw [piece, continuation, if_pos h]
  rfl

theorem toNat_ofNat_of_isValidChar {n : Nat} (h : n.isValidChar) : (Char.ofNat n).toNat = n := by
  have hchar : Char.ofNat n = Char.ofNatAux n h := dif_pos h
  rw [hchar]
  rfl

/-- A number that is no character stands for the null character. -/
theorem toNat_ofNat_of_pos {n : Nat} (h : 0 < (Char.ofNat n).toNat) : (Char.ofNat n).toNat = n := by
  by_cases hvalid : n.isValidChar
  · exact toNat_ofNat_of_isValidChar hvalid
  · have hnull : Char.ofNat n = '\x00' := dif_neg hvalid
    rw [hnull] at h
    exact absurd h (by decide)

theorem toNat_ofNat_of_lt {n : Nat} (h : n < 0x80) : (Char.ofNat n).toNat = n :=
  toNat_ofNat_of_isValidChar (.inl (by omega))

/-- An ASCII character is one octet, for the ranges leave out overlong forms. -/
theorem ascii_of_piece {lead : UInt8} {rest : Bytes} {c : Char} {n : Nat} (h : piece lead rest = .character c n)
    (hpos : 0 < c.toNat) (hlt : c.toNat < 0x80) : n = 0 ∧ lead.toNat = c.toNat := by
  by_cases hlead : lead < 0x80
  · rw [piece_ascii hlead] at h
    cases h
    exact ⟨rfl, (toNat_ofNat_of_pos hpos).symm⟩
  · unfold piece at h
    split at h
    · cases h
    next ranges hc =>
    dsimp only at h
    split at h
    · next hm =>
      cases h
      have hle := le_codePoint (by simpa [UInt8.lt_iff_toNat_lt] using hlead) hc (matched_eq_length hm)
      rw [toNat_ofNat_of_pos hpos, hm] at hlt
      omega
    · cases h

/-- ASCII octets spell the characters with their numbers. -/
theorem scan_of_isAscii : ∀ {b : Bytes}, Bytes.isAscii b = true → scan b = (b.map (fun c => Char.ofNat c.toNat), [])
  | [], _ => by rw [scan]; rfl
  | lead :: rest, h => by
    rw [Bytes.isAscii, List.all_cons, Bool.and_eq_true] at h
    obtain ⟨hlead, hrest⟩ := h
    rw [scan, piece_ascii (of_decide_eq_true hlead)]
    dsimp only
    rw [List.drop_zero, scan_of_isAscii hrest, List.map_cons]

/-- **What starts with ASCII characters as a text starts with them as octets.** -/
theorem take_of_scan :
    ∀ {b : Bytes} {cs : List Char} (n : Nat), (scan b).1 = cs → n ≤ cs.length →
      (∀ c ∈ cs.take n, 0 < c.toNat ∧ c.toNat < 0x80) → (b.take n).map UInt8.toNat = (cs.take n).map Char.toNat
  | _, _, 0, _, _, _ => by simp
  | [], _, n + 1, h, hlen, _ => by
    rw [scan] at h
    subst h
    cases hlen
  | lead :: rest, cs, n + 1, h, hlen, hascii => by
    rw [scan] at h
    split at h
    · subst h
      cases hlen
    · next c k hpiece =>
      subst h
      dsimp only at hlen hascii ⊢
      rw [List.take_succ_cons, List.forall_mem_cons] at hascii
      obtain ⟨⟨hpos, hlt⟩, hrest⟩ := hascii
      obtain ⟨rfl, hlead⟩ := ascii_of_piece hpiece hpos hlt
      rw [List.drop_zero] at hlen hrest ⊢
      rw [List.take_succ_cons, List.take_succ_cons, List.map_cons, List.map_cons, hlead,
        take_of_scan n rfl (by simpa using hlen) hrest]

end Quadlet.Utf8
