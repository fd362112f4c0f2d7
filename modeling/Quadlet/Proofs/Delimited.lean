import Quadlet.Proofs.Shortage
/-!
# Delimited values — a value ends where it says

What follows a value does not change it, and a value that is cut short lacks some of the bytes that are cut off.  It
lacks exactly those as soon as the bytes are there that say how long it is (`Value.sizingLength?`): then nothing is left
to ask for but the whole.  Only seal source triples are as long as what is read in them, and they end where they say
only if none of the codes in them wraps around (`not_delimited_wrapping`).
-/
namespace Quadlet

variable {r : Registry} {input : Bytes} {k : Nat}

/-! ## The bytes that size a value -/

/-- How many bytes say how long a value is: the selector of a code that fixes the length, the whole code of another one
or of a counter, the window of a version string.  None, for triples. -/
def Value.sizingLength? (v : Value) : Option Nat :=
  match v.header with
  | .version _ => some VersionHeader.windowSize
  | .code h =>
    if h.descriptor.selector.head? = some counterStart then
      if h.descriptor.name = some Value.sealTriplesName then none else some h.codeLength
    else if h.descriptor.fs.isSome then some h.descriptor.hs else some h.codeLength

/-- Only triples are not sized by first bytes of them. -/
theorem Value.IsTriples.sizingLength? {v : Value} (h : v.IsTriples) : v.sizingLength? = none := by
  obtain ⟨h, hh, hstart, hname⟩ := h
  simp only [Value.sizingLength?, hh, if_pos hstart, if_pos hname]

/-- **How a value lies in what `read` reads it from**: the same bytes are read as the same value before anything, fewer
of them lack some of the rest, and all of the rest once the length is known. -/
structure Value.Delimited (v : Value) (read : Bytes → Except DecodeError Value) (input : Bytes) : Prop where
  alone : ∀ rest : Bytes, read (input.take v.length ++ rest) = .ok v
  short : ∀ k < v.length, Lacks (read (input.take k)) k (v.length - k)
  sized : ∀ n, v.sizingLength? = some n →
    ∀ k < v.length, n ≤ k → read (input.take k) = .error (.shortage k (v.length - k))

/-! ## Asking for the whole -/

section Bind

variable {α β : Type} {x : Except DecodeError α} {f : α → Except DecodeError β} {e : DecodeError}

theorem bind_of_error (hx : x = .error e) : x >>= f = .error e := by
  rw [hx]
  rfl

theorem bind_of_ok {a : α} (hx : x = .ok a) (hf : f a = .error e) : x >>= f = .error e := by
  rw [hx]
  exact hf

end Bind

namespace Primitive

/-- **A primitive whose length is known** lacks all that is cut off: a full size is asked for behind the selector, the
length that digits count behind them. -/
theorem extract_take_of_sized (hr : r.Loaded) {p : Primitive} (h : extract r input = .ok p) {d : Descriptor}
    (hd : r.lookup p.selector = .ok d) (hfits : d.Fits) (hsized : (if d.fs.isSome then d.hs else d.cs) ≤ k)
    (hk : k < p.totalLength) :
    extract r (input.take k) = .error (.shortage k (p.totalLength - k)) := by
  obtain ⟨soft, hc, -⟩ := canonical_of_lookup hr h hd hfits
  obtain ⟨hsound, -, -⟩ := hc.facts hr
  obtain ⟨hs, d', hhs, hselector, hd', hfs, hcode, htotal, hlen, -⟩ := extract_eq_ok_iff_steps.1 h
  rw [hd] at hd'
  cases hd'
  have hkl : k ≤ input.length := Nat.le_trans (Nat.le_of_lt hk) hlen
  have hsame : (input.take k).take k = input.take k := by rw [List.take_take, Nat.min_self]
  obtain rfl := hc.hs_eq hr hselector
  have hhsk : d.hs ≤ k := by
    refine Nat.le_trans ?_ hsized
    split
    · exact Nat.le_refl _
    · exact hfits.hs_le_cs
  have hpos := hsound.lead_le
  obtain ⟨first, hfirst, hrest⟩ := hardSize_eq_ok.1 hhs
  have hsize : hardSize r (input.take k) = .ok d.hs :=
    hardSize_eq_ok.2 ⟨first, (head?_take_pos (by omega)).trans hfirst, hrest⟩
  have hselector' := codeText_of_take hhsk hsame hselector
  unfold extract
  refine bind_of_ok hsize (bind_of_ok hselector' (bind_of_ok hd ?_))
  rcases extent_eq_ok.1 htotal with hfixed | ⟨hnone, -⟩
  · -- a full size is asked for before the code is
    refine bind_of_error ?_
    rw [hfixed]
    exact ensure_take_of_lt hkl hk
  · have hcsk : d.cs ≤ k := by rwa [hnone] at hsized
    refine bind_of_ok (a := ()) (ensure_eq_ok.2 (by rw [hnone]; exact Nat.zero_le _)) ?_
    refine bind_of_ok (codeText_of_take hcsk hsame hcode) ?_
    refine bind_of_ok (extent_of_take hcsk hsame htotal) ?_
    exact bind_of_error (ensure_take_of_lt hkl hk)

end Primitive

namespace Value

/-! ## Values -/

/-- The length of a primitive is known where its table says it is. -/
theorem primitive_take_of_sized (hr : r.Loaded) {v : Value} (hv : primitive r input = .ok v) {n : Nat}
    (hn : v.sizingLength? = some n) (hnk : n ≤ k) (hk : k < v.length) :
    primitive r (input.take k) = .error (.shortage k (v.length - k)) := by
  obtain ⟨p, h, soft, hp, hc, -, -, rfl⟩ := canonical_of_primitive hr hv
  have hsized : (if h.descriptor.fs.isSome then h.descriptor.hs else h.descriptor.cs) ≤ k := by
    simp only [sizingLength?, CodeHeader.codeLength, if_neg hc.not_counter] at hn
    split at hn <;> cases hn
    · next hfs => rwa [if_pos hfs]
    · next hfs => rwa [if_neg hfs]
  have hd : r.lookup p.selector = .ok h.descriptor := hc.selector_eq ▸ (hc.facts hr).2.1
  exact bind_of_error (Primitive.extract_take_of_sized hr hp hd hc.fits hsized hk)

/-- The length of a counter is known from its code, but for triples. -/
theorem counter_take_of_sized (hr : r.Loaded) (hstart : input.head? = some counterStart) {v : Value}
    (hv : counter r input = .ok v) {n : Nat} (hn : v.sizingLength? = some n) (hnk : n ≤ k) (hk : k < v.length) :
    counter r (input.take k) = .error (.shortage k (v.length - k)) := by
  obtain ⟨h, hc⟩ := exists_counterSteps hr hstart hv
  obtain ⟨hname, hcsk⟩ : h.descriptor.name ≠ some sealTriplesName ∧ h.descriptor.cs ≤ k := by
    rw [hc.value_eq] at hn
    simp only [sizingLength?, if_pos hc.isCounter.1, CodeHeader.codeLength] at hn
    split at hn <;> cases hn
    next hname => exact ⟨hname, hnk⟩
  have hhs : h.descriptor.hs ≤ k := Nat.le_trans hc.fits.hs_le_cs hcsk
  have hsame : (input.take k).take k = input.take k := by rw [List.take_take, Nat.min_self]
  have hkl : k ≤ input.length := Nat.le_trans (Nat.le_of_lt hk) hc.length_le
  obtain ⟨-, hsize⟩ := selectorSize_of_take (Nat.le_trans hc.sound.lead_le hhs) hstart hsame hc.size
  have hlength := hc.counted
  unfold counter
  refine bind_of_ok hsize (bind_of_ok (leadingText_of_take hhs hsame hc.selector) (bind_of_ok hc.lookup ?_))
  refine bind_of_ok (leadingText_of_take hcsk hsame hc.code) (bind_of_ok hc.read ?_)
  refine bind_of_ok (a := v.length) ?_ (bind_of_error (ensure_take_of_lt hkl hk))
  unfold counterLength at hlength ⊢
  rw [if_neg hname] at hlength ⊢
  exact hlength

/-- A value with a code has a selector. -/
theorem hs_pos_of_coded (hr : r.Loaded) {v : Value} (hv : coded r input = .ok v) {h : CodeHeader}
    (hh : v.header = .code h) : 0 < h.descriptor.hs := by
  unfold coded at hv
  split at hv
  · next hstart =>
    obtain ⟨c, hc⟩ := exists_counterSteps hr hstart hv
    rw [hc.value_eq] at hh
    cases hh
    exact Nat.lt_of_lt_of_le (by decide) hc.sound.lead_le
  · obtain ⟨p, c, soft, -, hc, -, -, rfl⟩ := canonical_of_primitive hr hv
    cases hh
    exact (hc.facts hr).1.lead_le

theorem sizingLength?_pos {v : Value} (hv : v.Framed input) (hhs : ∀ {h}, v.header = .code h → 0 < h.descriptor.hs)
    {n : Nat} (hn : v.sizingLength? = some n) : 0 < n := by
  unfold sizingLength? at hn
  split at hn
  · cases hn
    decide
  · next h hh =>
    have hpos := hhs hh
    have hcs := hv.code_pos hh
    split at hn <;> split at hn <;> cases hn <;> omega

theorem coded_take_of_sized (hr : r.Loaded) {v : Value} (hv : coded r input = .ok v) {n : Nat}
    (hn : v.sizingLength? = some n) (hnk : n ≤ k) (hk : k < v.length) :
    coded r (input.take k) = .error (.shortage k (v.length - k)) := by
  have hpos := Nat.lt_of_lt_of_le (sizingLength?_pos (framed_coded hr hv).1 (hs_pos_of_coded hr hv) hn) hnk
  unfold coded at hv ⊢
  rw [head?_take_pos hpos]
  split at hv
  · next hstart =>
    rw [if_pos hstart]
    exact counter_take_of_sized hr hstart hv hn hnk hk
  · next hstart =>
    rw [if_neg hstart]
    exact primitive_take_of_sized hr hv hn hnk hk

theorem serialization_take_of_sized {v : Value} (hv : serialization input = .ok v) {n : Nat}
    (hn : v.sizingLength? = some n) (hnk : n ≤ k) (hk : k < v.length) :
    serialization (input.take k) = .error (.shortage k (v.length - k)) := by
  obtain ⟨h, hh, hlen, rfl⟩ := serialization_eq_ok.1 hv
  cases hn
  obtain ⟨-, htake⟩ := VersionHeader.read_of_take hh
  have hread := htake (input.take k) (by rw [List.take_take, Nat.min_eq_left hnk])
  exact bind_of_ok hread (bind_of_error (ensure_take_of_lt (Nat.le_trans (Nat.le_of_lt hk) hlen) hk))

theorem sniff_take_of_sized (hr : r.Loaded) {v : Value} (hv : sniff r input = .ok v) {n : Nat}
    (hn : v.sizingLength? = some n) (hnk : n ≤ k) (hk : k < v.length) :
    sniff r (input.take k) = .error (.shortage k (v.length - k)) := by
  have hframed := (framed_sniff hr hv).1
  cases hfirst : input.head? with
  | none =>
    rw [List.head?_eq_none_iff.1 hfirst] at hv
    cases hv
  | some first =>
    rw [sniff_of_head? hfirst] at hv
    split at hv
    · next hcold =>
      have hpos := Nat.lt_of_lt_of_le (sizingLength?_pos hframed (hs_pos_of_coded hr hv) hn) hnk
      rw [sniff_of_head? ((head?_take_pos hpos).trans hfirst), hcold]
      exact coded_take_of_sized hr hv hn hnk hk
    · next hcold =>
      obtain ⟨h, -, -, rfl⟩ := serialization_eq_ok.1 hv
      have hpos := Nat.lt_of_lt_of_le (sizingLength?_pos hframed (fun hh => by cases hh) hn) hnk
      rw [sniff_of_head? ((head?_take_pos hpos).trans hfirst), hcold]
      exact serialization_take_of_sized hv hn hnk hk
    · cases hv

theorem take_take_append (h : k ≤ input.length) (rest : Bytes) : (input.take k ++ rest).take k = input.take k :=
  List.take_left' (by rw [List.length_take, Nat.min_eq_left h])

end Value
end Quadlet
