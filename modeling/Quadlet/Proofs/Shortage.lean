import Quadlet.Proofs.Framing
/-!
# Shortage — a value that is cut short says so

A reader asks for the bytes that it needs before it looks at them, and never for more than the value has, unless codes
wrap around among seal source triples.  So where a value stands and only its first bytes are there, reading fails for
want of bytes, of at least one and at most of those that are cut off (`coded_short`, `sniff_short`).  Each step of a
reader sees what it saw in the whole, or fails that way (`lacks_bind`).
-/
namespace Quadlet

/-- Reading fails where `available` bytes are there, for want of some of the `missing` ones. -/
def Lacks {α : Type} (x : Except DecodeError α) (available missing : Nat) : Prop :=
  ∃ need, x = .error (.shortage available need) ∧ 1 ≤ need ∧ need ≤ missing

variable {α β : Type} {x : Except DecodeError α} {f : α → Except DecodeError β} {available missing : Nat}

theorem Lacks.bind (h : Lacks x available missing) : Lacks (x >>= f) available missing := by
  obtain ⟨need, rfl, hneed⟩ := h
  exact ⟨need, rfl, hneed⟩

theorem lacks_bind {a : α} (hx : x = .ok a ∨ Lacks x available missing)
    (hf : x = .ok a → Lacks (f a) available missing) : Lacks (x >>= f) available missing := by
  rcases hx with hx | hx
  · have hrest := hf hx
    rw [hx]
    exact hrest
  · exact hx.bind

theorem Lacks.mono {more : Nat} (h : Lacks x available missing) (hle : missing ≤ more) : Lacks x available more := by
  obtain ⟨need, hx, hpos, hneed⟩ := h
  exact ⟨need, hx, hpos, Nat.le_trans hneed hle⟩

theorem exists_lacks_bind {a : α} (hx : x = .ok a) (hf : ∃ available, Lacks (f a) available missing) :
    ∃ available, Lacks (x >>= f) available missing := by
  obtain ⟨available, hf⟩ := hf
  exact ⟨available, lacks_bind (.inl hx) (fun _ => hf)⟩

variable {r : Registry} {input : Bytes} {k total : Nat}

/-! ## Asking for bytes -/

theorem ensure_take_of_lt {want : Nat} (hk : k ≤ input.length) (hlt : k < want) :
    ensure (input.take k) want = .error (.shortage k (want - k)) := by
  rw [ensure, List.length_take, Nat.min_eq_left hk, if_pos hlt]
  rfl

theorem ensure_short {want : Nat} (hk : k ≤ input.length) (hlt : k < want) :
    Lacks (ensure (input.take k) want) k (want - k) :=
  ⟨want - k, ensure_take_of_lt hk hlt, Nat.sub_pos_of_lt hlt, Nat.le_refl _⟩

/-- A reader that asks for `want` of the `total` bytes has them, or falls short. -/
theorem ensure_take {want : Nat} (hk : k ≤ input.length) (hwant : want ≤ total) :
    ensure (input.take k) want = .ok () ∧ want ≤ k ∨ Lacks (ensure (input.take k) want) k (total - k) := by
  rcases Nat.lt_or_ge k want with hlt | hle
  · exact .inr ((ensure_short hk hlt).mono (Nat.sub_le_sub_right hwant k))
  · exact .inl ⟨ensure_eq_ok.2 (by rwa [List.length_take, Nat.min_eq_left hk]), hle⟩

theorem codeText_take {n : Nat} {text : Bytes} (hk : k ≤ input.length) (hn : n ≤ total)
    (h : codeText input n = .ok text) :
    codeText (input.take k) n = .ok text ∨ Lacks (codeText (input.take k) n) k (total - k) := by
  rcases ensure_take hk hn with ⟨-, hle⟩ | hlacks
  · exact .inl (codeText_of_take hle (by rw [List.take_take, Nat.min_self]) h)
  · exact .inr hlacks.bind

theorem leadingText_take {n : Nat} {text : Bytes} (hk : k ≤ input.length) (hn : n ≤ total)
    (h : Value.leadingText input n = .ok text) :
    Value.leadingText (input.take k) n = .ok text ∨ Lacks (Value.leadingText (input.take k) n) k (total - k) := by
  rcases ensure_take hk hn with ⟨hensure, hle⟩ | hlacks
  · obtain ⟨-, hvalid, htext⟩ := Value.leadingText_eq_ok.1 h
    have hsame : (input.take k).take n = input.take n := by rw [List.take_take, Nat.min_eq_left hle]
    exact .inl (Value.leadingText_eq_ok.2 ⟨ensure_eq_ok.1 hensure, by rw [hsame]; exact hvalid, by rw [hsame, htext]⟩)
  · exact .inr hlacks.bind

theorem head?_take_pos (hk : 0 < k) : (input.take k).head? = input.head? := by
  rw [List.head?_take, if_neg (by omega)]

/-! ## Primitives -/

namespace Primitive

theorem hardSize_take {hs : Nat} (hk : k < total) (h : hardSize r input = .ok hs) :
    hardSize r (input.take k) = .ok hs ∨ Lacks (hardSize r (input.take k)) k (total - k) := by
  rcases Nat.eq_zero_or_pos k with rfl | hpos
  · exact .inr ⟨1, rfl, Nat.le_refl _, by omega⟩
  · obtain ⟨first, hfirst, hrest⟩ := hardSize_eq_ok.1 h
    exact .inl (hardSize_eq_ok.2 ⟨first, (head?_take_pos hpos).trans hfirst, hrest⟩)

/-- **A primitive that is cut short**: the selector, then a full size, then the digits and what they count. -/
theorem extract_short (hr : r.Loaded) {p : Primitive} (h : extract r input = .ok p) (hfits : r.FitsAt p.selector)
    (hk : k < p.totalLength) : Lacks (extract r (input.take k)) k (p.totalLength - k) := by
  obtain ⟨hs, d, hhs, hselector, hd, hfs, hcode, htotal, hlen, -⟩ := extract_eq_ok_iff_steps.1 h
  obtain ⟨soft, hc, -⟩ := canonical_of_lookup hr h hd (hfits hd)
  obtain ⟨hsound, -, -⟩ := hc.facts hr
  obtain ⟨-, hle⟩ := grid_of_extent hsound hc.extent
  have hkl : k ≤ input.length := Nat.le_trans (Nat.le_of_lt hk) hlen
  have hhsle : hs ≤ p.totalLength := hc.hs_eq hr hselector ▸ Nat.le_trans hc.fits.hs_le_cs hle
  have hfsle : d.fs.getD 0 ≤ p.totalLength := by
    rcases hc.extent with hfixed | ⟨hnone, -⟩
    · rw [hfixed]
      exact Nat.le_refl _
    · rw [hnone]
      exact Nat.zero_le _
  unfold extract
  refine lacks_bind (hardSize_take hk hhs) (fun _ => ?_)
  refine lacks_bind (codeText_take hkl hhsle hselector) (fun _ => ?_)
  refine lacks_bind (.inl hd) (fun _ => ?_)
  refine lacks_bind (a := ()) ((ensure_take hkl hfsle).imp_left And.left) (fun _ => ?_)
  refine lacks_bind (codeText_take hkl hle hcode) (fun htext => ?_)
  have hcsk : d.cs ≤ k := by
    have hcs := (codeText_eq_ok.1 htext).1
    rw [List.length_take] at hcs
    exact Nat.le_trans hcs (Nat.min_le_left _ _)
  refine lacks_bind (.inl (extent_of_take hcsk (by rw [List.take_take, Nat.min_self]) htotal)) (fun _ => ?_)
  exact (ensure_short hkl hk).bind

/-- A primitive and what is read behind it: the cut is in the primitive, or behind it. -/
theorem extract_bind_short (hr : r.Loaded) (hfit : r.PrimitivesFit) {p : Primitive} (h : extract r input = .ok p)
    {f : Primitive → Except DecodeError β} (hmissing : p.totalLength - k ≤ missing)
    (hf : p.totalLength ≤ k → ∃ available, Lacks (f p) available missing) :
    ∃ available, Lacks (extract r (input.take k) >>= f) available missing := by
  rcases Nat.lt_or_ge k p.totalLength with hk | hle
  · exact ⟨k, ((extract_short hr h (fitsAt_of_extract hfit h) hk).mono hmissing).bind⟩
  · have htake : (input.take k).take p.totalLength = input.take p.totalLength := by
      rw [List.take_take, Nat.min_eq_left hle]
    exact exists_lacks_bind ((looks_of_fit hr h).of_take hfit htake) (hf hle)

end Primitive

/-! ## Seal source triples -/

namespace SealTriples

/-- Triples that are cut short fall short in the primitive that the cut is in. -/
theorem extractTriples_short (hr : r.Loaded) (hfit : r.PrimitivesFit) :
    ∀ (n : Nat) {input : Bytes} {triples : List SealTriple} {length k : Nat},
      extractTriples r n input = .ok (triples, length) → k < length →
        ∃ available, Lacks (extractTriples r n (input.take k)) available (length - k)
  | 0, _, _, _, _, h, hk => by
    cases h
    cases hk
  | n + 1, input, triples, length, k, h, hk => by
    unfold extractTriples at h
    obtain ⟨identifier, h1, h⟩ := bind_eq_ok.1 h
    obtain ⟨sequence, h2, h⟩ := bind_eq_ok.1 h
    obtain ⟨digest, h3, h⟩ := bind_eq_ok.1 h
    obtain ⟨⟨rest, restLength⟩, h4, h⟩ := bind_eq_ok.1 h
    cases h
    -- the three primitives of the first triple, each from what the cut leaves of the input behind the one before it
    unfold extractTriples
    refine Primitive.extract_bind_short hr hfit h1 (by omega) (fun hle1 => ?_)
    rw [List.drop_take]
    refine Primitive.extract_bind_short hr hfit h2 (by omega) (fun hle2 => ?_)
    rw [List.drop_take]
    refine Primitive.extract_bind_short hr hfit h3 (by omega) (fun hle3 => ?_)
    rw [List.drop_take]
    obtain ⟨available, hlacks⟩ := extractTriples_short hr hfit n h4
      (k := k - identifier.totalLength - sequence.totalLength - digest.totalLength) (by omega)
    exact ⟨available, (hlacks.mono (by omega)).bind⟩

theorem extract_short (hr : r.Loaded) (hfit : r.PrimitivesFit) {t : SealTriples} (h : extract r input = .ok t)
    (hcode : t.counter.codeLength ≤ k) (hk : k < t.length) :
    ∃ available, Lacks (extract r (input.take k)) available (t.length - k) := by
  unfold extract at h
  obtain ⟨counter, hc, h⟩ := bind_eq_ok.1 h
  obtain ⟨⟨triples, length⟩, ht, h⟩ := bind_eq_ok.1 h
  cases h
  have hcode : counter.codeLength ≤ k := hcode
  have hk : k < counter.codeLength + length := hk
  have hcounter := (Counter.extract_of_take hr hc).2 (input.take k) (by rw [List.take_take, Nat.min_eq_left hcode])
  obtain ⟨available, hlacks⟩ := extractTriples_short hr hfit counter.count ht (k := k - counter.codeLength) (by omega)
  rw [← List.drop_take] at hlacks
  refine exists_lacks_bind hcounter ⟨available, Lacks.bind (hlacks.mono ?_)⟩
  show length - (k - counter.codeLength) ≤ counter.codeLength + length - k
  omega

end SealTriples

/-! ## Values -/

namespace Value

theorem primitive_short (hr : r.Loaded) {v : Value} (hv : primitive r input = .ok v) (hk : k < v.length) :
    Lacks (primitive r (input.take k)) k (v.length - k) := by
  obtain ⟨p, h, soft, hp, hc, -, -, rfl⟩ := canonical_of_primitive hr hv
  exact (Primitive.extract_short hr hp (hc.fitsAt hr) hk).bind

/-- The length of triples that are cut short is a shortage of the whole. -/
theorem sealTriplesLength_short (hr : r.Loaded) (hfit : r.PrimitivesFit) (hkl : k ≤ input.length) {t : SealTriples}
    (ht : SealTriples.extract r input = .ok t) (hcode : t.counter.codeLength ≤ k) (hk : k < t.length) :
    Lacks (sealTriplesLength r (input.take k)) k (t.length - k) := by
  obtain ⟨available, need, herror, hpos, hneed⟩ := SealTriples.extract_short hr hfit ht hcode hk
  refine ⟨need, ?_, hpos, hneed⟩
  rw [sealTriplesLength, herror]
  show Except.error (DecodeError.shortage (input.take k).length need) = _
  rw [List.length_take, Nat.min_eq_left hkl]

theorem selectorSize_take (hstart : input.head? = some counterStart) {hs : Nat} (hsize : r.selectorSize input = .ok hs)
    (hpos : 0 < k) (htotal : 2 ≤ total) :
    r.selectorSize (input.take k) = .ok hs ∨ Lacks (r.selectorSize (input.take k)) k (total - k) := by
  rcases Nat.lt_or_ge k 2 with hone | hle
  · -- a lone dash
    obtain rfl : k = 1 := by omega
    obtain ⟨rest, rfl⟩ : ∃ rest, input = counterStart :: rest := by
      cases input with
      | nil => cases hstart
      | cons first rest => exact ⟨rest, by cases hstart; rfl⟩
    exact .inr ⟨1, rfl, Nat.le_refl _, by omega⟩
  · exact .inl (selectorSize_of_take hle hstart (by rw [List.take_take, Nat.min_self]) hsize).2

/-- The length of a counter is known from its code; only triples are read for theirs. -/
theorem counterLength_short (hr : r.Loaded) (hkl : k ≤ input.length) {h : CodeHeader} {hs length : Nat} {d : Descriptor}
    (hfit : h.descriptor.name = some sealTriplesName → r.PrimitivesFit) (hsize : r.selectorSize input = .ok hs)
    (hd : r.lookup (input.take hs) = .ok d) (hcs : d.cs ≤ k)
    (hlength : counterLength r input h = .ok length) (hk : k < length) :
    counterLength r (input.take k) h = .ok length ∨ Lacks (counterLength r (input.take k) h) k (length - k) := by
  unfold counterLength at hlength ⊢
  split at hlength
  · next hname =>
    rw [if_pos hname]
    obtain ⟨t, ht, rfl⟩ := sealTriplesLength_eq_ok.1 hlength
    obtain ⟨hdescriptor, -⟩ := Counter.descriptor_of_extract (SealTriples.extract_eq_ok ht).1 hsize hd
    refine .inr (sealTriplesLength_short hr (hfit hname) hkl ht ?_ hk)
    rw [Counter.codeLength, hdescriptor]
    exact hcs
  · next hname =>
    rw [if_neg hname]
    exact .inl hlength

/-- **A counter that is cut short**: two characters, the selector, the digits and what they count. -/
theorem counter_short (hr : r.Loaded) (hstart : input.head? = some counterStart) {v : Value}
    (hv : counter r input = .ok v) (hfit : v.IsTriples → r.PrimitivesFit) (hpos : 0 < k) (hk : k < v.length) :
    Lacks (counter r (input.take k)) k (v.length - k) := by
  obtain ⟨h, hc⟩ := exists_counterSteps hr hstart hv
  obtain ⟨hcs, -⟩ := hc.looks_counterLength hr hstart
  have htwo := hc.sound.lead_le
  have hhscs := hc.fits.hs_le_cs
  have hheader : v.header = .code h := by rw [hc.value_eq]
  have hkl : k ≤ input.length := Nat.le_trans (Nat.le_of_lt hk) hc.length_le
  unfold counter
  refine lacks_bind (selectorSize_take hstart hc.size hpos (by omega)) (fun _ => ?_)
  refine lacks_bind (leadingText_take hkl (by omega) hc.selector) (fun _ => ?_)
  refine lacks_bind (.inl hc.lookup) (fun _ => ?_)
  refine lacks_bind (leadingText_take hkl hcs hc.code) (fun hcode => ?_)
  refine lacks_bind (.inl hc.read) (fun _ => ?_)
  have hcsk : h.descriptor.cs ≤ k := by
    have hle := (leadingText_eq_ok.1 hcode).1
    rw [List.length_take] at hle
    omega
  have hlength := counterLength_short hr hkl (fun hname => hfit ⟨h, hheader, hc.isCounter.1, hname⟩) hc.size hc.lookup
    hcsk hc.counted hk
  refine lacks_bind hlength (fun _ => ?_)
  exact (ensure_short hkl hk).bind

/-- **A value with a code that is cut short** lacks some of the bytes that are cut off. -/
theorem coded_short (hr : r.Loaded) {v : Value} (hv : coded r input = .ok v)
    (hfit : v.IsTriples → r.PrimitivesFit) (hk : k < v.length) :
    Lacks (coded r (input.take k)) k (v.length - k) := by
  rcases Nat.eq_zero_or_pos k with rfl | hpos
  · exact ⟨1, rfl, Nat.le_refl _, by omega⟩
  unfold coded at hv ⊢
  rw [head?_take_pos hpos]
  split at hv
  · next hstart =>
    rw [if_pos hstart]
    exact counter_short hr hstart hv hfit hpos hk
  · next hstart =>
    rw [if_neg hstart]
    exact primitive_short hr hv hk

/-- **A serialization that is cut short**: the window of its version string, then the length that it declares. -/
theorem serialization_short {v : Value} (hv : serialization input = .ok v) (hk : k < v.length) :
    Lacks (serialization (input.take k)) k (v.length - k) := by
  obtain ⟨h, hh, hlen, rfl⟩ := serialization_eq_ok.1 hv
  obtain ⟨hwindow, htake⟩ := VersionHeader.read_of_take hh
  have hk : k < h.size := hk
  have hkl : k ≤ input.length := Nat.le_trans (Nat.le_of_lt hk) hlen
  have hread : VersionHeader.read (input.take k) = .ok h ∨
      Lacks (VersionHeader.read (input.take k)) k (h.size - k) := by
    rcases Nat.lt_or_ge k VersionHeader.windowSize with hshort | hle
    · refine .inr ⟨VersionHeader.windowSize - k, ?_, by omega, by omega⟩
      have hlength : (input.take k).length = k := by rw [List.length_take, Nat.min_eq_left hkl]
      rw [VersionHeader.read, hlength, if_pos hshort]
      rfl
    · exact .inl (htake _ (by rw [List.take_take, Nat.min_eq_left hle]))
  refine lacks_bind hread (fun _ => ?_)
  exact (ensure_short hkl hk).bind

/-- **What stands at the start of a span of which nothing is known**, cut short, lacks bytes too. -/
theorem sniff_short (hr : r.Loaded) {v : Value} (hv : sniff r input = .ok v)
    (hfit : v.IsTriples → r.PrimitivesFit) (hk : k < v.length) :
    Lacks (sniff r (input.take k)) k (v.length - k) := by
  rcases Nat.eq_zero_or_pos k with rfl | hpos
  · exact ⟨1, rfl, Nat.le_refl _, by omega⟩
  cases hfirst : input.head? with
  | none =>
    rw [List.head?_eq_none_iff.1 hfirst] at hv
    cases hv
  | some first =>
    rw [sniff_of_head? hfirst] at hv
    rw [sniff_of_head? ((head?_take_pos hpos).trans hfirst)]
    split at hv
    · exact coded_short hr hv hfit hk
    · exact serialization_short hv hk
    · cases hv

end Value
end Quadlet
