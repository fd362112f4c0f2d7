import Quadlet.Proofs.Encoding
import Quadlet.Proofs.Framing
/-!
# Texts of the alphabet — which characters a primitive is written in

The selector of a primitive stands in a table, its body is base64, and digits that are a number are read in base64 too:
all of these are characters of the URL-safe alphabet.  The digits of a code of fixed size are no number.  Of them only
ASCII is asked.
-/
namespace Quadlet

open Base64 (Alphabet)

/-! ## Texts of the alphabet -/

/-- Every byte is one of `A-Z a-z 0-9 - _`. -/
def IsUrlText (text : Bytes) : Prop := ∀ c ∈ text, c ∈ Alphabet.url.chars

instance decidableIsUrlText (text : Bytes) : Decidable (IsUrlText text) :=
  inferInstanceAs (Decidable (∀ c ∈ text, c ∈ Alphabet.url.chars))

theorem isUrlText_append {text rest : Bytes} (h : IsUrlText text) (hrest : IsUrlText rest) :
    IsUrlText (text ++ rest) := fun c hc => (List.mem_append.1 hc).elim (h c) (hrest c)

theorem isUrlText_map_char (vs : List Nat) : IsUrlText (vs.map Alphabet.url.char) := fun c hc => by
  obtain ⟨v, -, rfl⟩ := List.mem_map.1 hc
  exact Alphabet.url.char_mem v

theorem isUrlText_bodyText (cs ls : Nat) (raw : Bytes) : IsUrlText (bodyText cs ls raw) := fun c hc => by
  have hmem := List.mem_of_mem_drop hc
  rw [Base64.encode_eq_map_sextets] at hmem
  exact isUrlText_map_char _ c hmem

/-- A number is read from characters of the alphabet only. -/
theorem isUrlText_of_read {digits : Bytes} {n : Nat} (h : Numeral.read digits = .ok n) : IsUrlText digits := by
  unfold Numeral.read at h
  split at h
  · cases h
  · obtain ⟨vs, hvs, -⟩ := map_eq_ok.1 h
    rw [(Alphabet.url.values_eq_ok hvs).1]
    exact isUrlText_map_char vs

theorem isUrlText_of_readDigits {digits : Bytes} {n : Nat} (h : readDigits digits = .ok n) : IsUrlText digits :=
  isUrlText_of_read (mapError_eq_ok.1 h)

/-- The header of a size or of an index reads all the digits. -/
theorem CodeHeader.isUrlText_of_ofDigits {d : Descriptor} (hk : d.kind = .variableSize ∨ d.kind = .indexer)
    {digits : Bytes} {h : CodeHeader} (hh : ofDigits d digits = .ok h) : IsUrlText digits := by
  rcases hk with hk | hk
  · simp only [ofDigits, hk] at hh
    obtain ⟨size, hsize, -⟩ := bind_eq_ok.1 hh
    exact isUrlText_of_readDigits hsize
  · simp only [ofDigits, hk] at hh
    split at hh
    · obtain ⟨index, hindex, hh⟩ := bind_eq_ok.1 hh
      obtain ⟨ondex, hondex, -⟩ := bind_eq_ok.1 hh
      rw [← List.take_append_drop d.os digits]
      exact isUrlText_append (isUrlText_of_readDigits hindex) (isUrlText_of_readDigits hondex)
    · obtain ⟨index, hindex, -⟩ := bind_eq_ok.1 hh
      exact isUrlText_of_readDigits hindex

/-! ## Primitives -/

namespace Descriptor.IsPrimitive

variable {d : Descriptor}

theorem fs_eq_none (h : d.IsPrimitive) (hk : d.kind = .variableSize) : d.fs = none := by
  rcases h with ⟨-, hfs⟩ | ⟨hk' | hk', -⟩
  · exact hfs
  · rw [hk'] at hk
    cases hk
  · rw [hk'] at hk
    cases hk

/-- The digits of all but the codes of fixed size are a number. -/
theorem kind_of_ne (h : d.IsPrimitive) (hk : d.kind ≠ .fixedSize) : d.kind = .variableSize ∨ d.kind = .indexer :=
  h.imp And.left (fun h => h.1.resolve_left hk)

end Descriptor.IsPrimitive

/-- **What the characters of a primitive under `d` are**: selector and body are of the alphabet, the digits are ASCII,
and of the alphabet as well where they are a `number`. -/
structure Spelled (d : Descriptor) (number : Prop) (text : Bytes) : Prop where
  selector : IsUrlText (text.take d.hs)
  ascii_digits : Bytes.isAscii (text.slice d.hs d.cs) = true
  digits : number → IsUrlText (text.slice d.hs d.cs)
  body : IsUrlText (text.drop d.cs)

/-- The parts of a text of `d`. -/
theorem Descriptor.parts_text {d : Descriptor} {lead : Nat} (hd : d.Sound lead) (hfits : d.Fits) {soft : Bytes}
    (hsoft : soft.length = d.ss) (raw : Bytes) :
    (d.text soft raw).take d.hs = d.selector ∧ (d.text soft raw).slice d.hs d.cs = soft ∧
      (d.text soft raw).drop d.cs = bodyText d.cs d.ls raw := by
  have hcode : (d.selector ++ soft).length = d.cs := by
    rw [List.length_append, hd.length_selector, hsoft, hfits.cs_eq]
  refine ⟨?_, ?_, List.drop_left' hcode⟩
  · rw [text, List.append_assoc, List.take_left' hd.length_selector]
  · rw [Bytes.slice, text, List.take_left' hcode, List.drop_left' hd.length_selector]

namespace Primitive

variable {r : Registry} {input : Bytes} {p : Primitive}

theorem Canonical.isPrimitive (hr : r.Loaded) {d : Descriptor} {soft : Bytes} (hc : Canonical r d soft p) :
    d.IsPrimitive := by
  obtain ⟨k, hk⟩ := KeyMap.mem_values.1 hc.mem
  exact hr.primitives.property hk

/-- A selector of the alphabet makes the text one, but for digits that are no number. -/
theorem Canonical.spelled (hr : r.Loaded) {d : Descriptor} {soft : Bytes} (hc : Canonical r d soft p)
    (hselector : IsUrlText d.selector) {number : Prop} (hsoft : number → IsUrlText soft) :
    Spelled d number (d.text soft p.raw) := by
  obtain ⟨hselector', hsoft', hbody'⟩ := d.parts_text (hc.facts hr).1 hc.fits hc.length_soft p.raw
  exact {
    selector := by rw [hselector']; exact hselector
    ascii_digits := by rw [hsoft']; exact hc.ascii_soft
    digits := by rw [hsoft']; exact hsoft
    body := by rw [hbody']; exact isUrlText_bodyText _ _ _ }

end Primitive

/-! ## The KERI v1 tables -/

theorem isUrlText_selector (view : View) :
    ∀ d ∈ (Registry.keriV1.withView view).primitives.codes.values, IsUrlText d.selector := by
  cases view <;> decide +kernel

/-- **A primitive of the KERI v1 tables is text of the alphabet, but for the digits of a code of fixed size**: those are
ASCII.  The digits that size a body are a number for every reader, and an index is one for the reader of values. -/
theorem spelled_of_read (view : View) (input : Bytes) :
    (∀ p, Primitive.extract (Registry.keriV1.withView view) input = .ok p →
      ∃ d, (Registry.keriV1.withView view).lookup p.selector = .ok d ∧
        Spelled d (d.kind = .variableSize) (input.take p.totalLength)) ∧
    ∀ v, input.head? ≠ some counterStart → Value.coded (Registry.keriV1.withView view) input = .ok v →
      ∃ h, v.header = .code h ∧ Spelled h.descriptor (h.descriptor.kind ≠ .fixedSize) (input.take v.length) := by
  have hr := Registry.loaded_keriV1.withView view
  constructor
  · intro p hp
    obtain ⟨d, soft, hc, htext⟩ := Primitive.canonical_of_extract hr hp (Primitive.fitsAt_inView hp)
    rw [htext, hc.selector_eq]
    refine ⟨d, (hc.facts hr).2.1, hc.spelled hr (isUrlText_selector view d hc.mem) (fun hk => ?_)⟩
    -- a code of variable size has no full size, so its digits were read for the length
    rcases hc.extent with hfs | ⟨-, quadlets, hread, -⟩
    · rw [(hc.isPrimitive hr).fs_eq_none hk] at hfs
      cases hfs
    · exact isUrlText_of_read hread
  · intro v hstart hv
    rw [Value.coded, if_neg hstart] at hv
    obtain ⟨p, h, soft, -, hc, htext, hh, rfl⟩ := Value.canonical_of_primitive hr hv
    refine ⟨h, rfl, ?_⟩
    rw [htext]
    refine hc.spelled hr (isUrlText_selector view h.descriptor hc.mem) (fun hk => ?_)
    exact CodeHeader.isUrlText_of_ofDigits ((hc.isPrimitive hr).kind_of_ne hk) hh

/-- A signature of zero bytes, with index 1. -/
def secondSignature : Bytes := Bytes.ofString "AB" ++ List.replicate 86 'A'.toUInt8

theorem spelled_of_read_signature :
    ∃ p d v h, Primitive.extract (Registry.keriV1.withView .indexer) secondSignature = .ok p ∧
      Spelled d (d.kind = .variableSize) (secondSignature.take p.totalLength) ∧
      Value.coded (Registry.keriV1.withView .indexer) secondSignature = .ok v ∧ v.header = .code h ∧
      Spelled h.descriptor (h.descriptor.kind ≠ .fixedSize) (secondSignature.take v.length) := by
  have hread : (Primitive.extract (Registry.keriV1.withView .indexer) secondSignature).toOption.isSome ∧
      (Value.coded (Registry.keriV1.withView .indexer) secondSignature).toOption.isSome := by decide +kernel
  obtain ⟨p, hp⟩ := Option.isSome_iff_exists.1 hread.1
  obtain ⟨v, hv⟩ := Option.isSome_iff_exists.1 hread.2
  obtain ⟨hprimitive, hvalue⟩ := spelled_of_read .indexer secondSignature
  obtain ⟨d, -, hd⟩ := hprimitive p (eq_ok_of_toOption hp)
  obtain ⟨h, hh, hspelled⟩ := hvalue v (by decide) (eq_ok_of_toOption hv)
  exact ⟨p, d, v, h, eq_ok_of_toOption hp, hd, eq_ok_of_toOption hv, hh, hspelled⟩

/-- A tag whose digits are not of the alphabet is a primitive and a value. -/
theorem not_isUrlText_tag :
    (∃ p, Primitive.extract (Registry.keriV1.withView .matter) (Bytes.ofString "X!!!") = .ok p ∧
      ¬IsUrlText ((Bytes.ofString "X!!!").take p.totalLength)) ∧
    ∃ v, Value.coded (Registry.keriV1.withView .matter) (Bytes.ofString "X!!!") = .ok v ∧
      ¬IsUrlText ((Bytes.ofString "X!!!").take v.length) := by
  have hread : (Primitive.extract (Registry.keriV1.withView .matter) (Bytes.ofString "X!!!")).toOption.map
        Primitive.totalLength = some 4 ∧
      (Value.coded (Registry.keriV1.withView .matter) (Bytes.ofString "X!!!")).toOption.map Value.length = some 4 := by
    decide +kernel
  obtain ⟨p, hp, hptotal⟩ := exists_of_toOption_map hread.1
  obtain ⟨v, hv, hvlength⟩ := exists_of_toOption_map hread.2
  refine ⟨⟨p, hp, ?_⟩, v, hv, ?_⟩
  · rw [hptotal]
    decide
  · rw [hvlength]
    decide

end Quadlet
