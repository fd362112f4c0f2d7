import Quadlet.Proofs.Numeral
import Quadlet.Proofs.Session.Step
/-!
# Items — streams as they are built

Over the KERI v1 tables a stream is built of items: primitives and other values that stand alone, groups of so many
items behind their counter, frames of so many quadlets behind theirs, and JSON bodies at the top.  `Items.text` is what
is sent, `Items.values` what should be read again, and `Items.Built` the rules; they speak of counts and lengths only,
and know nothing of stacks.
-/
namespace Quadlet

/-! ## Counters -/

/-- A counter of groups. -/
structure GroupCode where
  selector : String
  name : String
  multiplier : Multiplier
  /-- The multiplier as the table spells it. -/
  spelling : String
  /-- The view that the members are read in, if the counter names one. -/
  view : Option View
deriving DecidableEq

/-- All of them but the one whose extent is that of its contents. -/
def groupCodes : List GroupCode :=
  [⟨"-A", "ControllerIdxSigs", .once, "x1", some .indexer⟩,
   ⟨"-B", "WitnessIdxSigs", .once, "x1", some .indexer⟩,
   ⟨"-C", "NonTransReceiptCouples", .twice, "x2", none⟩,
   ⟨"-D", "TransReceiptQuadruples", .fourfold, "x4", none⟩,
   ⟨"-E", "FirstSeenReplayCouples", .twice, "x2", none⟩,
   ⟨"-F", "TransIdxSigGroups", .fourfold, "x4", none⟩,
   ⟨"-G", "SealSourceCouples", .twice, "x2", none⟩,
   ⟨"-H", "TransLastIdxSigGroups", .twice, "x2", none⟩,
   ⟨"-J", "SadPathSig", .twice, "x2", none⟩,
   ⟨"-K", "SadPathSigGroup", .twicePlusOne, "x2+1", none⟩]

/-- The entry that the table has for a counter of groups. -/
def GroupCode.descriptor (c : GroupCode) : Descriptor :=
  { (KeriV1.count 2 2 4).primitive (Bytes.ofString c.selector) (some c.name) .counter with
    multiplier := some c.spelling
    context := c.view.map View.name }

/-- The entry of the one counter of frames. -/
def frameDescriptor : Descriptor :=
  { (KeriV1.count 2 2 4).primitive (Bytes.ofString "-L") (some "PathedMaterialQuadlets") .counter with frame := true }

theorem find?_groupCode :
    ∀ c ∈ groupCodes, KeriV1.tables.counter.codes.find? c.descriptor.selector = some c.descriptor := by decide +kernel

theorem find?_frame :
    KeriV1.tables.counter.codes.find? frameDescriptor.selector = some frameDescriptor := by decide +kernel

def GroupCode.header (c : GroupCode) (n : Nat) (digits : Bytes) : CodeHeader :=
  { descriptor := c.descriptor, digits, count := some (c.multiplier.apply n) }

def frameHeader (quadlets : Nat) (digits : Bytes) : CodeHeader :=
  { descriptor := frameDescriptor, digits, quadlets := some quadlets, count := some quadlets }

/-! ## Items -/

inductive Items where
  | nil
  /-- A text that is one value, and no frame or group. -/
  | leaf (text : Bytes) (value : Value) (rest : Items)
  | group (code : GroupCode) (n : Nat) (digits : Bytes) (members rest : Items)
  | frame (quadlets : Nat) (digits : Bytes) (body rest : Items)
  | json (text : Bytes) (header : VersionHeader) (rest : Items)

/-- Where nothing says what comes next, a text is known by its first character: a dash or a decimal digit. -/
def StartsCold (text : Bytes) : Prop :=
  ∃ c, text.head? = some c ∧ (c = counterStart ∨ ('0'.toUInt8 ≤ c ∧ c ≤ '9'.toUInt8))

namespace Items

def size : Items → Nat
  | nil => 0
  | leaf _ _ rest => rest.size + 1
  | group _ _ _ _ rest => rest.size + 1
  | frame _ _ _ rest => rest.size + 1
  | json _ _ rest => rest.size + 1

def text : Items → Bytes
  | nil => []
  | leaf t _ rest => t ++ rest.text
  | group c _ digits members rest => c.descriptor.selector ++ digits ++ members.text ++ rest.text
  | frame _ digits body rest => frameDescriptor.selector ++ digits ++ body.text ++ rest.text
  | json t _ rest => t ++ rest.text

/-- The values, each before those in it, with their kinds and spans. -/
def values (start : Nat) : Items → List (ValueKind × Value)
  | nil => []
  | leaf t v rest => (.leaf, v.shift start) :: rest.values (start + t.length)
  | group c n digits members rest =>
    (.group, ⟨.code (c.header n digits), start, 4⟩) ::
      (members.values (start + 4) ++ rest.values (start + 4 + members.text.length))
  | frame quadlets digits body rest =>
    (.frame, ⟨.code (frameHeader quadlets digits), start, 4 + 4 * quadlets⟩) ::
      (body.values (start + 4) ++ rest.values (start + 4 + body.text.length))
  | json t h rest => (.serialization, ⟨.version h, start, t.length⟩) :: rest.values (start + t.length)

/-- **How items are built** for a view, at the top or not.  A leaf is a text that is read as one value of its length; a
group has as many members as its number counts, built for the view that its counter names; the body of a frame has as
many quadlets as its number says; a JSON body has the length that its version string says. -/
def Built : (view : View) → (top : Bool) → Items → Prop
  | _, _, nil => True
  | view, top, leaf t v rest =>
    (Value.coded (inView view) t = .ok v ∧ v.length = t.length ∧ v.kind = .leaf ∧ (top = true → StartsCold t)) ∧
      Built view top rest
  | view, top, group c n digits members rest =>
    (c ∈ groupCodes ∧ Numeral.write n 2 = .ok digits ∧ members.size = c.multiplier.apply n ∧
      Built (c.view.getD view) false members) ∧ Built view top rest
  | view, top, frame quadlets digits body rest =>
    (Numeral.write quadlets 2 = .ok digits ∧ body.text.length = 4 * quadlets ∧ Built view false body) ∧
      Built view top rest
  | view, top, json t h rest =>
    (top = true ∧ VersionHeader.read t = .ok h ∧ h.size = t.length) ∧ Built view top rest

end Items

/-! ## First characters -/

theorem StartsCold.countText {t : Bytes} (h : StartsCold t) :
    ∃ c, t.head? = some c ∧ ColdStart.ofByte c = .countText := by
  obtain ⟨c, hc, hcold⟩ := h
  have hbits : c.toNat / 32 = 1 := by
    rcases hcold with rfl | ⟨hlow, hhigh⟩
    · decide
    · have hlow : 48 ≤ c.toNat := hlow
      have hhigh : c.toNat ≤ 57 := hhigh
      omega
  exact ⟨c, hc, by simp only [ColdStart.ofByte, hbits]⟩

theorem startsCold_of_counter {t : Bytes} (h : t.head? = some counterStart) : StartsCold t := ⟨_, h, .inl rfl⟩

/-! ## Heads -/

/-- The code of a group is read by itself. -/
theorem GroupCode.coded (view : View) {c : GroupCode} (hc : c ∈ groupCodes) {n : Nat} {digits : Bytes}
    (hwrite : Numeral.write n 2 = .ok digits) :
    Value.coded (inView view) (c.descriptor.selector ++ digits) = .ok ⟨.code (c.header n digits), 0, 4⟩ := by
  have hnames : ∀ c ∈ groupCodes, c.descriptor.name ≠ some Value.sealTriplesName ∧
      Multiplier.ofString? c.spelling = some c.multiplier ∧ c.descriptor.Fits := by decide
  obtain ⟨hname, hspelling, hfits⟩ := hnames c hc
  have hheader : CodeHeader.ofDigits c.descriptor digits = .ok (c.header n digits) :=
    (CodeHeader.ofDigits_counter rfl).2 ⟨n, by rw [readDigits, Numeral.read_of_write hwrite (by decide)]; rfl,
      .inr ⟨c.spelling, c.multiplier, rfl, hspelling, rfl⟩⟩
  have hcoded : Value.coded (inView view) (c.descriptor.selector ++ digits ++ []) =
      .ok ⟨.code (c.header n digits), 0, 4⟩ :=
    Value.counter_of_text (loaded_inView view) (find?_groupCode c hc) hfits hname (Numeral.write_eq_ok hwrite).2.2
      (Numeral.isAscii_of_write hwrite) hheader rfl rfl
  rw [List.append_nil] at hcoded
  exact hcoded

/-- A frame is read with its body. -/
theorem coded_frame (view : View) {quadlets : Nat} {digits body : Bytes}
    (hwrite : Numeral.write quadlets 2 = .ok digits) (hbody : body.length = 4 * quadlets) :
    Value.coded (inView view) (frameDescriptor.selector ++ digits ++ body) =
      .ok ⟨.code (frameHeader quadlets digits), 0, 4 + 4 * quadlets⟩ := by
  have hheader : CodeHeader.ofDigits frameDescriptor digits = .ok (frameHeader quadlets digits) :=
    (CodeHeader.ofDigits_counter rfl).2 ⟨quadlets,
      by rw [readDigits, Numeral.read_of_write hwrite (by decide)]; rfl, .inl ⟨rfl, rfl⟩⟩
  exact Value.counter_of_text (loaded_inView view) find?_frame (by decide) (by decide)
    (Numeral.write_eq_ok hwrite).2.2
    (Numeral.isAscii_of_write hwrite) hheader rfl (by rw [hbody]; rfl)

end Quadlet
