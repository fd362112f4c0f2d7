import Quadlet.Proofs.Framing
import Quadlet.Proofs.UrlText
/-!
# Checked reading — slices and differences that can fail

`List.take` and `List.drop` cut what is there, and a difference of natural numbers stops at zero, so a reader shows
nothing of a slice that is out of bounds, but for those that codes can put out of order (`part`).  Here the readers are
written once more, with every slice and every difference as a step that fails where it is not defined.  A step that is
defined has an outcome and nothing else (`of`), and a reader whose steps all are is checked from its first step to its
last (`of_bind`).
-/
namespace Quadlet

/-- A step that is not defined: a slice that is not in order, not in its text or not between two characters of it, or a
difference below zero. -/
inductive Checked.Fault where
  | slice (start stop length : Nat)
  | difference (a b : Nat)
deriving DecidableEq, Repr

/-- The outcome of a reader all of whose steps were defined, or the first that was not. -/
abbrev Checked (α : Type) := ExceptT DecodeError (Except Checked.Fault) α

namespace Checked

variable {α β : Type}

/-! ## Steps -/

/-- An outcome that no step stands behind. -/
def of (x : Except DecodeError α) : Checked α := ExceptT.mk (.ok x)

def fault (f : Fault) : Checked α := ExceptT.mk (.error f)

def mapError (f : DecodeError → DecodeError) (x : Checked α) : Checked α := ExceptT.mk (x.run.map (Except.mapError f))

def difference (a b : Nat) : Checked Nat := if b ≤ a then pure (a - b) else fault (.difference a b)

/-- The octets at offsets `start ≤ i < stop`. -/
def slice (b : Bytes) (start stop : Nat) : Checked Bytes :=
  if start ≤ stop ∧ stop ≤ b.length then pure (b.slice start stop) else fault (.slice start stop b.length)

/-- A character of the text starts at the offset, or the text is over. -/
def isBoundary (text : Bytes) (i : Nat) : Bool :=
  match text[i]? with
  | none => true
  | some c => c < 0x80 || 0xc0 ≤ c

/-- A slice of a text. -/
def textSlice (text : Bytes) (start stop : Nat) : Checked Bytes :=
  if isBoundary text start && isBoundary text stop then slice text start stop
  else fault (.slice start stop text.length)

def shortageOf (available want : Nat) : Checked α := do
  let need ← difference want available
  of (.error (.shortage available need))

def ensure (input : Bytes) (want : Nat) : Checked Unit :=
  if input.length < want then shortageOf input.length want else pure ()

def codeText (input : Bytes) (n : Nat) : Checked Bytes := do
  ensure input n
  let text ← slice input 0 n
  if Bytes.isAscii text then pure text else of (.error (.unexpectedCode text))

/-! ## Selectors -/

/-- Refuses an input for its first character. -/
def unexpected (cause : Bytes → DecodeError) (input : Bytes) : Checked α := do
  let start ← slice input 0 1
  of (.error (cause start))

/-- The hard size of a counter with two characters at least. -/
def leadSize (r : Registry) (input : Bytes) : Checked Nat := do
  let lead ← slice input 0 2
  match r.counterHardSize lead with
  | some hs => pure hs
  | none => of (.error (.unknownCode .counterHardSize lead))

def selectorSize (r : Registry) (candidate : Bytes) : Checked Nat :=
  match candidate.head? with
  | none => of (.error (.shortage 0 1))
  | some first =>
    if first = counterStart then
      if candidate.length < 2 then shortageOf candidate.length 2 else leadSize r candidate
    else if first = opStart then unexpected .unexpectedOpCode candidate
    else
      match r.primitiveHardSize first with
      | some hs => pure hs
      | none => unexpected .unexpectedCode candidate

/-! ## Primitives -/

def primitiveHardSize (r : Registry) (input : Bytes) : Checked Nat :=
  if input.head? = some counterStart then unexpected .unexpectedCountCode input else selectorSize r input

/-- The expected number of raw bytes stops at zero, as the reader itself has it. -/
def decodeBody (d : Descriptor) (code body : Bytes) : Checked Bytes := do
  let padBytes := code.length % 4
  let octets ← of ((Base64.decode .url (List.replicate padBytes (Base64.Alphabet.url.char 0) ++ body)).mapError .text)
  let zeros := wrap (padBytes + d.ls)
  if octets.length < zeros then of (.error (.conversion code zeros octets.length))
  else do
    let pad ← slice octets 0 padBytes
    if pad.any (· != 0) then of (.error (.nonZeroPadBits code))
    else do
      let lead ← slice octets padBytes zeros
      if lead.any (· != 0) then of (.error (.nonZeroLeadBytes code))
      else do
        let raw ← slice octets zeros octets.length
        let expected := body.length * 3 / 4 - d.ls
        if raw.length ≠ expected then of (.error (.conversion code expected raw.length)) else pure raw

def ensureFull (d : Descriptor) (input : Bytes) : Checked Unit :=
  match d.fs with
  | some fs => ensure input fs
  | none => pure ()

/-- The digits are cut out only where they count the characters. -/
def extent (d : Descriptor) (input : Bytes) (hs : Nat) : Checked Nat :=
  match d.fs with
  | some fs => pure fs
  | none => do
    let digits ← slice input hs d.cs
    let quadlets ← of (readDigits digits)
    pure (quadlets * 4 + d.cs)

def primitive (r : Registry) (input : Bytes) : Checked Primitive := do
  let hs ← primitiveHardSize r input
  let selector ← codeText input hs
  let d ← of (r.lookup selector)
  ensureFull d input
  let code ← codeText input d.cs
  let totalLength ← extent d input hs
  ensure input totalLength
  let body ← slice input d.cs totalLength
  let raw ← decodeBody d code body
  pure { selector, code, totalLength, raw }

def encode (r : Registry) (raw code : Bytes) : Checked Bytes := do
  let d ← of (r.lookup code)
  match d.kind, d.ss, d.fs with
  | .fixedSize, 0, some fs => do
    let room ← difference fs d.cs
    let expected := wrap (room * 3) / 4 - d.ls
    if raw.length ≠ expected then of (.error (.conversion code expected raw.length))
    else do
      let missing ← difference 3 ((raw.length + d.ls) % 3)
      let padBytes := missing % 3
      if d.cs % 4 ≠ padBytes then of (.error (.argument (.misaligned code d.cs padBytes)))
      else do
        let text := Base64.encode .url (List.replicate (padBytes + d.ls) 0 ++ raw)
        let body ← textSlice text padBytes text.length
        pure (code ++ body)
  | _, _, _ => of (.error (.argument (.notFixedSize code)))

/-! ## Counters and triples -/

def counterHardSize (r : Registry) (input : Bytes) : Checked Nat :=
  match input.head? with
  | none => of (.error (.shortage 0 1))
  | some first =>
    if first = counterStart then do
      ensure input 2
      leadSize r input
    else if first = opStart then unexpected .unexpectedOpCode input
    else unexpected .unexpectedCode input

def counter (r : Registry) (input : Bytes) : Checked Counter := do
  let hs ← counterHardSize r input
  let selector ← codeText input hs
  let descriptor ← of (r.lookup selector)
  let code ← codeText input descriptor.cs
  let digits ← slice input hs descriptor.cs
  let count ← of (readDigits digits)
  pure { selector, code, count, descriptor }

/-- The primitive at the offset, and the offset behind it. -/
def next (r : Registry) (input : Bytes) (offset : Nat) : Checked (Primitive × Nat) := do
  let rest ← slice input offset input.length
  let p ← primitive r rest
  pure (p, offset + p.totalLength)

/-- The triples from the offset on, and the offset behind them. -/
def triples (r : Registry) (input : Bytes) : (n : Nat) → (offset : Nat) → Checked (List SealTriple × Nat)
  | 0, offset => pure ([], offset)
  | n + 1, offset => do
    let (identifier, offset) ← next r input offset
    let (sequence, offset) ← next r input offset
    let (digest, offset) ← next r input offset
    let (rest, offset) ← triples r input n offset
    pure (⟨identifier, sequence, digest⟩ :: rest, offset)

def sealTriples (r : Registry) (input : Bytes) : Checked SealTriples := do
  let counter ← counter r input
  let (triples, length) ← triples r input counter.count counter.codeLength
  pure { counter, triples, length }

/-! ## Headers and values -/

/-- Only an indexer's digits are cut any further. -/
def header (d : Descriptor) (text : Bytes) : Checked CodeHeader :=
  if !Bytes.isAscii text then of (.error (.unexpectedCode text))
  else if text.length < d.cs then shortageOf text.length d.cs
  else do
    let digits ← textSlice text d.hs d.cs
    if d.kind = .indexer ∧ 0 < d.os ∧ d.os ≤ digits.length then do
      let first ← textSlice digits 0 d.os
      let index ← of (readDigits first)
      let second ← textSlice digits d.os digits.length
      let ondex ← of (readDigits second)
      pure { descriptor := d, digits, leadBytes := some d.ls, index := some index, ondex := some ondex }
    else of (CodeHeader.ofDigits d digits)

def leadingText (input : Bytes) (n : Nat) : Checked Bytes := do
  ensure input n
  let text ← slice input 0 n
  if Utf8.isValid text then pure text else of (.error (.unexpectedCode text))

/-- A shortage is one of the whole input. -/
def inWhole (input : Bytes) : DecodeError → DecodeError
  | .shortage _ need => .shortage input.length need
  | e => e

def counterLength (r : Registry) (input : Bytes) (h : CodeHeader) : Checked Nat :=
  if h.descriptor.name = some Value.sealTriplesName then do
    let triples ← mapError (inWhole input) (sealTriples r input)
    pure triples.length
  else of h.totalLength

def value (r : Registry) (input : Bytes) : Checked Value :=
  if input.head? = some counterStart then do
    let hs ← selectorSize r input
    let selector ← leadingText input hs
    let d ← of (r.lookup selector)
    let text ← leadingText input d.cs
    let h ← header d text
    let length ← counterLength r input h
    ensure input length
    pure ⟨.code h, 0, length⟩
  else do
    let p ← primitive r input
    let d ← of (r.lookup p.selector)
    let h ← header d p.code
    pure ⟨.code h, 0, p.totalLength⟩

/-! ## Steps that are defined -/

section Steps

variable {x : Except DecodeError α} {f : α → Except DecodeError β} {g : α → Checked β} {input b text : Bytes}

theorem pure_eq_of (a : α) : (pure a : Checked α) = of (.ok a) := rfl

/-- What is checked step by step: each step, and what follows it if it has an outcome. -/
theorem of_bind (h : ∀ a, x = .ok a → g a = of (f a)) : of x >>= g = of (x >>= f) := by
  cases x with
  | error e => rfl
  | ok a => exact h a rfl

theorem of_bind_of : of (x >>= f) = of x >>= fun a => of (f a) := (of_bind (fun _ _ => rfl)).symm

theorem of_bind_congr {g' : α → Checked β} (h : ∀ a, x = .ok a → g a = g' a) : of x >>= g = of x >>= g' := by
  cases x with
  | error e => rfl
  | ok a => exact h a rfl

theorem difference_eq {m n : Nat} (h : n ≤ m) : difference m n = pure (m - n) := by rw [difference, if_pos h]

theorem slice_eq {start stop : Nat} (h : start ≤ stop) (hstop : stop ≤ b.length) :
    slice b start stop = pure (b.slice start stop) := by rw [slice, if_pos ⟨h, hstop⟩]

theorem slice_eq_part {start stop : Nat} (h : start ≤ stop) (hstop : stop ≤ b.length) :
    slice b start stop = of (part b start stop) := by rw [slice_eq h hstop, part, if_pos ⟨h, hstop⟩]; rfl

theorem slice_front {n : Nat} (h : n ≤ b.length) : slice b 0 n = pure (b.take n) := by
  rw [slice_eq (Nat.zero_le n) h, Bytes.slice, List.drop_zero]

theorem slice_back {n : Nat} (h : n ≤ b.length) : slice b n b.length = pure (b.drop n) := by
  rw [slice_eq h (Nat.le_refl _), Bytes.slice, List.take_length]

theorem isBoundary_of_isAscii (h : Bytes.isAscii text = true) (i : Nat) : isBoundary text i = true := by
  unfold isBoundary
  split
  · rfl
  · next c hc =>
    rw [Bool.or_eq_true]
    exact .inl (List.all_eq_true.1 h c (List.mem_of_getElem? hc))

/-- An ASCII text can be cut anywhere. -/
theorem textSlice_eq (h : Bytes.isAscii text = true) {start stop : Nat} :
    textSlice text start stop = slice text start stop := by
  rw [textSlice, isBoundary_of_isAscii h, isBoundary_of_isAscii h]
  rfl

theorem shortageOf_eq {available want : Nat} (h : available ≤ want) :
    (shortageOf available want : Checked α) = of (.error (.shortageOf available want)) := by
  rw [shortageOf, difference_eq h]
  rfl

theorem ensure_eq (input : Bytes) (want : Nat) : ensure input want = of (Quadlet.ensure input want) := by
  unfold ensure Quadlet.ensure
  split
  · next hlt => exact shortageOf_eq (Nat.le_of_lt hlt)
  · rfl

theorem codeText_eq (input : Bytes) (n : Nat) : codeText input n = of (Quadlet.codeText input n) := by
  unfold codeText Quadlet.codeText
  rw [ensure_eq]
  refine of_bind (fun _ hn => ?_)
  rw [slice_front (ensure_eq_ok.1 hn), pure_bind]
  split <;> rfl

theorem leadingText_eq (input : Bytes) (n : Nat) : leadingText input n = of (Value.leadingText input n) := by
  unfold leadingText Value.leadingText
  rw [ensure_eq]
  refine of_bind (fun _ hn => ?_)
  rw [slice_front (ensure_eq_ok.1 hn), pure_bind]
  split <;> rfl

theorem unexpected_eq (cause : Bytes → DecodeError) {first : UInt8} (h : input.head? = some first) :
    (unexpected cause input : Checked α) = of (.error (cause [first])) := by
  cases input with
  | nil => cases h
  | cons c rest =>
    cases h
    rw [unexpected, slice_front (by simp), pure_bind, List.take_succ_cons, List.take_zero]

end Steps

end Checked
end Quadlet
