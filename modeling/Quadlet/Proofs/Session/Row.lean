import Quadlet.Proofs.Session.Building
import Quadlet.Proofs.Session.Spans
import Quadlet.Proofs.Sizing
/-!
# Rows — primitives that are read once more as values

Triples are primitives one behind the other (`Row`), and a session that comes to them later reads each again, as a
value.  A value has a header, which a primitive does not have: an index is a number in it.  Over the KERI v1 tables that
is all that can go wrong (`coded_of_extract`), so a row that a group waits for is read as leaves, up to an index that is
no number if there is one (`pull_row`).
-/
namespace Quadlet

open Base64 (Alphabet)

theorem Bytes.drop_slice (b : Bytes) (start stop k : Nat) : (b.slice start stop).drop k = b.slice (start + k) stop := by
  rw [slice, slice, List.drop_drop]

/-! ## Numbers that are not read -/

/-- An error of `digits`: one of them is not of the alphabet. -/
def BadDigit (digits : Bytes) (e : DecodeError) : Prop :=
  ∃ c i, e = .text (.invalidCharacter c i) ∧ c ∈ digits ∧ c ∉ Alphabet.url.chars

theorem BadDigit.mono {digits more : Bytes} {e : DecodeError} (h : BadDigit digits e) (hsub : digits ⊆ more) :
    BadDigit more e := by
  obtain ⟨c, i, he, hmem, hnot⟩ := h
  exact ⟨c, i, he, hsub hmem, hnot⟩

theorem readDigits_cases {digits : Bytes} (h : digits.length ≤ Numeral.maxWidth) :
    (∃ n, readDigits digits = .ok n) ∨ ∃ e, readDigits digits = .error e ∧ BadDigit digits e := by
  unfold readDigits Numeral.read
  rw [if_neg (Nat.not_lt.2 h)]
  cases hvalues : Alphabet.url.values 0 digits with
  | ok vs => exact .inl ⟨_, rfl⟩
  | error e =>
    obtain ⟨c, i, hc, rfl⟩ := Alphabet.url.values_eq_error.1 hvalues
    exact .inr ⟨_, rfl, c, _, rfl, hc.mem, hc.notMem⟩

/-- A header of an index reads it, unless one of its digits is not of the alphabet. -/
theorem CodeHeader.ofDigits_indexer {d : Descriptor} (hk : d.kind = .indexer) {digits : Bytes}
    (h : digits.length ≤ Numeral.maxWidth) :
    (∃ c, ofDigits d digits = .ok c) ∨ ∃ e, ofDigits d digits = .error e ∧ BadDigit digits e := by
  have hread : ∀ part : Bytes, part.Sublist digits →
      (∃ n, readDigits part = .ok n) ∨ ∃ e, readDigits part = .error e ∧ BadDigit digits e := by
    intro part hpart
    rcases readDigits_cases (Nat.le_trans hpart.length_le h) with hok | ⟨e, he, hbad⟩
    · exact .inl hok
    · exact .inr ⟨e, he, hbad.mono hpart.subset⟩
  simp only [ofDigits, hk]
  split
  · rcases hread _ (List.take_sublist d.os digits) with ⟨index, hindex⟩ | ⟨e, he, hbad⟩
    · rcases hread _ (List.drop_sublist d.os digits) with ⟨ondex, hondex⟩ | ⟨e, he, hbad⟩
      · rw [hindex, hondex]
        exact .inl ⟨_, rfl⟩
      · rw [hindex, he]
        exact .inr ⟨e, rfl, hbad⟩
    · rw [he]
      exact .inr ⟨e, rfl, hbad⟩
  · rcases hread digits (List.Sublist.refl _) with ⟨index, hindex⟩ | ⟨e, he, hbad⟩
    · rw [hindex]
      exact .inl ⟨_, rfl⟩
    · rw [he]
      exact .inr ⟨e, rfl, hbad⟩

/-! ## Primitives as values -/

/-- No index is wider than a number that is read. -/
theorem ss_le_of_indexer (view : View) :
    ∀ d ∈ (inView view).primitives.codes.values, d.kind = .indexer → view = .indexer ∧ d.ss ≤ Numeral.maxWidth := by
  cases view <;> decide +kernel

/-- A primitive is read as a value by reading its digits into a header. -/
theorem Primitive.Canonical.coded {r : Registry} (hr : r.Loaded) {input : Bytes} {p : Primitive}
    (hp : Primitive.extract r input = .ok p) {d : Descriptor} {soft : Bytes} (hc : Canonical r d soft p) :
    Value.coded r input = (CodeHeader.ofDigits d soft).map (fun h => ⟨.code h, 0, p.totalLength⟩) := by
  obtain ⟨hsound, hlookup, -⟩ := hc.facts hr
  have hstart : input.head? ≠ some counterStart := by
    obtain ⟨_, _, hhs, -⟩ := Primitive.extract_eq_ok_iff_steps.1 hp
    obtain ⟨first, hfirst, hne, -⟩ := Primitive.hardSize_eq_ok.1 hhs
    rw [hfirst]
    exact fun h => hne (Option.some.inj h)
  rw [Value.coded, if_neg hstart, Value.primitive, hp,
    ← CodeHeader.read_code hsound hc.fits hc.length_soft hc.ascii_soft, ← hc.code_eq]
  simp only [bind, Except.bind, hc.selector_eq, hlookup]
  cases CodeHeader.read d p.code <;> rfl

/-- **A primitive of the KERI v1 tables is a leaf as a value**, unless its index has a digit that is not of the
alphabet. -/
theorem coded_of_extract {view : View} {input : Bytes} {p : Primitive}
    (hp : Primitive.extract (inView view) input = .ok p) :
    (∃ v, Value.coded (inView view) input = .ok v ∧ v.kind = .leaf ∧ v.length = p.totalLength) ∨
      view = .indexer ∧ ∃ e, Value.coded (inView view) input = .error e ∧ BadDigit p.code e := by
  have hr := loaded_inView view
  obtain ⟨d, soft, hc, -⟩ := Primitive.canonical_of_extract hr hp (Primitive.fitsAt_inView hp)
  have hcoded := hc.coded hr hp
  have hprimitive := hc.isPrimitive hr
  have hleaf : ∀ h, CodeHeader.ofDigits d soft = .ok h →
      ∃ v, Value.coded (inView view) input = .ok v ∧ v.kind = .leaf ∧ v.length = p.totalLength := by
    intro h hh
    rw [hcoded, hh]
    exact ⟨_, rfl, Header.kind_of_isPrimitive (by rw [CodeHeader.descriptor_of_ofDigits hh]; exact hprimitive), rfl⟩
  by_cases hk : d.kind = .fixedSize
  · exact .inl (hleaf _ (by rw [CodeHeader.ofDigits, hk]))
  rcases hprimitive.kind_of_ne hk with hk | hk
  · -- the digits were read for the length
    rcases hc.extent with hfs | ⟨-, quadlets, hread, -⟩
    · rw [hprimitive.fs_eq_none hk] at hfs
      cases hfs
    · refine .inl (hleaf { descriptor := d, digits := soft, leadBytes := some d.ls, size := some quadlets } ?_)
      simp only [CodeHeader.ofDigits, hk, readDigits, hread]
      rfl
  · obtain ⟨hview, hss⟩ := ss_le_of_indexer view d hc.mem hk
    rcases CodeHeader.ofDigits_indexer hk (by rw [hc.length_soft]; exact hss) with ⟨h, hh⟩ | ⟨e, he, hbad⟩
    · exact .inl (hleaf h hh)
    · refine .inr ⟨hview, e, by rw [hcoded, he]; rfl, hbad.mono ?_⟩
      rw [hc.code_eq]
      exact List.subset_append_right _ _

namespace Session

/-! ## Reading a row -/

/-- **What the calls for the values of a row come to**: a leaf for each member, up to one whose index is no number. -/
structure ReadsRow (view : View) (members : List Primitive) (start : Nat) (read : List (Value × State))
    (ending : Ending) (last : Session) : Prop where
  leaf : ∀ p ∈ read, p.1.kind = .leaf
  lengths : read.map (fun p => p.1.length) = (members.take read.length).map Primitive.totalLength
  cursor : last.state.cursor = start + rowLength (members.take read.length)
  ends : ending = .unfinished ∧ read.length = members.length ∨
    view = .indexer ∧ ∃ p e, members[read.length]? = some p ∧ BadDigit p.code e ∧ ending = .failed e

variable {view : View} {s : State} {n : Nat}

/-- What stands at the cursor is read by its code, under the registry of the view. -/
theorem readAt_of_expects (input : Bytes) (version : Option VersionHeader) (h : Expects s.frame view false (n + 1)) :
    (⟨input, .keriV1, s, version, false⟩ : Session).readAt s =
      Value.coded (inView view) (input.slice s.cursor s.frame.stop) := by
  obtain ⟨hregistry, htop⟩ := h.next
  simp only [readAt, htop, Bool.false_eq_true, if_false, inForce, hregistry]

theorem pull_failed {α : Type} (hooks : Hooks Id α) {s last : Session} {e : DecodeError} (hdone : s.done = false)
    (hstep : s.step = .failed e last) : s.pull hooks (n + 1) = ([], .failed e, last) := by
  simp only [pull, next_eq_step hooks hdone, hstep]
  rfl

theorem ReadsRow.cons {members : List Primitive} {start : Nat} {read : List (Value × State)} {ending : Ending}
    {last : Session} {p : Primitive} {v : Value} {st : State}
    (h : ReadsRow view members (start + p.totalLength) read ending last) (hk : v.kind = .leaf)
    (hlength : v.length = p.totalLength) : ReadsRow view (p :: members) start ((v, st) :: read) ending last where
  leaf := List.forall_mem_cons.2 ⟨hk, h.leaf⟩
  lengths := by rw [List.map_cons, List.length_cons, List.take_succ_cons, List.map_cons, h.lengths, hlength]
  cursor := by rw [List.length_cons, List.take_succ_cons, rowLength_cons, h.cursor, Nat.add_assoc]
  ends := by
    rcases h.ends with ⟨hending, hall⟩ | ⟨hview, q, e, hq, hbad, hending⟩
    · exact .inl ⟨hending, congrArg (· + 1) hall⟩
    · exact .inr ⟨hview, q, e, hq, hbad, hending⟩

/-- **A row that the innermost group waits for is read member by member.** -/
theorem pull_row (input : Bytes) : ∀ (members : List Primitive) {s : State} (version : Option VersionHeader),
    Expects s.frame view false members.length → Row (inView view) members (input.slice s.cursor s.frame.stop) →
      ∃ read ending last,
        (⟨input, .keriV1, s, version, false⟩ : Session).pull Hooks.passthrough members.length = (read, ending, last) ∧
          ReadsRow view members s.cursor read ending last
  | [], s, version, _, _ => ⟨[], .unfinished, _, rfl, fun _ hp => (by cases hp), rfl, rfl, .inl ⟨rfl, rfl⟩⟩
  | p :: members, s, version, hexpects, ⟨hp, hrow⟩ => by
    have hread := readAt_of_expects input version hexpects
    have hpos := Primitive.totalLength_pos (loaded_inView view) hp (Primitive.fitsAt_inView hp)
    have hinside : s.cursor + p.totalLength ≤ s.frame.stop := by
      have hle := (Primitive.looks (loaded_inView view) hp).le
      rw [Bytes.slice, List.length_drop, List.length_take] at hle
      omega
    have hsettle : s.settle = (.ok true, s) := State.settle_of_lt (by omega)
    rcases coded_of_extract hp with ⟨v, hv, hk, hlength⟩ | ⟨hview, e, he, hbad⟩
    · -- a leaf, and the rest of the row behind it
      have hconsumed : v.consumed = p.totalLength := (Value.consumed_of_stay (.inr hk)).trans hlength
      have hf : Finds ⟨input, .keriV1, s, version, false⟩ s v .stay :=
        ⟨hsettle, hread.trans hv, .stay (.inr hk), by rw [hconsumed]; exact hinside⟩
      have hbehind : Row (inView view) members
          (input.slice (s.taken v.consumed).cursor (s.taken v.consumed).frame.stop) := by
        rw [State.frame_taken, hconsumed]
        rw [Bytes.drop_slice] at hrow
        exact hrow
      obtain ⟨read, ending, last, hpull, hreads⟩ :=
        pull_row input members (v.header.asVersion?.or version) (hexpects.taken v.consumed) hbehind
      refine ⟨(v.shift s.cursor, s.taken v.consumed) :: read, ending, last, ?_, ?_⟩
      · have hpull' : (Session.behind ⟨input, .keriV1, s, version, false⟩ s v .stay).pull Hooks.passthrough
            members.length = (read, ending, last) := hpull
        rw [List.length_cons, pull_found _ rfl hf.step, hpull', Hooks.call_passthrough]
        rfl
      · rw [State.taken, hconsumed] at hreads
        exact hreads.cons hk hlength
    · -- the call that comes to the bad index fails, and the cursor stays
      refine ⟨[], .failed e, _, pull_failed _ rfl (Fails.read hsettle (hread.trans he)).step, ?_⟩
      exact {
        leaf := fun _ h => (by cases h)
        lengths := rfl
        cursor := State.cursor_withGroups _ _
        ends := .inr ⟨hview, p, e, rfl, hbad, rfl⟩ }

end Session
end Quadlet
