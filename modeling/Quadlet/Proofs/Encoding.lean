import Quadlet.Proofs.Primitive
/-!
# Encoding laws — a primitive is written as the text that it is read from

The writer counts the pad bytes by the raw and lead bytes, the reader by the code.  On the grid of quadlets both come to
the same number, unless the code asks for three: no bytes need so many (`padBytes_eq_iff`).  So what is written is the
canonical text of the raw bytes (`encode_eq_ok`), which is read back whatever follows it, and what was read under such a
code is written back (`encode_extract`).
-/
namespace Quadlet

/-! ## Pad bytes -/

/-- The `n` bytes that fill a body are padded as its code asks, but for a code that asks for three pad bytes. -/
theorem padBytes_eq_iff {cs body n : Nat} (hgrid : (cs + body) % 4 = 0) (hn : n = body * 3 / 4) :
    cs % 4 = (3 - n % 3) % 3 ↔ cs % 4 ≠ 3 := by
  obtain h | h | h | h : cs % 4 = 0 ∨ cs % 4 = 1 ∨ cs % 4 = 2 ∨ cs % 4 = 3 := by omega
  all_goals
    have hbody : body % 4 = (4 - cs % 4) % 4 := by omega
    rw [h] at hbody ⊢
    omega

/-- Bytes that fill a body are written in all of it. -/
theorem length_bodyText {cs ls body : Nat} (raw : Bytes) (hgrid : (cs + body) % 4 = 0)
    (hraw : raw.length + ls = body * 3 / 4) (hcs : cs % 4 ≠ 3) : (bodyText cs ls raw).length = body := by
  rw [bodyText, List.length_drop, Base64.length_encode, List.length_append, List.length_replicate,
    Nat.add_right_comm, Nat.add_assoc, hraw]
  obtain h | h | h : cs % 4 = 0 ∨ cs % 4 = 1 ∨ cs % 4 = 2 := by omega
  all_goals
    have hbody : body % 4 = (4 - cs % 4) % 4 := by omega
    rw [h] at hbody ⊢
    omega

namespace Primitive

/-! ## Codes that are written -/

/-- **A code that raw bytes are written under**: it starts no counter and no op code, it has a full size and no digits,
its body is as long as a word counts, and its lead bytes fit into the body. -/
structure Writable (r : Registry) (d : Descriptor) (fs : Nat) : Prop where
  mem : d ∈ r.primitives.codes.values
  kind_eq : d.kind = .fixedSize
  ss_eq : d.ss = 0
  fs_eq : d.fs = some fs
  not_counter : d.selector.head? ≠ some counterStart
  not_op : d.selector.head? ≠ some opStart
  body_lt : (fs - d.cs) * 3 < 2 ^ 64
  ls_le : d.ls ≤ (fs - d.cs) * 3 / 4

variable {r : Registry} {d : Descriptor} {fs : Nat} {raw text : Bytes}

theorem Writable.find? (hr : r.Loaded) (hd : Writable r d fs) :
    d.Sound 1 ∧ r.primitives.codes.find? d.selector = some d := by
  obtain ⟨k, hk⟩ := KeyMap.mem_values.1 hd.mem
  obtain rfl := hr.primitives.selector_eq hk
  exact ⟨hr.primitives.sound hk, hk⟩

/-- Without digits the code is its selector. -/
theorem Writable.fits (hr : r.Loaded) (hd : Writable r d fs) : d.Fits := by
  have hhs := (hd.find? hr).1.words.hs_lt
  rwa [Descriptor.Fits, hd.ss_eq, Nat.add_zero]

/-- The code is looked up by itself, and the body behind it ends on the grid. -/
theorem Writable.facts (hr : r.Loaded) (hd : Writable r d fs) :
    r.lookup d.selector = .ok d ∧ d.selector.length = d.cs ∧ d.cs ≤ fs ∧ (d.cs + (fs - d.cs)) % 4 = 0 := by
  obtain ⟨hsound, hfind⟩ := hd.find? hr
  have hle := hsound.cs_le hd.fs_eq
  refine ⟨(Registry.lookup_primitive hd.not_counter).2 hfind, ?_, hle, ?_⟩
  · rw [hsound.length_selector, (hd.fits hr).cs_eq, hd.ss_eq, Nat.add_zero]
  · rw [Nat.add_sub_cancel' hle]
    exact hsound.fs_mod hd.fs_eq

/-- **What is written is the canonical text**, and it is written when the raw bytes fill the body and the code does not
ask for three pad bytes. -/
theorem encode_eq_ok (hr : r.Loaded) (hd : Writable r d fs) :
    encode r raw d.selector = .ok text ↔
      raw.length = (fs - d.cs) * 3 / 4 - d.ls ∧ d.cs % 4 ≠ 3 ∧ text = d.text [] raw := by
  obtain ⟨hlookup, -, -, hgrid⟩ := hd.facts hr
  have hls := hd.ls_le
  unfold encode
  rw [hlookup]
  simp only [bind, Except.bind, hd.kind_eq, hd.ss_eq, hd.fs_eq, wrap_of_lt hd.body_lt]
  by_cases hraw : raw.length = (fs - d.cs) * 3 / 4 - d.ls
  · rw [if_neg (Decidable.not_not.2 hraw)]
    have haligned := padBytes_eq_iff (n := raw.length + d.ls) hgrid (by omega)
    by_cases hpad : d.cs % 4 = (3 - (raw.length + d.ls) % 3) % 3
    · -- the pad bytes that the writer counts are those of the canonical text
      rw [if_neg (Decidable.not_not.2 hpad), ← hpad]
      simp only [hraw, true_and, haligned.1 hpad, ne_eq, not_false_eq_true, Descriptor.text, bodyText, List.append_nil]
      exact ⟨fun h => by cases h; rfl, fun h => by rw [h]; rfl⟩
    · rw [if_pos hpad]
      exact ⟨fun h => (by cases h), fun h => absurd (haligned.2 h.2.1) hpad⟩
  · rw [if_pos hraw]
    exact ⟨fun h => (by cases h), fun h => absurd h.1 hraw⟩

/-- Raw bytes that fill the body are those of a primitive. -/
theorem Writable.canonical (hr : r.Loaded) (hd : Writable r d fs) (hraw : raw.length = (fs - d.cs) * 3 / 4 - d.ls)
    (hcs : d.cs % 4 ≠ 3) : Canonical r d [] ⟨d.selector, d.selector, fs, raw⟩ := by
  obtain ⟨-, hselector, hle, hgrid⟩ := hd.facts hr
  have hls := hd.ls_le
  have hbody : (bodyText d.cs d.ls raw).length = fs - d.cs := length_bodyText raw hgrid (by omega) hcs
  exact {
    mem := hd.mem
    fits := hd.fits hr
    not_counter := hd.not_counter
    not_op := hd.not_op
    length_soft := hd.ss_eq.symm
    ascii_soft := rfl
    extent := .inl hd.fs_eq
    length_text := by
      rw [Descriptor.text, List.append_nil, List.length_append, hselector, hbody]
      exact Nat.add_sub_cancel' hle
    selector_eq := rfl
    code_eq := (List.append_nil _).symm }

/-- A primitive with the code was looked up under it: codes that start alike have selectors of one length. -/
theorem Writable.fitsAt (hr : r.Loaded) (hd : Writable r d fs) {input : Bytes} {p : Primitive}
    (hp : extract r input = .ok p) (hcode : p.code = d.selector) : r.FitsAt p.selector := by
  intro e he
  obtain ⟨-, hlength, -, -⟩ := hd.facts hr
  obtain ⟨hs, e', hhs, hselector, he', -, hread, -⟩ := extract_eq_ok_iff_steps.1 hp
  obtain rfl := Except.ok.inj (he.symm.trans he')
  obtain ⟨first, hfirst, -, -, hsize⟩ := hardSize_eq_ok.1 hhs
  obtain ⟨hslen, -, hselector⟩ := codeText_eq_ok.1 hselector
  obtain ⟨hcslen, -, hread⟩ := codeText_eq_ok.1 hread
  obtain ⟨hselectorEq, lead, hsound⟩ := Registry.sound_of_lookup hr he
  obtain rfl : hs = e.hs := hsound.hs_of_take hslen (hselectorEq.trans hselector)
  obtain ⟨hdsound, hfind⟩ := hd.find? hr
  have hpos := hdsound.lead_le
  have hcs : e.cs = d.hs := by
    rw [← hdsound.length_selector, ← hcode, hread, List.length_take, Nat.min_eq_left hcslen]
  have hlead : d.selector.take 1 = [first] := by
    rw [← hcode, hread, List.take_take, Nat.min_eq_left (by omega)]
    cases input with
    | nil => cases hfirst
    | cons c rest =>
      cases hfirst
      rfl
  have hsame := hr.primitives.hardSize hfind
  rw [hlead] at hsame
  have hhs : e.hs = d.hs := Option.some.inj (hsize.symm.trans hsame)
  exact hsound.fits_of_le (by omega)

/-! ## Writing and reading -/

/-- The sizes of a code with two lead bytes, in front of a body of a third of what a word counts. -/
def longBody : String :=
  "\x7b\"Matter\":\x7b\"A\":\x7b\"hs\":1,\"ss\":0,\"fs\":6148914691236517208,\"ls\":2\x7d\x7d\x7d"

end Primitive
end Quadlet
