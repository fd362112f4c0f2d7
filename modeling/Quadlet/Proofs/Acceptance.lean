import Mathlib.Data.List.Induction
import Quadlet.Proofs.Loaded
/-!
# Acceptance — which documents make tables, and what a lead selects

Tables are put together code by code, and the first fault ends it.  Which documents are accepted is a matter of their
codes alone (`Acceptable`): each fits its sizes, and codes that start alike have hard parts of one length.  A set that
was put together holds just the codes that it was given (`CodeSet.Lists`), and just their leads; so no code starts
another, and the hard size that a lead announces finds the one code that an input can start with (`CodeSet.Selects`).
-/
namespace Quadlet

/-! ## Sets and what they hold -/

theorem Descriptor.fault?_eq_none {d : Descriptor} {lead : Nat} (hd : d.Words) :
    d.fault? lead = none ↔ d.Sound lead := by
  refine ⟨sound_of_fault? hd, fun h => ?_⟩
  have hos := Nat.not_lt.2 h.os_le
  have hlead := Nat.not_lt.2 h.lead_le
  unfold fault?
  rw [if_neg (by simp [h.ascii, h.length_selector, hlead])]
  cases hfs : d.fs with
  | none => simp [h.cs_mod hfs, hos]
  | some fs =>
    have hcs := Nat.not_lt.2 (h.cs_le hfs)
    simp [h.fs_mod hfs, hcs, hos]

theorem KeyMap.keys_ne {α : Type} (m : KeyMap α) : m.entries.Pairwise (fun a b => a.1 ≠ b.1) :=
  m.ordered.imp fun {a b} hlt (heq : a.1 = b.1) => List.lt_irrefl b.1 (heq ▸ hlt)

namespace CodeSet

/-- **The set holds the codes that have `P`**, each under its selector, and its leads are theirs. -/
structure Holds (s : CodeSet) (lead : Nat) (P : Descriptor → Prop) : Prop where
  code_iff : ∀ {k d}, s.codes.find? k = some d ↔ P d ∧ d.selector = k
  lead_iff : ∀ {key hs}, s.hardSizes.find? key = some hs ↔ ∃ d, P d ∧ d.selector.take lead = key ∧ d.hs = hs

/-- A code that starts like `d` has a hard part of the same length. -/
def AgreesWith (lead : Nat) (P : Descriptor → Prop) (d : Descriptor) : Prop :=
  ∀ e, P e → e.selector.take lead = d.selector.take lead → e.hs = d.hs

variable {s t : CodeSet} {lead : Nat} {P : Descriptor → Prop} {d : Descriptor}

theorem holds_empty (lead : Nat) : empty.Holds lead (fun _ => False) where
  code_iff := ⟨fun h => (by cases h), fun h => h.1.elim⟩
  lead_iff := ⟨fun h => (by cases h), fun ⟨_, h, _⟩ => h.elim⟩

theorem Holds.of_iff {Q : Descriptor → Prop} (h : s.Holds lead P) (hiff : ∀ d, P d ↔ Q d) : s.Holds lead Q :=
  (funext fun d => propext (hiff d) : P = Q) ▸ h

theorem Holds.agrees (h : s.Holds lead P) (hd : P d) : AgreesWith lead P d := by
  intro e he hlead
  have hhs := h.lead_iff.2 ⟨d, hd, rfl, rfl⟩
  rw [h.lead_iff.2 ⟨e, he, hlead, rfl⟩] at hhs
  exact Option.some.inj hhs

/-- **A code is taken in when it is sound and agrees with those that are there**, and never otherwise. -/
theorem Holds.exists_insert (h : s.Holds lead P) (hd : d.Words) :
    (∃ t, s.insert lead d = .ok t) ↔ d.Sound lead ∧ AgreesWith lead P d := by
  rw [← Descriptor.fault?_eq_none hd, CodeSet.insert]
  cases d.fault? lead with
  | some fault => simp
  | none =>
    dsimp only
    cases hlead : s.hardSizes.find? (d.selector.take lead) with
    | none =>
      refine ⟨fun _ => ⟨rfl, fun e he hsame => ?_⟩, fun _ => ⟨_, rfl⟩⟩
      rw [h.lead_iff.2 ⟨e, he, hsame, rfl⟩] at hlead
      cases hlead
    | some hs =>
      obtain ⟨e, he, hsame, rfl⟩ := h.lead_iff.1 hlead
      by_cases heq : e.hs = d.hs
      · refine ⟨fun _ => ⟨rfl, fun f hf hfsame => ?_⟩, fun _ => ⟨_, if_neg (Decidable.not_not.2 heq)⟩⟩
        exact (h.agrees he f hf (hfsame.trans hsame.symm)).trans heq
      · dsimp only
        rw [if_pos heq]
        exact ⟨fun ⟨_, h⟩ => (by cases h), fun ⟨_, hagrees⟩ => absurd (hagrees e he hsame) heq⟩

/-- What was there is still there, and the code with its lead has come in. -/
theorem Holds.insert (h : s.Holds lead P) (hd : d.Words) (hnew : ∀ e, P e → e.selector ≠ d.selector)
    (hinsert : s.insert lead d = .ok t) : t.Holds lead (fun e => P e ∨ e = d) := by
  obtain ⟨-, hagrees⟩ := (h.exists_insert hd).1 ⟨t, hinsert⟩
  obtain ⟨-, -, hcodes, hleads⟩ := insert_eq_ok hinsert
  constructor
  · intro k e
    rw [hcodes, KeyMap.find?_insert]
    split
    · next hk =>
      subst hk
      refine ⟨fun he => (by cases he; exact ⟨.inr rfl, rfl⟩), ?_⟩
      rintro ⟨he | rfl, hsel⟩
      · exact absurd hsel (hnew e he)
      · rfl
    · next hk =>
      rw [h.code_iff]
      refine and_congr_left fun hsel => ⟨.inl, fun he => he.resolve_right ?_⟩
      rintro rfl
      exact hk hsel.symm
  · intro key hs
    rw [hleads]
    split
    · next hkey =>
      constructor
      · intro hhs
        exact ⟨d, .inr rfl, hkey.symm, Option.some.inj hhs⟩
      · rintro ⟨e, he | rfl, hlead, rfl⟩
        · rw [hagrees e he (hlead.trans hkey)]
        · rfl
    · next hkey =>
      rw [h.lead_iff]
      refine exists_congr fun e => ⟨fun ⟨he, hrest⟩ => ⟨.inl he, hrest⟩, ?_⟩
      rintro ⟨he | rfl, hlead, hhs⟩
      · exact ⟨he, hlead, hhs⟩
      · exact absurd hlead.symm hkey

/-! ## What a lead selects -/

/-- The code that an input starts with, by the hard size that its lead announces. -/
def select (s : CodeSet) (lead : Nat) (input : Bytes) : Option Descriptor :=
  (s.hardSizes.find? (input.take lead)).bind (fun h => s.codes.find? (input.take h))

/-- **A lead selects**: it has a hard size when codes have it, which is the length of them all, and an input starts
with no code but the one that its lead finds. -/
structure Selects (s : CodeSet) (lead : Nat) : Prop where
  lead_iff : ∀ {key}, (s.hardSizes.find? key).isSome = true ↔
    key.length = lead ∧ ∃ c d, s.codes.find? c = some d ∧ key <+: c
  length_eq : ∀ {key hs c d}, s.hardSizes.find? key = some hs → s.codes.find? c = some d → key <+: c → c.length = hs
  eq_of_prefix : ∀ {c c' d d'}, s.codes.find? c = some d → s.codes.find? c' = some d' → c <+: c' → c = c'
  prefix_iff : ∀ {c d input}, s.codes.find? c = some d ∧ c <+: input ↔
    s.select lead input = some d ∧ d.selector = c
  prefix_unique : ∀ {c c' d d' input}, s.codes.find? c = some d → s.codes.find? c' = some d' →
    c <+: input → c' <+: input → c = c'

theorem take_eq_iff {key code : Bytes} (h : lead ≤ code.length) :
    code.take lead = key ↔ key.length = lead ∧ key <+: code := by
  rw [List.prefix_iff_eq_take]
  constructor
  · rintro rfl
    have hlen := List.length_take_of_le h
    exact ⟨hlen, by rw [hlen]⟩
  · rintro ⟨rfl, hkey⟩
    exact hkey.symm

section Sound

variable (h : s.Holds lead P) (hsound : ∀ e, P e → e.Sound lead) {c : Bytes}
include h

theorem Holds.selector_eq (hc : s.codes.find? c = some d) : d.selector = c := (h.code_iff.1 hc).2

include hsound

theorem Holds.length_code (hc : s.codes.find? c = some d) : c.length = d.hs ∧ lead ≤ c.length := by
  obtain ⟨hd, rfl⟩ := h.code_iff.1 hc
  have hlen := (hsound d hd).length_selector
  exact ⟨hlen, hlen ▸ (hsound d hd).lead_le⟩

theorem Holds.hardSize_take (hc : s.codes.find? c = some d) : s.hardSizes.find? (c.take lead) = some c.length := by
  have hlen := (h.length_code hsound hc).1
  obtain ⟨hd, rfl⟩ := h.code_iff.1 hc
  exact h.lead_iff.2 ⟨d, hd, rfl, hlen.symm⟩

theorem Holds.exists_code {key : Bytes} {hs : Nat} (hkey : s.hardSizes.find? key = some hs) :
    key.length = lead ∧ ∃ c d, s.codes.find? c = some d ∧ key <+: c := by
  obtain ⟨d, hd, hlead, -⟩ := h.lead_iff.1 hkey
  have hc := h.code_iff.2 ⟨hd, rfl⟩
  obtain ⟨hlen, hpre⟩ := (take_eq_iff (h.length_code hsound hc).2).1 hlead
  exact ⟨hlen, d.selector, d, hc, hpre⟩

/-- An input that starts with a code has the code's lead, whose hard size cuts the code out. -/
theorem Holds.select_of_prefix {input : Bytes} (hc : s.codes.find? c = some d) (hpre : c <+: input) :
    s.select lead input = some d := by
  have htake : input.take lead = c.take lead := by
    rw [List.prefix_iff_eq_take.1 hpre, List.take_take, Nat.min_eq_left (h.length_code hsound hc).2]
  rw [select, htake, h.hardSize_take hsound hc, Option.bind_some, ← List.prefix_iff_eq_take.1 hpre, hc]

theorem Holds.eq_of_prefixes {c' input : Bytes} {d' : Descriptor} (hc : s.codes.find? c = some d)
    (hc' : s.codes.find? c' = some d') (hpre : c <+: input) (hpre' : c' <+: input) : c = c' := by
  have heq := (h.select_of_prefix hsound hc hpre).symm.trans (h.select_of_prefix hsound hc' hpre')
  rw [← h.selector_eq hc, ← h.selector_eq hc', Option.some.inj heq]

/-- **A set of sound codes selects.** -/
theorem Holds.selects : s.Selects lead where
  lead_iff := by
    intro key
    rw [Option.isSome_iff_exists]
    refine ⟨fun ⟨_, hkey⟩ => h.exists_code hsound hkey, ?_⟩
    rintro ⟨hlen, c, d, hc, hpre⟩
    exact ⟨c.length, (take_eq_iff (h.length_code hsound hc).2).2 ⟨hlen, hpre⟩ ▸ h.hardSize_take hsound hc⟩
  length_eq := by
    intro key hs c d hkey hc hpre
    have hlen := (h.exists_code hsound hkey).1
    rw [← (take_eq_iff (h.length_code hsound hc).2).2 ⟨hlen, hpre⟩, h.hardSize_take hsound hc] at hkey
    exact Option.some.inj hkey
  eq_of_prefix := fun hc hc' hpre => h.eq_of_prefixes hsound hc hc' hpre (List.prefix_refl _)
  prefix_iff := by
    intro c d input
    refine ⟨fun ⟨hc, hpre⟩ => ⟨h.select_of_prefix hsound hc hpre, h.selector_eq hc⟩, ?_⟩
    rintro ⟨hselect, rfl⟩
    obtain ⟨hs, -, hc⟩ := Option.bind_eq_some_iff.1 hselect
    rw [h.selector_eq hc]
    exact ⟨hc, List.take_prefix ..⟩
  prefix_unique := h.eq_of_prefixes hsound

end Sound
end CodeSet

/-! ## Sections

A section is walked entry by entry; `Described` is what its entries make.  The walk is followed from its end: the
entries before the last one have made their set.
-/

/-- The descriptor is the one that an entry makes. -/
def Described (describe : Bytes → SizeEntry → Except TableError Descriptor) (entries : List (Bytes × SizeEntry))
    (d : Descriptor) : Prop :=
  ∃ x ∈ entries, describe x.1 x.2 = .ok d

namespace Tables

variable {lead : Nat} {describe : Bytes → SizeEntry → Except TableError Descriptor}

theorem codeSet_append (entries : List (Bytes × SizeEntry)) (x : Bytes × SizeEntry) :
    codeSet lead describe (entries ++ [x]) =
      codeSet lead describe entries >>= fun s => describe x.1 x.2 >>= s.insert lead := by
  simp [codeSet]

theorem described_append {entries : List (Bytes × SizeEntry)} {x : Bytes × SizeEntry} {d : Descriptor} :
    Described describe (entries ++ [x]) d ↔ Described describe entries d ∨ describe x.1 x.2 = .ok d := by
  simp [Described, or_and_right, exists_or]

variable (hselector : ∀ {code e d}, describe code e = .ok d → d.selector = code)
  (hwords : ∀ {code e d}, describe code e = .ok d → d.Words)
include hselector hwords

/-- **A set that was put together holds what its section describes.** -/
theorem codeSet_holds (entries : List (Bytes × SizeEntry)) (hkeys : entries.Pairwise (fun a b => a.1 ≠ b.1))
    {s : CodeSet} (h : codeSet lead describe entries = .ok s) : s.Holds lead (Described describe entries) := by
  induction entries using List.reverseRecOn generalizing s with
  | nil =>
    cases h
    exact (CodeSet.holds_empty lead).of_iff (by simp [Described])
  | append_singleton entries x ih =>
    rw [codeSet_append] at h
    obtain ⟨t, ht, h⟩ := bind_eq_ok.1 h
    obtain ⟨d, hd, h⟩ := bind_eq_ok.1 h
    obtain ⟨hkeys, -, hnew⟩ := List.pairwise_append.1 hkeys
    -- the keys differ, so the last code is new to the set of those before it
    refine ((ih hkeys ht).insert (hwords hd) ?_ h).of_iff fun e => ?_
    · rintro e ⟨y, hy, he⟩
      rw [hselector he, hselector hd]
      exact hnew y hy x (by simp)
    · rw [described_append, hd, Except.ok.injEq, eq_comm (a := d)]

/-- **A section makes a set when each entry makes a sound code and codes that start alike are of one length.** -/
theorem exists_codeSet (entries : List (Bytes × SizeEntry)) (hkeys : entries.Pairwise (fun a b => a.1 ≠ b.1)) :
    (∃ s, codeSet lead describe entries = .ok s) ↔
      (∀ x ∈ entries, ∃ d, describe x.1 x.2 = .ok d ∧ d.Sound lead) ∧
        ∀ d, Described describe entries d → CodeSet.AgreesWith lead (Described describe entries) d := by
  induction entries using List.reverseRecOn with
  | nil => exact ⟨fun _ => ⟨by simp, fun d ⟨_, hx, _⟩ => (by cases hx)⟩, fun _ => ⟨.empty, rfl⟩⟩
  | append_singleton entries x ih =>
    have ih := ih (List.pairwise_append.1 hkeys).1
    constructor
    · rintro ⟨t, h⟩
      have hheld := codeSet_holds hselector hwords _ hkeys h
      refine ⟨?_, fun d hd => hheld.agrees hd⟩
      rw [codeSet_append] at h
      obtain ⟨s, hs, h⟩ := bind_eq_ok.1 h
      obtain ⟨d, hd, h⟩ := bind_eq_ok.1 h
      have hbefore := codeSet_holds hselector hwords _ (List.pairwise_append.1 hkeys).1 hs
      intro y hy
      rcases List.mem_append.1 hy with hy | hy
      · exact (ih.1 ⟨s, hs⟩).1 y hy
      · rw [List.mem_singleton.1 hy]
        exact ⟨d, hd, ((hbefore.exists_insert (hwords hd)).1 ⟨t, h⟩).1⟩
    · rintro ⟨hsound, hagree⟩
      -- the entries before the last one make a set, and that takes its code in
      obtain ⟨s, hs⟩ := ih.2 ⟨fun y hy => hsound y (List.mem_append_left _ hy), fun d hd e he =>
        hagree d (described_append.2 (.inl hd)) e (described_append.2 (.inl he))⟩
      obtain ⟨d, hd, hdsound⟩ := hsound x (by simp)
      have hbefore := codeSet_holds hselector hwords _ (List.pairwise_append.1 hkeys).1 hs
      obtain ⟨t, ht⟩ := (hbefore.exists_insert (hwords hd)).2 ⟨hdsound, fun e he =>
        hagree d (described_append.2 (.inr hd)) e (described_append.2 (.inl he))⟩
      refine ⟨t, ?_⟩
      rw [codeSet_append]
      exact bind_eq_ok.2 ⟨s, hs, bind_eq_ok.2 ⟨d, hd, ht⟩⟩

end Tables

/-! ## Documents -/

/-- **The sizes fit each other, and the code**, in a table whose leads have `lead` characters.  They are words, and so
is the sum of the first two: a full size need not be as great as a sum that wraps around. -/
structure SizeEntry.Fits (e : SizeEntry) (lead : Nat) (code : Bytes) : Prop where
  ascii : Bytes.isAscii code = true
  length_code : code.length = e.hs.toNat
  lead_le : lead ≤ e.hs.toNat
  cs_mod : e.fs = none → (e.hs + e.ss) % 4 = 0
  fs_mod : ∀ {fs}, e.fs = some fs → fs % 4 = 0 ∧ e.hs + e.ss ≤ fs
  os_le : e.os ≤ e.ss

/-- The sizes of a code as numbers. -/
structure CodeSizes where
  hs : Nat
  ss : Nat
  os : Nat
  fs : Option Nat
  ls : Nat

def SizeEntry.sizes (e : SizeEntry) : CodeSizes :=
  ⟨e.hs.toNat, e.ss.toNat, e.os.toNat, e.fs.map UInt64.toNat, e.ls.toNat⟩

def Descriptor.sizes (d : Descriptor) : CodeSizes := ⟨d.hs, d.ss, d.os, d.fs, d.ls⟩

theorem Descriptor.sizes_eq_iff {d : Descriptor} {e : SizeEntry} : d.sizes = e.sizes ↔
    d.hs = e.hs.toNat ∧ d.ss = e.ss.toNat ∧ d.os = e.os.toNat ∧ d.fs = e.fs.map UInt64.toNat ∧ d.ls = e.ls.toNat := by
  simp [Descriptor.sizes, SizeEntry.sizes]

theorem word_mod_four {n : UInt64} : n % 4 = 0 ↔ n.toNat % 4 = 0 := by
  rw [← UInt64.toNat_inj, UInt64.toNat_mod]
  rfl

/-- **The set has the codes of the section**, with their sizes, and no others. -/
def CodeSet.Lists (s : CodeSet) (entries : KeyMap SizeEntry) : Prop :=
  ∀ code, (s.codes.find? code).map Descriptor.sizes = (entries.find? code).map SizeEntry.sizes

/-- The codes of a section that start alike have hard parts of one length. -/
def LeadsAgree (lead : Nat) (entries : KeyMap SizeEntry) : Prop :=
  ∀ {code code' e e'}, entries.find? code = some e → entries.find? code' = some e' →
    code.take lead = code'.take lead → e.hs = e'.hs

/-- **What documents must say to make tables.** -/
structure Acceptable (sizes : Sizes) (counters : KeyMap CounterEntry) : Prop where
  matter : ∀ {code e}, sizes.matter.find? code = some e → e.Fits 1 code
  matter_leads : LeadsAgree 1 sizes.matter
  indexer : ∀ {code e}, sizes.indexer.find? code = some e → e.fs.isSome = true ∧ e.Fits 1 code
  indexer_leads : LeadsAgree 1 sizes.indexer
  counter : ∀ {code e}, sizes.counter.find? code = some e → code.head? = some counterStart ∧ e.Fits 2 code
  counter_leads : LeadsAgree 2 sizes.counter
  frame_or_multiplier : ∀ {code entry}, counters.find? code = some entry →
    ¬(entry.frame = true ∧ entry.multiplier.isSome = true)
  counter_sized : ∀ {code entry}, counters.find? code = some entry → (sizes.counter.find? code).isSome = true

namespace Tables

/-- How a section makes its descriptors: from the entries that have `Q`, and with their sizes. -/
structure Describes (describe : Bytes → SizeEntry → Except TableError Descriptor) (Q : Bytes → SizeEntry → Prop) :
    Prop where
  exists_iff : ∀ {code e}, (∃ d, describe code e = .ok d) ↔ Q code e
  selector_eq : ∀ {code e d}, describe code e = .ok d → d.selector = code
  sizes_eq : ∀ {code e d}, describe code e = .ok d → d.sizes = e.sizes

theorem describes_matter (codex : Codex) : Describes (matterDescriptor codex) (fun _ _ => True) where
  exists_iff := by simp [matterDescriptor]
  selector_eq := fun h => by cases h; rfl
  sizes_eq := fun h => by cases h; rfl

theorem describes_indexer (codex : Codex) : Describes (indexerDescriptor codex) (fun _ e => e.fs.isSome = true) where
  exists_iff := by
    intro code e
    unfold indexerDescriptor
    cases e.fs <;> simp
  selector_eq := by
    intro code e d h
    unfold indexerDescriptor at h
    split at h <;> cases h
    rfl
  sizes_eq := by
    intro code e d h
    unfold indexerDescriptor at h
    split at h <;> cases h
    rfl

/-- A counter has no entry that frames and multiplies at once. -/
def FrameOrMultiplier (counters : KeyMap CounterEntry) (code : Bytes) : Prop :=
  ∀ {entry}, counters.find? code = some entry → ¬(entry.frame = true ∧ entry.multiplier.isSome = true)

theorem frameOrMultiplier_iff {counters : KeyMap CounterEntry} {code : Bytes} : FrameOrMultiplier counters code ↔
    ¬(((counters.find? code).getD {}).frame = true ∧ ((counters.find? code).getD {}).multiplier.isSome = true) := by
  unfold FrameOrMultiplier
  cases counters.find? code <;> simp

theorem describes_counter (codex : Codex) (counters : KeyMap CounterEntry) :
    Describes (counterDescriptor codex counters) (fun code _ =>
      code.head? = some counterStart ∧ 2 ≤ code.length ∧ FrameOrMultiplier counters code) where
  exists_iff := by simp [counterDescriptor_eq_ok, frameOrMultiplier_iff]
  selector_eq := by
    intro code e d h
    obtain ⟨-, -, -, rfl⟩ := (counterDescriptor_eq_ok rfl).1 h
    rfl
  sizes_eq := by
    intro code e d h
    obtain ⟨-, -, -, rfl⟩ := (counterDescriptor_eq_ok rfl).1 h
    rfl

section Section

variable {describe : Bytes → SizeEntry → Except TableError Descriptor} {Q : Bytes → SizeEntry → Prop} {lead : Nat}
  (hdescribe : Describes describe Q)
include hdescribe

theorem Describes.hs_eq {code : Bytes} {e : SizeEntry} {d : Descriptor} (h : describe code e = .ok d) :
    d.hs = e.hs.toNat := (Descriptor.sizes_eq_iff.1 (hdescribe.sizes_eq h)).1

theorem Describes.words {code : Bytes} {e : SizeEntry} {d : Descriptor} (h : describe code e = .ok d) : d.Words := by
  obtain ⟨hhs, hss, -, hfs, hls⟩ := Descriptor.sizes_eq_iff.1 (hdescribe.sizes_eq h)
  refine ⟨hhs ▸ e.hs.toNat_lt, hss ▸ e.ss.toNat_lt, fun h => ?_, hls ▸ e.ls.toNat_lt⟩
  obtain ⟨fs, -, rfl⟩ := Option.map_eq_some_iff.1 (hfs.symm.trans h)
  exact fs.toNat_lt

theorem Describes.sound_iff {code : Bytes} {e : SizeEntry} {d : Descriptor} (h : describe code e = .ok d) :
    d.Sound lead ↔ e.Fits lead code := by
  have hwords := hdescribe.words h
  obtain rfl := hdescribe.selector_eq h
  obtain ⟨hhs, hss, hos, hfs, -⟩ := Descriptor.sizes_eq_iff.1 (hdescribe.sizes_eq h)
  have hcs : d.cs = (e.hs + e.ss).toNat := by rw [Descriptor.cs, hhs, hss, wrap, UInt64.toNat_add]
  have hnone : d.fs = none ↔ e.fs = none := by rw [hfs, Option.map_eq_none_iff]
  have hsome : ∀ {fs}, e.fs = some fs → d.fs = some fs.toNat := fun h => by rw [hfs, h, Option.map_some]
  constructor
  · intro hd
    refine ⟨hd.ascii, hhs ▸ hd.length_selector, hhs ▸ hd.lead_le, fun h => ?_, fun h => ⟨?_, ?_⟩, ?_⟩
    · exact word_mod_four.2 (hcs ▸ hd.cs_mod (hnone.2 h))
    · exact word_mod_four.2 (hd.fs_mod (hsome h))
    · exact UInt64.le_iff_toNat_le.2 (hcs ▸ hd.cs_le (hsome h))
    · exact UInt64.le_iff_toNat_le.2 (hos ▸ hss ▸ hd.os_le)
  · intro he
    have hfull : ∀ {n}, d.fs = some n → n % 4 = 0 ∧ d.cs ≤ n := by
      intro n h
      obtain ⟨fs, hfs, rfl⟩ := Option.map_eq_some_iff.1 (hfs.symm.trans h)
      obtain ⟨hmod, hle⟩ := he.fs_mod hfs
      exact ⟨word_mod_four.1 hmod, hcs ▸ UInt64.le_iff_toNat_le.1 hle⟩
    refine ⟨hwords, he.ascii, hhs ▸ he.length_code, hhs ▸ he.lead_le, ?_, fun h => ?_, fun h => (hfull h).1,
      fun h => (hfull h).2⟩
    · rw [hos, hss]
      exact UInt64.le_iff_toNat_le.1 he.os_le
    · exact hcs ▸ word_mod_four.1 (he.cs_mod (hnone.1 h))

/-- **A section makes a set when its entries fit and their leads agree.** -/
theorem Describes.exists_codeSet_iff (lead : Nat) (entries : KeyMap SizeEntry) :
    (∃ s, codeSet lead describe entries.entries = .ok s) ↔
      (∀ {code e}, entries.find? code = some e → Q code e ∧ e.Fits lead code) ∧ LeadsAgree lead entries := by
  rw [exists_codeSet hdescribe.selector_eq hdescribe.words _ entries.keys_ne]
  constructor
  · rintro ⟨hsound, hagree⟩
    have hmade : ∀ {code e}, entries.find? code = some e →
        ∃ d, describe code e = .ok d ∧ d.Sound lead := fun he => hsound _ (KeyMap.find?_eq_some_iff.1 he)
    refine ⟨fun he => ?_, fun he he' hlead => ?_⟩
    · obtain ⟨d, hd, hdsound⟩ := hmade he
      exact ⟨hdescribe.exists_iff.1 ⟨d, hd⟩, (hdescribe.sound_iff hd).1 hdsound⟩
    · obtain ⟨d, hd, -⟩ := hmade he
      obtain ⟨d', hd', -⟩ := hmade he'
      rw [← hdescribe.selector_eq hd, ← hdescribe.selector_eq hd'] at hlead
      have hsame := hagree d' ⟨_, KeyMap.find?_eq_some_iff.1 he', hd'⟩ d ⟨_, KeyMap.find?_eq_some_iff.1 he, hd⟩ hlead
      rwa [hdescribe.hs_eq hd, hdescribe.hs_eq hd', UInt64.toNat_inj] at hsame
  · rintro ⟨hfits, hleads⟩
    refine ⟨fun x hx => ?_, ?_⟩
    · obtain ⟨hq, hfit⟩ := hfits (KeyMap.find?_eq_some_iff.2 hx)
      obtain ⟨d, hd⟩ := hdescribe.exists_iff.2 hq
      exact ⟨d, hd, (hdescribe.sound_iff hd).2 hfit⟩
    · rintro d ⟨x, hx, hd⟩ d' ⟨x', hx', hd'⟩ hlead
      rw [hdescribe.selector_eq hd, hdescribe.selector_eq hd'] at hlead
      rw [hdescribe.hs_eq hd, hdescribe.hs_eq hd',
        hleads (KeyMap.find?_eq_some_iff.2 hx') (KeyMap.find?_eq_some_iff.2 hx) hlead]

variable {entries : KeyMap SizeEntry} {s : CodeSet} (h : codeSet lead describe entries.entries = .ok s)
include h

theorem Describes.lists : s.Lists entries := by
  have hheld := codeSet_holds hdescribe.selector_eq hdescribe.words _ entries.keys_ne h
  obtain ⟨hmade, -⟩ := (exists_codeSet hdescribe.selector_eq hdescribe.words _ entries.keys_ne).1 ⟨s, h⟩
  intro code
  cases hfind : entries.find? code with
  | some e =>
    obtain ⟨d, hd, -⟩ := hmade _ (KeyMap.find?_eq_some_iff.1 hfind)
    rw [hheld.code_iff.2 ⟨⟨_, KeyMap.find?_eq_some_iff.1 hfind, hd⟩, hdescribe.selector_eq hd⟩, Option.map_some,
      hdescribe.sizes_eq hd, Option.map_some]
  | none =>
    cases hcode : s.codes.find? code with
    | none => rfl
    | some d =>
      obtain ⟨⟨x, hx, hd⟩, hselector⟩ := hheld.code_iff.1 hcode
      rw [← hselector, hdescribe.selector_eq hd, KeyMap.find?_eq_some_iff.2 hx] at hfind
      cases hfind

theorem Describes.selects : s.Selects lead := by
  have hheld := codeSet_holds hdescribe.selector_eq hdescribe.words _ entries.keys_ne h
  have hsound : s.Sound lead fun _ => True := codeSet_sound (fun _ _ _ hd => ⟨hdescribe.words hd, trivial⟩) h
  exact hheld.selects fun e he => hsound.sound (hheld.code_iff.2 ⟨he, rfl⟩)

end Section

/-- Tables are made section by section, and every counter of the third document has sizes. -/
theorem ofDocuments_eq_ok {sizes : Sizes} {codex : Codex} {counters : KeyMap CounterEntry} {t : Tables} :
    ofDocuments sizes codex counters = .ok t ↔
      codeSet 1 (matterDescriptor codex) sizes.matter.entries = .ok t.matter ∧
        codeSet 1 (indexerDescriptor codex) sizes.indexer.entries = .ok t.indexer ∧
          codeSet 2 (counterDescriptor codex counters) sizes.counter.entries = .ok t.counter ∧
            ∀ {code entry}, counters.find? code = some entry → (sizes.counter.find? code).isSome = true := by
  have hsized : counters.keys.find? (fun code => (sizes.counter.find? code).isNone) = none ↔
      ∀ {code entry}, counters.find? code = some entry → (sizes.counter.find? code).isSome = true := by
    rw [List.find?_eq_none]
    constructor
    · intro h code entry hentry
      rw [Option.isSome_iff_ne_none, ne_eq, ← Option.isNone_iff_eq_none]
      exact h code (List.mem_map.2 ⟨(code, entry), KeyMap.find?_eq_some_iff.1 hentry, rfl⟩)
    · intro h code hcode
      obtain ⟨x, hx, rfl⟩ := List.mem_map.1 hcode
      rw [Option.isNone_iff_eq_none, ← ne_eq, ← Option.isSome_iff_ne_none]
      exact h (KeyMap.find?_eq_some_iff.2 hx)
  rw [← hsized]
  unfold ofDocuments
  constructor
  · intro h
    obtain ⟨matter, hmatter, h⟩ := bind_eq_ok.1 h
    obtain ⟨indexer, hindexer, h⟩ := bind_eq_ok.1 h
    obtain ⟨counter, hcounter, h⟩ := bind_eq_ok.1 h
    split at h
    · cases h
    next hnone =>
    cases h
    exact ⟨hmatter, hindexer, hcounter, hnone⟩
  · rintro ⟨hmatter, hindexer, hcounter, hnone⟩
    rw [hmatter, hindexer, hcounter]
    dsimp only [bind, Except.bind]
    rw [hnone]

/-- **Documents make tables exactly when they are acceptable.** -/
theorem exists_ofDocuments (sizes : Sizes) (codex : Codex) (counters : KeyMap CounterEntry) :
    (∃ t, ofDocuments sizes codex counters = .ok t) ↔ Acceptable sizes counters := by
  have hmatter := (describes_matter codex).exists_codeSet_iff 1 sizes.matter
  have hindexer := (describes_indexer codex).exists_codeSet_iff 1 sizes.indexer
  have hcounter := (describes_counter codex counters).exists_codeSet_iff 2 sizes.counter
  constructor
  · rintro ⟨t, h⟩
    obtain ⟨hm, hi, hc, hsized⟩ := ofDocuments_eq_ok.1 h
    obtain ⟨matter, matter_leads⟩ := hmatter.1 ⟨_, hm⟩
    obtain ⟨indexer, indexer_leads⟩ := hindexer.1 ⟨_, hi⟩
    obtain ⟨counter, counter_leads⟩ := hcounter.1 ⟨_, hc⟩
    refine ⟨fun he => (matter he).2, matter_leads, indexer, indexer_leads, ?_, counter_leads, ?_, hsized⟩
    · exact fun he => ⟨(counter he).1.1, (counter he).2⟩
    · -- an entry is looked at beside the sizes of its code, which it has
      intro code entry hentry
      obtain ⟨e, he⟩ := Option.isSome_iff_exists.1 (hsized hentry)
      exact (counter he).1.2.2 hentry
  · intro h
    obtain ⟨matter, hm⟩ := hmatter.2 ⟨fun he => ⟨trivial, h.matter he⟩, h.matter_leads⟩
    obtain ⟨indexer, hi⟩ := hindexer.2 ⟨h.indexer, h.indexer_leads⟩
    obtain ⟨counter, hc⟩ : ∃ s, codeSet 2 (counterDescriptor codex counters) sizes.counter.entries = .ok s := by
      refine hcounter.2 ⟨fun he => ?_, h.counter_leads⟩
      obtain ⟨hhead, hfits⟩ := h.counter he
      exact ⟨⟨hhead, hfits.length_code ▸ hfits.lead_le, h.frame_or_multiplier⟩, hfits⟩
    exact ⟨⟨matter, indexer, counter⟩, ofDocuments_eq_ok.2 ⟨hm, hi, hc, h.counter_sized⟩⟩

/-- **Tables have the codes of their sizes, and a lead selects in each of them.** -/
theorem lists_and_selects {sizes : Sizes} {codex : Codex} {counters : KeyMap CounterEntry} {t : Tables}
    (h : ofDocuments sizes codex counters = .ok t) :
    (t.matter.Lists sizes.matter ∧ t.matter.Selects 1) ∧ (t.indexer.Lists sizes.indexer ∧ t.indexer.Selects 1) ∧
      t.counter.Lists sizes.counter ∧ t.counter.Selects 2 := by
  obtain ⟨hm, hi, hc, -⟩ := ofDocuments_eq_ok.1 h
  have hmatter := describes_matter codex
  have hindexer := describes_indexer codex
  have hcounter := describes_counter codex counters
  exact ⟨⟨hmatter.lists hm, hmatter.selects hm⟩, ⟨hindexer.lists hi, hindexer.selects hi⟩, hcounter.lists hc,
    hcounter.selects hc⟩

end Tables

namespace Registry

/-- The sizes of two codes of different lengths, told apart by their first character. -/
def twoLengths : String :=
  "\x7b\"Matter\":\x7b\"4A\":\x7b\"hs\":2,\"ss\":2\x7d,\"A\":\x7b\"hs\":1,\"ss\":0,\"fs\":44\x7d\x7d\x7d"

end Registry
end Quadlet
