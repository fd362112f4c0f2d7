import Mathlib.Algebra.Group.Nat.Defs
import Quadlet.Registry
/-!
# Loaded registries — what tables that were put together promise

`Tables.ofDocuments` checks every code as it takes it in.  Here is what those checks leave for a reader to rely on:
a descriptor is found under its own selector, its sizes fit each other, and its hard size is the one that its first
characters announce (`CodeSet.Sound`).  A registry is `Loaded` when its tables are, and those of all its contexts.
-/
namespace Quadlet

/-! ## Outcomes -/

instance decidableEqOutcome {ε α : Type} [DecidableEq ε] [DecidableEq α] : DecidableEq (Except ε α)
  | .ok a, .ok b => decidable_of_iff (a = b) ⟨congrArg Except.ok, Except.ok.inj⟩
  | .error d, .error e => decidable_of_iff (d = e) ⟨congrArg Except.error, Except.error.inj⟩
  | .ok _, .error _ => isFalse (fun h => nomatch h)
  | .error _, .ok _ => isFalse (fun h => nomatch h)

theorem bind_eq_ok {ε α β : Type} {x : Except ε α} {f : α → Except ε β} {b : β} :
    x >>= f = .ok b ↔ ∃ a, x = .ok a ∧ f a = .ok b := by
  cases x with
  | error e => exact ⟨fun h => (by cases h), fun ⟨_, h, _⟩ => (by cases h)⟩
  | ok a => exact ⟨fun h => ⟨a, rfl, h⟩, fun ⟨_, h, hb⟩ => by cases h; exact hb⟩

theorem pure_eq_ok {ε α : Type} {a b : α} : (pure a : Except ε α) = .ok b ↔ b = a :=
  ⟨fun h => (Except.ok.inj h).symm, fun h => congrArg Except.ok h.symm⟩

theorem bind_eq_error {ε α β : Type} {x : Except ε α} {f : α → Except ε β} {e : ε} :
    x >>= f = .error e ↔ x = .error e ∨ ∃ a, x = .ok a ∧ f a = .error e := by
  cases x with
  | error d =>
    refine ⟨fun h => by cases h; exact .inl rfl, ?_⟩
    rintro (h | ⟨_, h, _⟩) <;> cases h
    rfl
  | ok a =>
    refine ⟨fun h => .inr ⟨a, rfl, h⟩, ?_⟩
    rintro (h | ⟨_, h, he⟩) <;> cases h
    exact he

theorem map_eq_ok {ε α β : Type} {x : Except ε α} {f : α → β} {b : β} :
    x.map f = .ok b ↔ ∃ a, x = .ok a ∧ f a = b := by
  cases x with
  | error e => exact ⟨fun h => (by cases h), fun ⟨_, h, _⟩ => (by cases h)⟩
  | ok a => exact ⟨fun h => ⟨a, rfl, by cases h; rfl⟩, fun ⟨_, h, hb⟩ => by cases h; rw [← hb]; rfl⟩

theorem mapError_eq_ok {ε δ α : Type} {x : Except ε α} {f : ε → δ} {a : α} :
    x.mapError f = .ok a ↔ x = .ok a := by
  cases x with
  | error e => exact ⟨fun h => (by cases h), fun h => (by cases h)⟩
  | ok b => exact ⟨fun h => by cases h; rfl, fun h => by cases h; rfl⟩

theorem mapError_eq_error {ε δ α : Type} {x : Except ε α} {f : ε → δ} {d : δ} :
    x.mapError f = .error d ↔ ∃ e, x = .error e ∧ f e = d := by
  cases x with
  | error e => exact ⟨fun h => ⟨e, rfl, by cases h; rfl⟩, fun ⟨_, h, hd⟩ => by cases h; rw [← hd]; rfl⟩
  | ok a => exact ⟨fun h => (by cases h), fun ⟨_, h, _⟩ => (by cases h)⟩

/-- Outcomes are compared as options where they are evaluated. -/
theorem eq_ok_of_toOption {ε α : Type} {x : Except ε α} {a : α} (h : x.toOption = some a) : x = .ok a := by
  cases x with
  | error e => cases h
  | ok b => exact congrArg Except.ok (Option.some.inj h)

/-- What was computed of something that was read, which is there. -/
theorem exists_of_toOption_map {ε α β : Type} {x : Except ε α} {f : α → β} {b : β} (h : x.toOption.map f = some b) :
    ∃ a, x = .ok a ∧ f a = b := by
  obtain ⟨a, ha, hb⟩ := Option.map_eq_some_iff.1 h
  exact ⟨a, eq_ok_of_toOption ha, hb⟩

/-! ## Words -/

theorem wrap_eq (n : Nat) : wrap n = n % 2 ^ 64 := rfl

/-! ## Maps -/

namespace KeyMap

variable {α : Type}

theorem find?_of_mem {k : Bytes} {v : α} :
    ∀ {es : List (Bytes × α)}, es.Pairwise (fun a b => a.1 < b.1) → (k, v) ∈ es →
      es.find? (fun e => e.1 == k) = some (k, v)
  | e :: rest, h, hm => by
    rw [List.pairwise_cons] at h
    rw [List.find?_cons]
    rcases List.mem_cons.1 hm with rfl | hm
    · simp
    · have hne : (e.1 == k) = false := by
        rw [beq_eq_false_iff_ne]
        intro hk
        have hlt := h.1 _ hm
        rw [hk] at hlt
        exact List.lt_irrefl k hlt
      rw [hne]
      exact find?_of_mem h.2 hm

theorem find?_eq_some_iff {m : KeyMap α} {k : Bytes} {v : α} : m.find? k = some v ↔ (k, v) ∈ m.entries := by
  unfold find?
  constructor
  · intro h
    obtain ⟨e, he, rfl⟩ := Option.map_eq_some_iff.1 h
    have hk : e.1 = k := by simpa using List.find?_some he
    rw [← hk]
    exact List.mem_of_find?_eq_some he
  · intro h
    rw [find?_of_mem m.ordered h]
    rfl

theorem mem_values {m : KeyMap α} {v : α} : v ∈ m.values ↔ ∃ k, m.find? k = some v := by
  constructor
  · intro h
    obtain ⟨e, he, rfl⟩ := List.mem_map.1 h
    exact ⟨e.1, find?_eq_some_iff.2 he⟩
  · rintro ⟨k, h⟩
    exact List.mem_map.2 ⟨(k, v), find?_eq_some_iff.1 h, rfl⟩

end KeyMap

/-! ## Descriptors and code sets -/

/-- The sizes of a code are words. -/
structure Descriptor.Words (d : Descriptor) : Prop where
  hs_lt : d.hs < 2 ^ 64
  ss_lt : d.ss < 2 ^ 64
  fs_lt : ∀ {fs}, d.fs = some fs → fs < 2 ^ 64
  ls_lt : d.ls < 2 ^ 64

/-- Selector and digits are as many as a word counts. -/
def Descriptor.Fits (d : Descriptor) : Prop := d.hs + d.ss < 2 ^ 64

instance (d : Descriptor) : Decidable d.Fits := inferInstanceAs (Decidable (_ < _))

theorem Descriptor.Fits.cs_eq {d : Descriptor} (h : d.Fits) : d.cs = d.hs + d.ss := wrap_of_lt h

/-- The selector is a part of the code. -/
theorem Descriptor.Fits.hs_le_cs {d : Descriptor} (h : d.Fits) : d.hs ≤ d.cs := h.cs_eq ▸ Nat.le_add_right _ _

/-- What the checks of a code leave: sizes that fit each other, in a table whose leads have `lead` characters. -/
structure Descriptor.Sound (d : Descriptor) (lead : Nat) : Prop where
  words : d.Words
  ascii : Bytes.isAscii d.selector = true
  length_selector : d.selector.length = d.hs
  lead_le : lead ≤ d.hs
  os_le : d.os ≤ d.ss
  cs_mod : d.fs = none → d.cs % 4 = 0
  fs_mod : ∀ {fs}, d.fs = some fs → fs % 4 = 0
  cs_le : ∀ {fs}, d.fs = some fs → d.cs ≤ fs

/-- A code size that wraps around is less than the hard size. -/
theorem Descriptor.Sound.fits_of_le {d : Descriptor} {lead : Nat} (hd : d.Sound lead) (h : d.hs ≤ d.cs) : d.Fits := by
  have hhs := hd.words.hs_lt
  have hss := hd.words.ss_lt
  rw [cs, wrap_eq] at h
  unfold Fits
  omega

/-- How many characters a selector was cut out with. -/
theorem Descriptor.Sound.hs_of_take {d : Descriptor} {lead : Nat} (hd : d.Sound lead) {input : Bytes} {n : Nat}
    (hn : n ≤ input.length) (h : d.selector = input.take n) : n = d.hs := by
  rw [← hd.length_selector, h, List.length_take, Nat.min_eq_left hn]

theorem Descriptor.sound_of_fault? {d : Descriptor} {lead : Nat} (hd : d.Words) (h : d.fault? lead = none) :
    d.Sound lead := by
  unfold fault? at h
  split at h
  · cases h
  · next hsel =>
    simp only [Bool.or_eq_true, Bool.not_eq_true', decide_eq_true_eq, not_or, Bool.not_eq_false,
      ne_eq, Decidable.not_not, Nat.not_lt] at hsel
    obtain ⟨⟨hascii, hlen⟩, hlead⟩ := hsel
    rw [hlen] at hlead
    split at h
    · next hfs =>
      split at h
      · cases h
      split at h
      · cases h
      next hcs hos =>
      refine ⟨hd, hascii, hlen, hlead, by omega, fun _ => by omega, ?_, ?_⟩ <;>
      · intro fs hf
        rw [hfs] at hf
        cases hf
    · next fs hfs =>
      split at h
      · cases h
      split at h
      · cases h
      next hsize hos =>
      simp only [Bool.or_eq_true, decide_eq_true_eq, not_or, Nat.not_lt, ne_eq,
        Decidable.not_not] at hsize
      refine ⟨hd, hascii, hlen, hlead, by omega, fun hn => (by rw [hfs] at hn; cases hn), ?_, ?_⟩ <;>
      · intro fs' hf
        rw [hfs] at hf
        cases hf
        omega

/-- **What a set promises**: a code is found under its own selector, is sound and has `P`, and the characters that lead
to it announce its hard size. -/
structure CodeSet.Sound (s : CodeSet) (lead : Nat) (P : Descriptor → Prop) : Prop where
  selector_eq : ∀ {k d}, s.codes.find? k = some d → d.selector = k
  sound : ∀ {k d}, s.codes.find? k = some d → d.Sound lead
  property : ∀ {k d}, s.codes.find? k = some d → P d
  hardSize : ∀ {k d}, s.codes.find? k = some d → s.hardSizes.find? (k.take lead) = some d.hs

namespace CodeSet

theorem sound_empty (lead : Nat) (P : Descriptor → Prop) : empty.Sound lead P := by
  constructor <;> exact fun h => (by cases h)

variable {s t : CodeSet} {lead : Nat} {d : Descriptor}

/-- The hard size of the lead is new, or it is the one that was there. -/
theorem insert_eq_ok (h : s.insert lead d = .ok t) :
    d.fault? lead = none ∧ (∀ {hs}, s.hardSizes.find? (d.selector.take lead) = some hs → hs = d.hs) ∧
      t.codes = s.codes.insert d.selector d ∧
      ∀ key, t.hardSizes.find? key = if key = d.selector.take lead then some d.hs else s.hardSizes.find? key := by
  unfold CodeSet.insert at h
  split at h
  · cases h
  next hfault =>
  dsimp only at h
  split at h
  · next hnone =>
    cases h
    exact ⟨hfault, fun hsome => (by rw [hnone] at hsome; cases hsome), rfl, fun key => KeyMap.find?_insert ..⟩
  next hs hlead =>
  split at h
  · cases h
  next heq =>
  rw [ne_eq, Decidable.not_not] at heq
  cases h
  refine ⟨hfault, fun hsome => (Option.some.inj (hlead.symm.trans hsome)).symm.trans heq, rfl, fun key => ?_⟩
  split
  · next hkey => rw [hkey, hlead, heq]
  · rfl

/-- A code that is taken in leaves the set sound. -/
theorem Sound.insert {P : Descriptor → Prop} (hs : s.Sound lead P) (hd : d.Words ∧ P d)
    (h : s.insert lead d = .ok t) : t.Sound lead P := by
  obtain ⟨hfault, hsame, hcodes, hleads⟩ := insert_eq_ok h
  have hds := Descriptor.sound_of_fault? hd.1 hfault
  have hfind : ∀ {k e}, t.codes.find? k = some e → (k = d.selector ∧ e = d) ∨ s.codes.find? k = some e := by
    intro k e he
    rw [hcodes, KeyMap.find?_insert] at he
    split at he
    · next hk =>
      cases he
      exact .inl ⟨hk, rfl⟩
    · exact .inr he
  constructor
  · intro k e he
    rcases hfind he with ⟨rfl, rfl⟩ | he
    · rfl
    · exact hs.selector_eq he
  · intro k e he
    rcases hfind he with ⟨rfl, rfl⟩ | he
    · exact hds
    · exact hs.sound he
  · intro k e he
    rcases hfind he with ⟨rfl, rfl⟩ | he
    · exact hd.2
    · exact hs.property he
  · intro k e he
    rw [hleads]
    split
    · next hkey =>
      rcases hfind he with ⟨rfl, rfl⟩ | he
      · rfl
      · exact congrArg some (hsame (hkey ▸ hs.hardSize he)).symm
    · next hkey =>
      rcases hfind he with ⟨rfl, rfl⟩ | he
      · exact absurd rfl hkey
      · exact hs.hardSize he

end CodeSet

/-! ## Tables -/

theorem SizeEntry.words_primitive (e : SizeEntry) (code : Bytes) (name : Option String) (kind : CodeKind) :
    (e.primitive code name kind).Words where
  hs_lt := e.hs.toNat_lt
  ss_lt := e.ss.toNat_lt
  fs_lt := fun h => by
    obtain ⟨fs, -, rfl⟩ := Option.map_eq_some_iff.1 h
    exact fs.toNat_lt
  ls_lt := e.ls.toNat_lt

/-- The codes of fixed size have their full size, those of variable size have none. -/
def Descriptor.IsPrimitive (d : Descriptor) : Prop :=
  (d.kind = .variableSize ∧ d.fs = none) ∨ ((d.kind = .fixedSize ∨ d.kind = .indexer) ∧ d.fs.isSome = true)

theorem Descriptor.IsPrimitive.kind_ne {d : Descriptor} (h : d.IsPrimitive) :
    d.kind ≠ .counter ∧ d.kind ≠ .version := by
  rcases h with ⟨hk, -⟩ | ⟨hk | hk, -⟩ <;> rw [hk] <;> decide

def Descriptor.IsCounter (d : Descriptor) : Prop :=
  d.selector.head? = some counterStart ∧ (d.kind = .counter ∨ d.kind = .version) ∧
    ¬(d.frame = true ∧ d.multiplier.isSome = true)

namespace Tables

theorem sound_of_foldlM {lead : Nat} {describe : Bytes → SizeEntry → Except TableError Descriptor}
    {P : Descriptor → Prop} (hP : ∀ code e d, describe code e = .ok d → d.Words ∧ P d) :
    ∀ (entries : List (Bytes × SizeEntry)) {s t : CodeSet}, s.Sound lead P →
      entries.foldlM (fun s e => do s.insert lead (← describe e.1 e.2)) s = .ok t → t.Sound lead P
  | [], _, _, hs, h => by
    cases h
    exact hs
  | e :: rest, s, t, hs, h => by
    rw [List.foldlM_cons, bind_eq_ok] at h
    obtain ⟨u, hu, h⟩ := h
    obtain ⟨d, hd, hu⟩ := bind_eq_ok.1 hu
    exact sound_of_foldlM hP rest (hs.insert (hP _ _ _ hd) hu) h

theorem codeSet_sound {lead : Nat} {describe : Bytes → SizeEntry → Except TableError Descriptor}
    {P : Descriptor → Prop} (hP : ∀ code e d, describe code e = .ok d → d.Words ∧ P d)
    {entries : List (Bytes × SizeEntry)} {s : CodeSet} (h : codeSet lead describe entries = .ok s) : s.Sound lead P :=
  sound_of_foldlM hP entries (CodeSet.sound_empty lead P) h

theorem words_and_isPrimitive_of_matter (codex : Codex) (code : Bytes) (e : SizeEntry) (d : Descriptor)
    (h : matterDescriptor codex code e = .ok d) : d.Words ∧ d.IsPrimitive := by
  cases h
  refine ⟨e.words_primitive .., ?_⟩
  cases hfs : e.fs with
  | none => exact .inl ⟨by simp [SizeEntry.primitive, hfs], by simp [SizeEntry.primitive, hfs]⟩
  | some fs => exact .inr ⟨.inl (by simp [SizeEntry.primitive, hfs]), by simp [SizeEntry.primitive, hfs]⟩

theorem words_and_isPrimitive_of_indexer (codex : Codex) (code : Bytes) (e : SizeEntry) (d : Descriptor)
    (h : indexerDescriptor codex code e = .ok d) : d.Words ∧ d.IsPrimitive := by
  unfold indexerDescriptor at h
  split at h
  · cases h
  next hfs =>
  cases h
  refine ⟨e.words_primitive .., ?_⟩
  exact .inr ⟨.inr rfl, by simpa [SizeEntry.primitive, Option.isSome_iff_ne_none] using hfs⟩

/-- A counter starts as one, and its entry does not frame and multiply at once. -/
theorem counterDescriptor_eq_ok {codex : Codex} {counters : KeyMap CounterEntry} {code : Bytes} {e : SizeEntry}
    {d : Descriptor} {entry : CounterEntry} (hentry : (counters.find? code).getD {} = entry) :
    counterDescriptor codex counters code e = .ok d ↔
      code.head? = some counterStart ∧ 2 ≤ code.length ∧ ¬(entry.frame = true ∧ entry.multiplier.isSome = true) ∧
        { e.primitive code (entry.name.or (codex.counter.find? code))
            (if entry.version then .version else .counter) with
          multiplier := entry.multiplier
          frame := entry.frame
          context := entry.context } = d := by
  unfold counterDescriptor
  rw [hentry]
  split
  · next hstart =>
    simp only [ne_eq, Bool.or_eq_true, decide_eq_true_eq] at hstart
    refine ⟨fun h => (by cases h), fun ⟨hhead, hlen, _⟩ => ?_⟩
    rcases hstart with hstart | hstart
    · exact absurd hhead hstart
    · omega
  next hstart =>
  simp only [ne_eq, Bool.or_eq_true, decide_eq_true_eq, not_or, Decidable.not_not, Nat.not_lt] at hstart
  dsimp only
  split
  · next hboth =>
    rw [Bool.and_eq_true] at hboth
    exact ⟨fun h => (by cases h), fun ⟨_, _, hnot, _⟩ => absurd hboth hnot⟩
  next hboth =>
  rw [Bool.and_eq_true] at hboth
  simp [hstart, hboth]

theorem words_and_isCounter_of_counter (codex : Codex) (counters : KeyMap CounterEntry) (code : Bytes) (e : SizeEntry)
    (d : Descriptor) (h : counterDescriptor codex counters code e = .ok d) : d.Words ∧ d.IsCounter := by
  obtain ⟨hhead, -, hboth, rfl⟩ := (counterDescriptor_eq_ok rfl).1 h
  obtain ⟨hs_lt, ss_lt, fs_lt, ls_lt⟩ := e.words_primitive code none .counter
  refine ⟨⟨hs_lt, ss_lt, fs_lt, ls_lt⟩, hhead, ?_, hboth⟩
  show (if _ then CodeKind.version else CodeKind.counter) = _ ∨ (if _ then CodeKind.version else CodeKind.counter) = _
  split
  · exact .inr rfl
  · exact .inl rfl

/-- What tables promise, whatever documents they come from. -/
structure Sound (t : Tables) : Prop where
  matter : t.matter.Sound 1 Descriptor.IsPrimitive
  indexer : t.indexer.Sound 1 Descriptor.IsPrimitive
  counter : t.counter.Sound 2 Descriptor.IsCounter

/-- **Tables that were put together are sound.** -/
theorem sound_of_ofDocuments {sizes : Sizes} {codex : Codex} {counters : KeyMap CounterEntry} {t : Tables}
    (h : ofDocuments sizes codex counters = .ok t) : t.Sound := by
  unfold ofDocuments at h
  obtain ⟨matter, hm, h⟩ := bind_eq_ok.1 h
  obtain ⟨indexer, hi, h⟩ := bind_eq_ok.1 h
  obtain ⟨counter, hc, h⟩ := bind_eq_ok.1 h
  split at h
  · cases h
  cases h
  exact ⟨codeSet_sound (words_and_isPrimitive_of_matter codex) hm,
    codeSet_sound (words_and_isPrimitive_of_indexer codex) hi,
    codeSet_sound (words_and_isCounter_of_counter codex counters) hc⟩

end Tables

/-! ## Registries -/

namespace Registry

/-- The tables of the registry were put together from documents, and so were those of its contexts. -/
inductive Loaded : Registry → Prop where
  | intro {r : Registry} (sizes : Sizes) (codex : Codex) (counters : KeyMap CounterEntry)
    (tables : Tables.ofDocuments sizes codex counters = .ok r.tables)
    (contexts : ∀ cs, r.contexts = some cs → ∀ c ∈ cs, Loaded c.2) : Loaded r

variable {r : Registry}

theorem Loaded.sound (h : r.Loaded) : r.tables.Sound := by
  obtain ⟨_, _, _, tables, _⟩ := h
  exact Tables.sound_of_ofDocuments tables

theorem loaded_ofTables {sizes : Sizes} {codex : Codex} {counters : KeyMap CounterEntry} {t : Tables}
    (h : Tables.ofDocuments sizes codex counters = .ok t) (name : String) : (ofTables t name).Loaded :=
  ⟨sizes, codex, counters, h, fun _ hcs _ hc => by cases hcs; cases hc⟩

theorem loaded_ofJson {sizes codex counter : String} (h : ofJson sizes codex counter = .ok r) : r.Loaded := by
  obtain ⟨t, ht, rfl⟩ := map_eq_ok.1 h
  unfold Tables.ofJson at ht
  obtain ⟨_, -, ht⟩ := bind_eq_ok.1 ht
  obtain ⟨_, -, ht⟩ := bind_eq_ok.1 ht
  obtain ⟨_, -, ht⟩ := bind_eq_ok.1 ht
  exact loaded_ofTables ht _

theorem ofDocuments_keriV1 : Tables.ofDocuments KeriV1.sizes KeriV1.codex KeriV1.counters = .ok KeriV1.tables := by
  unfold KeriV1.tables
  split
  assumption

theorem loaded_keriV1 : keriV1.Loaded := loaded_ofTables ofDocuments_keriV1 _

theorem Loaded.withView (h : r.Loaded) (view : View) : (r.withView view).Loaded := by
  obtain ⟨sizes, codex, counters, tables, contexts⟩ := h
  exact ⟨sizes, codex, counters, tables, contexts⟩

theorem Loaded.named (h : r.Loaded) (name : String) : (r.named name).Loaded := by
  obtain ⟨sizes, codex, counters, tables, contexts⟩ := h
  exact ⟨sizes, codex, counters, tables, contexts⟩

theorem Loaded.withContext (h : r.Loaded) (name : String) {context : Registry} (hc : context.Loaded) :
    (r.withContext name context).Loaded := by
  obtain ⟨sizes, codex, counters, tables, contexts⟩ := h
  refine ⟨sizes, codex, counters, tables, fun cs hcs c hmem => ?_⟩
  obtain ⟨ds, hds, rfl⟩ := Option.map_eq_some_iff.1 hcs
  rcases List.mem_cons.1 hmem with rfl | hmem
  · exact hc
  · exact contexts ds hds c ((List.mem_filter.1 hmem).1)

/-- A context of a loaded registry is loaded. -/
theorem Loaded.context (h : r.Loaded) {name : String} {context : Registry} (hc : r.context name = .ok context) :
    context.Loaded := by
  unfold Registry.context at hc
  split at hc
  · cases hc
  next cs hcs =>
  split at hc
  · cases hc
    exact h.withView _
  split at hc
  · cases hc
    exact h.withView _
  split at hc
  · next found hfound =>
    cases hc
    obtain ⟨_, _, _, _, contexts⟩ := h
    obtain ⟨l, _, heq, -⟩ := List.lookup_eq_some_iff.1 hfound
    exact contexts cs hcs (name, context) (by rw [heq]; simp)
  · cases hc

theorem Loaded.primitives (h : r.Loaded) : r.primitives.Sound 1 Descriptor.IsPrimitive := by
  unfold Registry.primitives
  cases r.view with
  | matter => exact h.sound.matter
  | indexer => exact h.sound.indexer

/-! ## Looking up -/

theorem lookup_primitive {selector : Bytes} (hs : selector.head? ≠ some counterStart) {d : Descriptor} :
    r.lookup selector = .ok d ↔ r.primitives.codes.find? selector = some d := by
  unfold lookup
  rw [if_neg hs]
  cases r.primitives.codes.find? selector with
  | none => exact ⟨fun h => (by cases h), fun h => (by cases h)⟩
  | some e => simp

theorem lookup_counter {selector : Bytes} (hs : selector.head? = some counterStart) {d : Descriptor} :
    r.lookup selector = .ok d ↔ r.tables.counter.codes.find? selector = some d := by
  unfold lookup
  rw [if_pos hs]
  cases r.tables.counter.codes.find? selector with
  | none => exact ⟨fun h => (by cases h), fun h => (by cases h)⟩
  | some e => simp

/-- Whatever is looked up is sound, and found under its own selector. -/
theorem sound_of_lookup (hr : r.Loaded) {selector : Bytes} {d : Descriptor} (h : r.lookup selector = .ok d) :
    d.selector = selector ∧ ∃ lead, d.Sound lead := by
  by_cases hstart : selector.head? = some counterStart
  · have hfind := (lookup_counter hstart).1 h
    exact ⟨hr.sound.counter.selector_eq hfind, 2, hr.sound.counter.sound hfind⟩
  · have hfind := (lookup_primitive hstart).1 h
    exact ⟨hr.primitives.selector_eq hfind, 1, hr.primitives.sound hfind⟩

/-- The code that a selector is looked up as does not wrap around. -/
def FitsAt (r : Registry) (selector : Bytes) : Prop := ∀ {d}, r.lookup selector = .ok d → d.Fits

/-- The size of a primitive's selector is asked for with its first character. -/
theorem selectorSize_primitive {first : UInt8} (rest : Bytes) (hf : first ≠ counterStart) {hs : Nat} :
    r.selectorSize (first :: rest) = .ok hs ↔ first ≠ opStart ∧ r.primitiveHardSize first = some hs := by
  simp only [selectorSize, if_neg hf]
  by_cases ho : first = opStart
  · rw [if_pos ho]
    exact ⟨fun h => (by cases h), fun h => absurd ho h.1⟩
  · rw [if_neg ho]
    cases r.primitiveHardSize first with
    | none => exact ⟨fun h => (by cases h), fun h => (by cases h.2)⟩
    | some n => simp [ho]

/-- The size of a counter's selector is asked for with its first two characters. -/
theorem selectorSize_counter {input : Bytes} (hf : input.head? = some counterStart) {hs : Nat} :
    r.selectorSize input = .ok hs ↔ 2 ≤ input.length ∧ r.counterHardSize (input.take 2) = some hs := by
  match input, hf with
  | [first], h =>
    cases h
    exact ⟨fun h => (by cases h), fun h => absurd h.1 (by decide)⟩
  | first :: second :: rest, h =>
    cases h
    simp only [selectorSize, if_true, List.length_cons, List.take_succ_cons, List.take_zero]
    cases r.counterHardSize [counterStart, second] with
    | none => exact ⟨fun h => (by cases h), fun h => (by cases h.2)⟩
    | some n => simp

end Registry

/-! ## A code that wraps around -/

/-- The sizes of a code with more digits than a word counts beside the selector. -/
def wrappingSizes : String := "\x7b\"Matter\":\x7b\"A\":\x7b\"hs\":1,\"ss\":18446744073709551615,\"fs\":4\x7d\x7d\x7d"

/-- Tables are accepted with such a code; its code size is zero. -/
theorem exists_wrapping :
    ∃ r, Registry.ofJson wrappingSizes "\x7b\x7d" "\x7b\x7d" = .ok r ∧
      r.descriptors = [⟨Bytes.ofString "A", none, .fixedSize, 1, 2 ^ 64 - 1, 0, some 4, 0, none, false, none⟩] := by
  have hmade : (Registry.ofJson wrappingSizes "\x7b\x7d" "\x7b\x7d").toOption.map (fun r => r.descriptors) =
      some [⟨Bytes.ofString "A", none, .fixedSize, 1, 2 ^ 64 - 1, 0, some 4, 0, none, false, none⟩] := by decide +kernel
  obtain ⟨r, hr, hdescriptors⟩ := exists_of_toOption_map hmade
  exact ⟨r, hr, hdescriptors⟩

/-! ## The KERI v1 tables -/

def inView (view : View) : Registry := Registry.keriV1.withView view

theorem loaded_inView (view : View) : (inView view).Loaded := Registry.loaded_keriV1.withView view

/-- They name no contexts but the two views. -/
theorem context_inView {view : View} {name : String} {r : Registry} (h : (inView view).context name = .ok r) :
    ∃ other, r = inView other := by
  have hcontexts : (inView view).contexts = some [] := rfl
  unfold Registry.context at h
  rw [hcontexts] at h
  dsimp only at h
  split at h
  · cases h
    exact ⟨.matter, rfl⟩
  split at h
  · cases h
    exact ⟨.indexer, rfl⟩
  · cases h

end Quadlet
