import Quadlet.Proofs.Framing
/-!
# More codes — what a registry reads, every registry with its codes reads the same

A code that is added takes nothing away: the selector of a value that was read still stands for the same descriptor
(`ExtendedBy.lookup`), and the characters that led to its hard size still do, for the sets of a loaded registry have one
hard size for each lead (`ExtendedBy.selectorSize_eq`).  So values are carried over as they are (`ExtendedBy.coded`,
`ExtendedBy.sniff`), the primitives inside of seal triples among them.  What is not read may be read with more codes.
-/
namespace Quadlet

/-- Every code of a set is one of the other, with the same descriptor. -/
def CodeSet.ExtendedBy (s t : CodeSet) : Prop := ∀ d ∈ s.codes.values, d ∈ t.codes.values

theorem CodeSet.ExtendedBy.find? {s t : CodeSet} {lead : Nat} {P : Descriptor → Prop} (h : s.ExtendedBy t)
    (hs : s.Sound lead P) (ht : t.Sound lead P) {selector : Bytes} {d : Descriptor}
    (hd : s.codes.find? selector = some d) : t.codes.find? selector = some d := by
  obtain ⟨k, hk⟩ := KeyMap.mem_values.1 (h d (KeyMap.mem_values.2 ⟨_, hd⟩))
  have hsame : k = selector := (ht.selector_eq hk).symm.trans (hs.selector_eq hd)
  rwa [hsame] at hk

/-- **The codes of `r` are among those of `q`**, in the same view and with the same registered contexts. -/
structure Registry.ExtendedBy (r q : Registry) : Prop where
  matter : r.tables.matter.ExtendedBy q.tables.matter
  indexer : r.tables.indexer.ExtendedBy q.tables.indexer
  counter : r.tables.counter.ExtendedBy q.tables.counter
  view_eq : q.view = r.view
  contexts_eq : ∀ name, q.contexts.map (List.lookup name) = r.contexts.map (List.lookup name)

namespace Registry

variable {r q : Registry}

theorem ExtendedBy.refl (r : Registry) : r.ExtendedBy r :=
  ⟨fun _ hd => hd, fun _ hd => hd, fun _ hd => hd, rfl, fun _ => rfl⟩

theorem ExtendedBy.withView (h : r.ExtendedBy q) (view : View) : (r.withView view).ExtendedBy (q.withView view) :=
  ⟨h.matter, h.indexer, h.counter, rfl, h.contexts_eq⟩

theorem ExtendedBy.primitives (h : r.ExtendedBy q) : r.primitives.ExtendedBy q.primitives := by
  unfold Registry.primitives
  rw [h.view_eq]
  cases r.view with
  | matter => exact h.matter
  | indexer => exact h.indexer

/-- A context of the smaller registry is one of the larger: its own view with more codes, or the same registered one. -/
theorem ExtendedBy.context (h : r.ExtendedBy q) {name : String} {c : Registry} (hc : r.context name = .ok c) :
    ∃ e, q.context name = .ok e ∧ c.ExtendedBy e := by
  have hsame := h.contexts_eq name
  unfold Registry.context at hc ⊢
  cases hr : r.contexts with
  | none =>
    rw [hr] at hc
    cases hc
  | some cs =>
    cases hq : q.contexts with
    | none =>
      rw [hr, hq] at hsame
      cases hsame
    | some es =>
      rw [hr, hq] at hsame
      have hlookup : es.lookup name = cs.lookup name := Option.some.inj hsame
      rw [hr] at hc
      dsimp only at hc ⊢
      split at hc
      · next hname =>
        cases hc
        exact ⟨_, if_pos hname, h.withView .matter⟩
      next hmatter =>
      rw [if_neg hmatter]
      split at hc
      · next hname =>
        cases hc
        exact ⟨_, if_pos hname, h.withView .indexer⟩
      next hindexer =>
      rw [if_neg hindexer, hlookup]
      split at hc
      · cases hc
        exact ⟨_, rfl, ExtendedBy.refl _⟩
      · cases hc

section Codes

variable (hr : r.Loaded) (hq : q.Loaded) (h : r.ExtendedBy q)
include hr hq h

theorem ExtendedBy.lookup {selector : Bytes} {d : Descriptor} (hd : r.lookup selector = .ok d) :
    q.lookup selector = .ok d := by
  by_cases hstart : selector.head? = some counterStart
  · rw [lookup_counter hstart] at hd ⊢
    exact h.counter.find? hr.sound.counter hq.sound.counter hd
  · rw [lookup_primitive hstart] at hd ⊢
    exact h.primitives.find? hr.primitives hq.primitives hd

/-- The first two characters of a counter that is known lead to its hard size among more codes too. -/
theorem ExtendedBy.selectorSize_eq {input : Bytes} (hstart : input.head? = some counterStart) {hs : Nat}
    (hlen : hs ≤ input.length) {d : Descriptor} (hd : r.lookup (input.take hs) = .ok d) :
    q.selectorSize input = .ok hs := by
  obtain ⟨rfl, hsound, -⟩ := counter_descriptor hr hstart hlen hd
  have htwo : 2 ≤ d.hs := hsound.lead_le
  have hhead : (input.take d.hs).head? = some counterStart := by
    rw [List.head?_take, if_neg (by omega)]
    exact hstart
  have hfind := (lookup_counter hhead).1 (h.lookup hr hq hd)
  have hsize := hq.sound.counter.hardSize hfind
  rw [List.take_take, Nat.min_eq_left htwo] at hsize
  exact (selectorSize_counter hstart).2 ⟨Nat.le_trans htwo hlen, hsize⟩

/-! ## Primitives and counters -/

variable {input : Bytes}

theorem ExtendedBy.primitive {p : Primitive} (hp : Primitive.extract r input = .ok p) :
    Primitive.extract q input = .ok p := by
  obtain ⟨d, hlookup, hfind⟩ := Primitive.lookup_of_extract hp
  obtain ⟨hs, e, hhs, hselector, hd, hrest⟩ := Primitive.extract_eq_ok_iff_steps.1 hp
  obtain rfl := Except.ok.inj (hlookup.symm.trans hd)
  obtain ⟨first, hfirst, hcounter, hop, -⟩ := Primitive.hardSize_eq_ok.1 hhs
  obtain ⟨hlen, -, hsel⟩ := codeText_eq_ok.1 hselector
  have hsound := hr.primitives.sound hfind
  obtain rfl : hs = d.hs := hsound.hs_of_take hlen ((hr.primitives.selector_eq hfind).trans hsel)
  have hpos := hsound.lead_le
  -- the character that led to the hard size is that of the selector, so it does among more codes
  have hsize := hq.primitives.hardSize (h.primitives.find? hr.primitives hq.primitives hfind)
  have hlead : p.selector.take 1 = [first] := by
    rw [hsel, List.take_take, Nat.min_eq_left hpos]
    cases input with
    | nil => cases hfirst
    | cons c rest =>
      cases hfirst
      rfl
  rw [hlead] at hsize
  exact Primitive.extract_eq_ok_iff_steps.2 ⟨d.hs, d, Primitive.hardSize_eq_ok.2 ⟨first, hfirst, hcounter, hop, hsize⟩,
    hselector, h.lookup hr hq hd, hrest⟩

theorem ExtendedBy.counted {c : Counter} (hc : Counter.extract r input = .ok c) : Counter.extract q input = .ok c := by
  obtain ⟨hs, hstart, -, hselector, hd, hrest⟩ := Counter.extract_eq_ok_iff_steps.1 hc
  obtain ⟨hlen, -, htake⟩ := codeText_eq_ok.1 hselector
  have hsize := h.selectorSize_eq hr hq hstart hlen (htake ▸ hd)
  exact Counter.extract_eq_ok_iff_steps.2 ⟨hs, hstart, hsize, hselector, h.lookup hr hq hd, hrest⟩

theorem ExtendedBy.triples : ∀ (n : Nat) {input : Bytes} {found : List SealTriple × Nat},
    SealTriples.extractTriples r n input = .ok found → SealTriples.extractTriples q n input = .ok found
  | 0, _, _, ht => ht
  | n + 1, input, found, ht => by
    unfold SealTriples.extractTriples at ht ⊢
    obtain ⟨identifier, h1, ht⟩ := bind_eq_ok.1 ht
    obtain ⟨sequence, h2, ht⟩ := bind_eq_ok.1 ht
    obtain ⟨digest, h3, ht⟩ := bind_eq_ok.1 ht
    obtain ⟨rest, h4, ht⟩ := bind_eq_ok.1 ht
    simp only [bind_eq_ok]
    exact ⟨identifier, h.primitive hr hq h1, sequence, h.primitive hr hq h2, digest, h.primitive hr hq h3, rest,
      ExtendedBy.triples n h4, ht⟩

theorem ExtendedBy.counterLength {c : CodeHeader} {n : Nat} (hn : Value.counterLength r input c = .ok n) :
    Value.counterLength q input c = .ok n := by
  unfold Value.counterLength at hn ⊢
  split at hn
  · next hname =>
    rw [if_pos hname]
    obtain ⟨t, ht, hlength⟩ := Value.sealTriplesLength_eq_ok.1 hn
    refine Value.sealTriplesLength_eq_ok.2 ⟨t, ?_, hlength⟩
    unfold SealTriples.extract at ht ⊢
    obtain ⟨counter, hc, ht⟩ := bind_eq_ok.1 ht
    obtain ⟨found, hfound, ht⟩ := bind_eq_ok.1 ht
    simp only [bind_eq_ok]
    exact ⟨counter, h.counted hr hq hc, found, h.triples hr hq _ hfound, ht⟩
  · next hname =>
    rw [if_neg hname]
    exact hn

/-! ## Values -/

/-- **A value with a code is read the same among more codes.** -/
theorem ExtendedBy.coded {v : Value} (hv : Value.coded r input = .ok v) : Value.coded q input = .ok v := by
  unfold Value.coded at hv ⊢
  split at hv
  · next hstart =>
    rw [if_pos hstart]
    obtain ⟨hs, selector, d, text, c, -, hselector, hd, htext, hc, hlength, hle, hval⟩ :=
      Value.counter_eq_ok_iff_steps.1 hv
    obtain ⟨hlen, -, htake⟩ := Value.leadingText_eq_ok.1 hselector
    have hsize := h.selectorSize_eq hr hq hstart hlen (htake ▸ hd)
    exact Value.counter_eq_ok_iff_steps.2 ⟨hs, selector, d, text, c, hsize, hselector, h.lookup hr hq hd, htext, hc,
      h.counterLength hr hq hlength, hle, hval⟩
  · next hstart =>
    rw [if_neg hstart]
    obtain ⟨p, d, c, hp, hd, hc, hval⟩ := Value.primitive_eq_ok_iff_steps.1 hv
    exact Value.primitive_eq_ok_iff_steps.2 ⟨p, d, c, h.primitive hr hq hp, h.lookup hr hq hd, hc, hval⟩

/-- **So is what stands at the start of a span of which nothing is known.** -/
theorem ExtendedBy.sniff {v : Value} (hv : Value.sniff r input = .ok v) : Value.sniff q input = .ok v := by
  cases input with
  | nil => cases hv
  | cons first rest =>
    rw [Value.sniff_of_head? rfl] at hv ⊢
    cases hcold : ColdStart.ofByte first with
    | countText =>
      rw [hcold] at hv
      exact h.coded hr hq hv
    | _ =>
      rw [hcold] at hv
      exact hv

end Codes

end Registry
end Quadlet
