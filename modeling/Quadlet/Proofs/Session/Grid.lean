import Quadlet.Proofs.Session.Contexts
import Quadlet.Proofs.Sizing
/-!
# The grid — which values consume whole quadlets

The loader asks for a full size of whole quadlets, and for a code of whole quadlets only where there is no full size.
So primitives, and version codes, always stand on the grid: they consume their full size, or a code of whole quadlets
and as many as it counts.  What a counter consumes begins with its code and goes on in whole quadlets, if at all, so it
is on the grid where its code is (`Grid.consumed`); and a group consumes its code only, while its span is its full size
(`Grid.group`).
-/
namespace Quadlet

variable {r : Registry} {input : Bytes}

/-- A code that is not of whole quadlets has a full size. -/
theorem Descriptor.Sound.fs_of_not_dvd {d : Descriptor} {lead : Nat} (hd : d.Sound lead) (h : ¬4 ∣ d.cs) :
    d.fs.isSome = true := by
  rw [Option.isSome_iff_ne_none]
  exact fun hnone => h (Nat.dvd_of_mod_eq_zero (hd.cs_mod hnone))

/-! ## Rows -/

theorem Primitive.dvd_totalLength (hr : r.Loaded) {p : Primitive} (hp : extract r input = .ok p) :
    4 ∣ p.totalLength := by
  obtain ⟨_, d, -, -, hd, -, -, htotal, -⟩ := extract_eq_ok_iff_steps.1 hp
  obtain ⟨-, _, hsound⟩ := Registry.sound_of_lookup hr hd
  exact Nat.dvd_of_mod_eq_zero (grid_of_extent hsound ((extent_eq_ok.1 htotal).imp_right fun h => ⟨h.1, h.2.2.2⟩)).1

theorem Row.dvd_length (hr : r.Loaded) :
    ∀ {members : List Primitive} {input : Bytes}, Row r members input → 4 ∣ rowLength members
  | [], _, _ => Nat.dvd_zero 4
  | p :: members, input, ⟨hp, hrow⟩ => by
    rw [rowLength_cons]
    exact Nat.dvd_add (Primitive.dvd_totalLength hr hp) (hrow.dvd_length hr)

/-! ## One value -/

/-- Whether a value is on the grid is up to its code: it is a counter, or a version code that is read as one. -/
def CodeHeader.GridByCode (h : CodeHeader) : Prop :=
  h.descriptor.kind = .counter ∨ h.descriptor.kind = .version ∧ h.descriptor.name = some Value.sealTriplesName

namespace Value

/-- **What a value with a code consumes**, in whole quadlets or not, and where the span of a group ends. -/
structure Grid (v : Value) (h : CodeHeader) : Prop where
  consumed : 4 ∣ v.consumed ↔ (h.GridByCode → 4 ∣ h.codeLength)
  fixed : ¬4 ∣ h.codeLength → h.descriptor.fs.isSome = true
  group : h.isGroup = true → h.descriptor.name ≠ some sealTriplesName →
    h.descriptor.fs = some v.length ∧ (v.stop = v.start + v.consumed ↔ h.descriptor.fs = some h.codeLength)

theorem stop_eq_iff (v : Value) : v.stop = v.start + v.consumed ↔ v.length = v.consumed := by
  rw [stop, Nat.add_left_cancel_iff]

theorem Grid.shift {v : Value} {h : CodeHeader} (hg : v.Grid h) (n : Nat) : (v.shift n).Grid h where
  consumed := hg.consumed
  fixed := hg.fixed
  group := fun hgroup hname => by
    obtain ⟨hfs, hends⟩ := hg.group hgroup hname
    rw [stop_eq_iff] at hends ⊢
    exact ⟨hfs, hends⟩

theorem grid_of_primitive (hr : r.Loaded) {v : Value} (hv : primitive r input = .ok v) :
    ∃ h, v.header = .code h ∧ v.Grid h := by
  obtain ⟨p, h, soft, hp, hc, -, -, rfl⟩ := canonical_of_primitive hr hv
  have hprimitive := hc.isPrimitive hr
  have hconsumed : consumed ⟨.code h, 0, p.totalLength⟩ = p.totalLength :=
    consumed_of_stay (.inr (Header.kind_of_isPrimitive hprimitive))
  refine ⟨h, rfl, ?_, (hc.facts hr).1.fs_of_not_dvd,
    fun hgroup => absurd (CodeHeader.kind_of_isGroup hgroup) hprimitive.kind_ne.1⟩
  have hfree : ¬h.GridByCode := fun hby => hby.elim hprimitive.kind_ne.1 (fun hby => hprimitive.kind_ne.2 hby.1)
  rw [hconsumed]
  exact iff_of_true (Primitive.dvd_totalLength hr hp) (fun hby => absurd hby hfree)

namespace CounterSteps

variable {v : Value} {h : CodeHeader}

/-- What a counter that opens nothing consumes. -/
theorem dvd_length (hr : r.Loaded) (hc : CounterSteps r input v h) (hgroup : h.isGroup = false) :
    4 ∣ v.length ↔ (h.GridByCode → 4 ∣ h.codeLength) := by
  by_cases hname : h.descriptor.name = some sealTriplesName
  · -- a row is of whole quadlets, so what is left of them is that of the code
    obtain ⟨count, members, -, -, hrow, hlength⟩ := hc.row hname
    have hby : h.GridByCode := hc.isCounter.2.1.imp_right (fun hk => ⟨hk, hname⟩)
    rw [hlength, Nat.dvd_add_left (hrow.dvd_length hr)]
    exact ⟨fun h _ => h, fun h => h hby⟩
  · rcases hc.fs_or_quadlets hname with ⟨hk | hk, hfs⟩ | ⟨hk, -, quadlets, hlength⟩
    · have hfree : ¬h.GridByCode := by simp [CodeHeader.GridByCode, hk, hname]
      exact iff_of_true (Nat.dvd_of_mod_eq_zero (hc.sound.fs_mod hfs)) (fun hby => absurd hby hfree)
    · rw [hgroup] at hk
      cases hk
    · rw [hlength, Nat.dvd_add_left (Nat.dvd_mul_right 4 quadlets)]
      exact ⟨fun h _ => h, fun h => h (.inl hk)⟩

theorem grid (hr : r.Loaded) (hc : CounterSteps r input v h) : v.Grid h := by
  have hheader : v.header = .code h := by rw [hc.value_eq]
  have hconsumed : v.consumed = if h.isFrame || h.isGroup then h.codeLength else v.length := by
    rw [consumed, hheader]
  refine ⟨?_, hc.sound.fs_of_not_dvd, fun hgroup hname => ?_⟩
  · rw [hconsumed]
    split
    · next hopens =>
      exact ⟨fun h _ => h, fun h => h (.inl (CodeHeader.kind_of_opens hopens))⟩
    · next hopens => exact hc.dvd_length hr (by simp_all)
  · have hfs : h.descriptor.fs = some v.length := by
      rcases hc.fs_or_quadlets hname with ⟨-, hfs⟩ | ⟨-, hnone, -⟩
      · exact hfs
      · rw [hgroup] at hnone
        cases hnone
    rw [hgroup, Bool.or_true, if_pos rfl] at hconsumed
    rw [stop_eq_iff, hconsumed, hfs]
    exact ⟨rfl, Option.some_inj.symm⟩

end CounterSteps

theorem grid_of_coded (hr : r.Loaded) {v : Value} (hv : coded r input = .ok v) :
    ∃ h, v.header = .code h ∧ v.Grid h := by
  unfold coded at hv
  split at hv
  · next hstart =>
    obtain ⟨h, hc⟩ := exists_counterSteps hr hstart hv
    exact ⟨h, by rw [hc.value_eq], hc.grid hr⟩
  · exact grid_of_primitive hr hv

theorem ReadFrom.grid {v u : Value} {q : Registry} {stop : Nat} (hread : v.ReadFrom u q input stop) (hq : q.Loaded)
    {h : CodeHeader} (hh : v.header = .code h) : v.Grid h := by
  obtain ⟨hu, hcoded⟩ := hread.coded hh
  obtain ⟨c, hc, hgrid⟩ := grid_of_coded hq hcoded
  rw [hu] at hc
  cases hc
  rw [hread.eq_shift]
  exact hgrid.shift _

end Value

namespace Session

/-- **What stands on the grid.**  Whatever tables were loaded and whatever the input is, a value with a code consumes
whole quadlets, unless it is a counter, or the version code of the triples, whose code is none; and such a code has a
full size.  The span of a group is the full size of its code, so it ends where its consumption ends if that is the size
of the code. -/
theorem grid_of_decode (hr : r.Loaded) (input : Bytes) :
    ∀ v ∈ (decode r input).1, ∀ h, v.header = .code h → v.Grid h := by
  obtain ⟨found, ending, last, hrun, hdecode⟩ := exists_run_start hr input
  rw [hdecode]
  intro v hv h hh
  obtain ⟨u, q, stop, -, hq, hread⟩ := hrun.readFrom (P := fun _ => True) (fun _ _ => trivial) (sound_start hr input)
    ⟨trivial, State.within_start _⟩ v hv
  exact hread.grid hq hh

/-- The counters of the KERI v1 tables have codes of whole quadlets, and their groups nothing else in the full size. -/
theorem counters_on_grid :
    ∀ d ∈ KeriV1.tables.counter.codes.values,
      4 ∣ d.cs ∧ (d.multiplier.isSome = true → d.name ≠ some Value.sealTriplesName → d.fs = some d.cs) := by
  decide +kernel

/-- **Over the KERI v1 tables everything with a code is on the grid**, and the span of a group does not overlap its first
member. -/
theorem dvd_consumed_keriV1 (input : Bytes) :
    ∀ v ∈ (decode .keriV1 input).1, ∀ h, v.header = .code h →
      4 ∣ v.consumed ∧ (h.isGroup = true → h.descriptor.name ≠ some Value.sealTriplesName →
        v.stop = v.start + v.consumed) := by
  intro v hv h hh
  obtain ⟨u, view, stop, hread⟩ := readFrom_of_decode input v hv
  obtain ⟨hu, hcoded⟩ := hread.coded hh
  have hgrid := hread.grid (loaded_inView view) hh
  have htable : h.descriptor.kind = .counter ∨ h.descriptor.kind = .version →
      h.descriptor ∈ KeriV1.tables.counter.codes.values := Value.mem_counters_of_coded (loaded_inView view) hcoded hu
  refine ⟨hgrid.consumed.2 (fun hby => ?_), fun hgroup hname => (hgrid.group hgroup hname).2.2 ?_⟩
  · exact (counters_on_grid _ (htable (hby.imp_right And.left))).1
  · have hk := CodeHeader.kind_of_isGroup hgroup
    have hmultiplier : h.descriptor.multiplier.isSome = true := by simpa [CodeHeader.isGroup, hk] using hgroup
    exact (counters_on_grid _ (htable (.inl hk))).2 hmultiplier hname

/-- Over the KERI v1 tables a group of two numbers consumes its code, and its span is no longer. -/
theorem grid_of_decode_group :
    ∃ v h, (decode .keriV1 (Bytes.ofString "-KAAMAAA")).1.head? = some v ∧ v.header = .code h ∧ v.Grid h ∧
      4 ∣ v.consumed ∧ v.stop = v.start + v.consumed := by
  have hfirst : (decode .keriV1 (Bytes.ofString "-KAAMAAA")).1.head?.bind (fun v => v.header.asCode?.map (fun h =>
      (h.isGroup, h.descriptor.name, h.descriptor.fs, h.codeLength))) =
        some (true, some "SadPathSigGroup", some 4, 4) := by decide +kernel
  obtain ⟨v, hv, hheader⟩ := Option.bind_eq_some_iff.1 hfirst
  obtain ⟨h, hh, hfacts⟩ := Option.map_eq_some_iff.1 hheader
  simp only [Prod.mk.injEq] at hfacts
  obtain ⟨hgroup, hname, hfs, hcode⟩ := hfacts
  have hheader := Header.asCode?_eq_some.1 hh
  have hgrid := grid_of_decode Registry.loaded_keriV1 (Bytes.ofString "-KAAMAAA") v (List.mem_of_mem_head? hv) h hheader
  refine ⟨v, h, hv, hheader, hgrid, hgrid.consumed.2 (fun _ => hcode ▸ Nat.dvd_refl 4), ?_⟩
  exact (hgrid.group hgroup (by rw [hname]; decide)).2.2 (by rw [hfs, hcode])

/-- The sizes of a number, and of a counter with a code of three characters and a full size of four. -/
def oddSizes : String :=
  "\x7b\"Matter\":\x7b\"M\":\x7b\"hs\":1,\"ss\":0,\"fs\":4\x7d\x7d," ++
    "\"Counter\":\x7b\"-A\":\x7b\"hs\":2,\"ss\":1,\"fs\":4\x7d\x7d\x7d"

/-- The counter announces as many values as its digit says. -/
def oddCounters : String := "\x7b\"Counter\":\x7b\"-A\":\x7b\"repeat\":\"x1\"\x7d\x7d\x7d"

/-- **A group whose code is shorter than its full size** consumes three bytes, and its span of four reaches into its
first member. -/
theorem not_grid_oddSizes :
    ∃ (r : Registry) (group leaf : Value) (h : CodeHeader), Registry.ofJson oddSizes "\x7b\x7d" oddCounters = .ok r ∧
      (decode r (Bytes.ofString "-ABMMAAA")).1 = [group, leaf] ∧ group.header = .code h ∧ h.isGroup = true ∧
      h.descriptor.name ≠ some Value.sealTriplesName ∧ ¬4 ∣ group.consumed ∧
      group.stop ≠ group.start + group.consumed ∧ leaf.start < group.stop := by
  have hload : (Registry.ofJson oddSizes "\x7b\x7d" oddCounters).toOption.map (fun r =>
      ((decode r (Bytes.ofString "-ABMMAAA")).1.map (fun v => (v.start, v.stop, v.consumed)),
        (decode r (Bytes.ofString "-ABMMAAA")).1.head?.bind (fun v => v.header.asCode?.map (fun h =>
          (h.isGroup, h.descriptor.name))))) =
      some ([(0, 4, 3), (3, 7, 4)], some (true, none)) := by decide +kernel
  obtain ⟨r, hr, hfacts⟩ := exists_of_toOption_map hload
  obtain ⟨hvalues, hfirst⟩ := Prod.mk.inj hfacts
  obtain ⟨group, vs, hcons, hgroup, hvalues⟩ := List.map_eq_cons_iff.1 hvalues
  obtain ⟨leaf, vs, rfl, hleaf, hvalues⟩ := List.map_eq_cons_iff.1 hvalues
  obtain rfl := List.map_eq_nil_iff.1 hvalues
  rw [hcons, List.head?_cons, Option.bind_some] at hfirst
  obtain ⟨h, hh, hheader⟩ := Option.map_eq_some_iff.1 hfirst
  obtain ⟨hisGroup, hname⟩ := Prod.mk.inj hheader
  simp only [Prod.mk.injEq] at hgroup hleaf
  obtain ⟨hstart, hstop, hconsumed⟩ := hgroup
  exact ⟨r, group, leaf, h, hr, hcons, Header.asCode?_eq_some.1 hh, hisGroup,
    by rw [hname]; decide, by rw [hconsumed]; decide, by omega, by omega⟩

end Session
end Quadlet
