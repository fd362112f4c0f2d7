import Quadlet.Proofs.Rendering
import Quadlet.Proofs.Session.Nesting
/-!
# Indentation — how much of the nesting the text tree shows

The line of a value begins with two spaces for each frame that is open beyond the root, and with two more when the value
is in a group (`nesting`).  So of the groups that enclose a value only one that is the innermost of all shows
(`indentation_eq`): behind a group in a group, and behind a frame in a group, the lines stand further left than the
nesting is deep, and the members of a group in a group stand below it and not to its right.
-/
namespace Quadlet
namespace Report

/-- The spaces that a line begins with. -/
def leadingSpaces (line : String) : Nat := (line.toList.takeWhile (· = ' ')).length

theorem head?_treeKindName (kind : ValueKind) : ∃ c cs, (treeKindName kind).toList = c :: cs ∧ c ≠ ' ' := by
  cases kind <;> exact ⟨_, _, rfl, by decide⟩

/-- The line itself begins with no space, so what is counted is the indentation. -/
theorem leadingSpaces_textLine (kind : ValueKind) (context : HookContext) (v : Value) :
    leadingSpaces (textLine kind context v) = 2 * nesting context := by
  obtain ⟨c, cs, hkind, hc⟩ := head?_treeKindName kind
  have hspaces : ∀ a ∈ List.replicate (2 * nesting context) ' ', decide (a = ' ') = true :=
    fun a ha => decide_eq_true (List.eq_of_mem_replicate ha)
  rw [leadingSpaces, textLine]
  simp only [String.toList_append, String.toList_ofList, hkind, List.append_assoc, List.cons_append]
  rw [List.takeWhile_append_of_pos hspaces, List.takeWhile_cons_of_neg (by simpa using hc), List.append_nil,
    List.length_replicate]

/-! ## Units -/

/-- The units by which the line of a value is indented that `outer` enclose, the innermost first: one for the innermost,
and one for each frame around that. -/
def units : List Value → Nat
  | [] => 0
  | _ :: outer => frameCount outer + 1

theorem units_le_length (outer : List Value) : units outer ≤ outer.length := by
  cases outer with
  | nil => exact Nat.le_refl 0
  | cons v outer => exact Nat.succ_le_succ List.countP_le_length

/-- The indentation is the nesting where there are only frames around the innermost value. -/
theorem units_eq_length {outer : List Value} : units outer = outer.length ↔ ∀ g ∈ outer.tail, g.kind = .frame := by
  cases outer with
  | nil => exact ⟨fun _ g hg => (by cases hg), fun _ => rfl⟩
  | cons v outer =>
    rw [units, List.length_cons, Nat.add_right_cancel_iff, frameCount, List.countP_eq_length]
    simp only [decide_eq_true_eq, List.tail_cons]

/-- A line is indented more than that of the value around it where this value is not in a group itself. -/
theorem units_lt_iff {v : Value} {outer : List Value} :
    units outer < units (v :: outer) ↔ ∀ g ∈ outer.head?, g.kind = .frame := by
  cases outer with
  | nil => exact ⟨fun _ g hg => (by cases hg), fun _ => Nat.succ_pos _⟩
  | cons w outer =>
    rw [units, units, frameCount_cons]
    simp only [List.head?_cons, Option.mem_def, Option.some.injEq, forall_eq']
    split <;> simp_all

theorem isSome_asGroup? (v : Value) : v.asGroup?.isSome = true ↔ v.kind = .group := by
  unfold Value.asGroup?
  split
  · next hk =>
    cases hheader : v.header with
    | version => rw [Value.kind, hheader] at hk; cases hk
    | code => simp [Header.asCode?, hk]
  · next hk => simp [hk]

/-- What a place says of the nesting, when only frames and groups enclose the value. -/
theorem nesting_inside {outer : List Value} (h : ∀ g ∈ outer, g.kind = .frame ∨ g.kind = .group) (v : Value) :
    (Place.inside outer v).depth - 1 + (if (Place.inside outer v).group.isSome then 1 else 0) = units outer := by
  cases outer with
  | nil => rfl
  | cons w outer =>
    simp only [Place.inside, List.head?_cons, Option.bind_some, isSome_asGroup?, units, frameCount_cons]
    rcases h w List.mem_cons_self with hw | hw <;> simp [hw]

/-! ## The text tree -/

/-- **How the text tree is indented.**  The values of an input, whether or not it is read to its end, are the preorder
of one forest, whole but for the trees left at the end of a frame or of the stream, and of no other.  Each line begins
with two spaces for every unit of its value: one for the innermost value that encloses it and one for every frame around
that.  So there are never more units than enclosing values, and as many when all but the innermost are frames; and a
line is indented more than that of the value around it just where the latter is not in a group itself. -/
theorem indentation_eq {r : Registry} (hr : r.Loaded) (input : Bytes) :
    ∃ (F : Forest) (cursor : Nat), F.preorder = (Session.decode r input).1 ∧ F.Grows true 0 cursor ∧
      (∀ (G : Forest) (n : Nat), G.preorder = (Session.decode r input).1 → G.Grows true 0 n → G = F) ∧
      (render input r .text).1.map leadingSpaces = (F.paths []).map (fun p => 2 * units p.1) ∧
      ∀ p ∈ F.paths [], units p.1 ≤ p.1.length ∧
        (units p.1 = p.1.length ↔ ∀ g ∈ p.1.tail, g.kind = .frame) ∧
        ∀ v outer, p.1 = v :: outer → (outer, v) ∈ F.paths [] ∧
          (units outer < units p.1 ↔ ∀ g ∈ outer.head?, g.kind = .frame) := by
  obtain ⟨found, ending, last, hrun, hdecode⟩ := Session.exists_run_start hr input
  obtain ⟨F, cursor, hvalues, hgrows, -, -, hplaces, -⟩ := hrun.exists_forest hr
  rw [hdecode]
  refine ⟨F, cursor, hvalues, hgrows, fun G n hG hgrows' => hrun.forest_unique hr hvalues hgrows hG hgrows', ?_,
    fun p hp => ?_⟩
  · have hkinds : ∀ p ∈ F.paths [], ∀ g ∈ p.1, g.kind = .frame ∨ g.kind = .group :=
      hgrows.kind_of_paths (fun g hg => by cases hg)
    -- the places that the values are handed out with are all that their lines are indented by
    have hpaths : Session.places found = (F.paths []).map (fun p => Place.inside p.1 p.2) :=
      hplaces.trans (F.places_eq_map_paths [])
    have hlines : (render input r .text).1.map leadingSpaces =
        (Session.places found).map (fun p => 2 * (p.depth - 1 + (if p.group.isSome then 1 else 0))) := by
      rw [lines_render hr .text hrun, Session.places, List.map_map, List.map_map]
      refine List.map_congr_left (fun p _ => ?_)
      simp only [Function.comp_def, line, leadingSpaces_textLine, nesting, Observation.place, Option.isSome_map]
    rw [hlines, hpaths, List.map_map]
    exact List.map_congr_left (fun p hp => congrArg (2 * ·) (nesting_inside (hkinds p hp) p.2))
  · refine ⟨units_le_length p.1, units_eq_length, fun v outer hp1 => ?_⟩
    refine ⟨?_, hp1 ▸ units_lt_iff⟩
    obtain hnil | ⟨w, around, hw, hmem⟩ := Forest.mem_paths_of_inside p hp
    · rw [hnil] at hp1
      cases hp1
    · rw [hp1] at hw
      cases hw
      exact hmem

/-- A frame with a group of one value in it, and behind it an empty group: the units of their lines. -/
theorem indentation_eq_frame :
    ∃ F : Forest, F.preorder = (Session.decode .keriV1 (Bytes.ofString "-LAC-KAAMAAA-AAA")).1 ∧
      (F.paths []).map (fun p => 2 * units p.1) = [0, 2, 4, 0] := by
  obtain ⟨F, -, hvalues, -, -, hlines, -⟩ :=
    indentation_eq Registry.loaded_keriV1 (Bytes.ofString "-LAC-KAAMAAA-AAA")
  exact ⟨F, hvalues, hlines.symm.trans (by decide +kernel)⟩

/-- **A value in a group in a group** has two values around it, but its line is indented by one unit, as that of the
group which it is in. -/
theorem not_indentation_group_in_group :
    ∃ (outer inner leaf : Value) (F : Forest), F = .cons outer (.cons inner (.cons leaf .nil .nil) .nil) .nil ∧
      Session.decode .keriV1 (Bytes.ofString "-KAA-KAAMAAA") = (F.preorder, .finished) ∧ F.Tiles true 0 12 ∧
      (F.paths []).map (fun p => 2 * p.1.length) = [0, 2, 4] ∧
      (render (Bytes.ofString "-KAA-KAAMAAA") .keriV1 .text).1.map leadingSpaces = [0, 2, 2] := by
  obtain ⟨hending, hfacts, hspaces⟩ :
      (Session.decode .keriV1 (Bytes.ofString "-KAA-KAAMAAA")).2 = .finished ∧
        (Session.decode .keriV1 (Bytes.ofString "-KAA-KAAMAAA")).1.map
            (fun v => (v.start, v.start + v.consumed, v.stop, v.kind, v.count)) =
          [(0, 4, 4, .group, some 1), (4, 8, 8, .group, some 1), (8, 12, 12, .leaf, none)] ∧
        (render (Bytes.ofString "-KAA-KAAMAAA") .keriV1 .text).1.map leadingSpaces = [0, 2, 2] := by decide +kernel
  rcases hdecode : Session.decode .keriV1 (Bytes.ofString "-KAA-KAAMAAA") with ⟨vs, ending⟩
  rw [hdecode] at hending hfacts
  dsimp only at hending hfacts
  obtain ⟨outer, vs, rfl, houter, hfacts⟩ := List.map_eq_cons_iff.1 hfacts
  obtain ⟨inner, vs, rfl, hinner, hfacts⟩ := List.map_eq_cons_iff.1 hfacts
  obtain ⟨leaf, vs, rfl, hleaf, hfacts⟩ := List.map_eq_cons_iff.1 hfacts
  obtain rfl := List.map_eq_nil_iff.1 hfacts
  simp only [Prod.mk.injEq] at houter hinner hleaf
  obtain ⟨hstart, hbehind, -, hkind, hcount⟩ := houter
  obtain ⟨hstart', hbehind', -, hkind', hcount'⟩ := hinner
  obtain ⟨hstart'', -, hstop'', hkind'', -⟩ := hleaf
  have hin : Forest.Tiles false (.cons leaf .nil .nil) 8 12 :=
    ⟨hstart'', .inl ⟨12, (Forest.under_leaf hkind'').2 ⟨rfl, hstop''⟩, rfl⟩⟩
  have hmiddle : Forest.Tiles false (.cons inner (.cons leaf .nil .nil) .nil) 4 12 :=
    ⟨hstart', .inl ⟨12, (Forest.under_group hkind').2 ⟨hcount', hbehind' ▸ hin⟩, rfl⟩⟩
  exact ⟨outer, inner, leaf, _, rfl, by rw [hending]; rfl,
    ⟨hstart, .inl ⟨12, (Forest.under_group hkind).2 ⟨hcount, hbehind ▸ hmiddle⟩, rfl⟩⟩, rfl, hspaces⟩

end Report
end Quadlet
