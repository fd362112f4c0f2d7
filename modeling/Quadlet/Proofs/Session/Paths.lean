import Mathlib.Data.List.Chain
import Quadlet.Proofs.Session.Forest
/-!
# Paths — the values that enclose each value of a forest

`paths` gives each value with those that enclose it, the innermost first.  What a session tells its hooks of the nesting
is less: the number of the frames among them, and the innermost when that is a group (`places_eq_map_paths`).  The value
behind another is the first inside it, or it stands beside the outermost tree that ends there (`isChain_paths`).
-/
namespace Quadlet

/-! ## Places -/

/-- How many of the values are frames. -/
def frameCount (outer : List Value) : Nat := outer.countP (fun v => v.kind = .frame)

theorem frameCount_cons (v : Value) (outer : List Value) :
    frameCount (v :: outer) = if v.kind = .frame then frameCount outer + 1 else frameCount outer := by
  simp only [frameCount, List.countP_cons, decide_eq_true_eq]
  split <;> rfl

/-- The place of a value that `outer` enclose, the innermost first. -/
def Place.inside (outer : List Value) (v : Value) : Place :=
  ⟨v, frameCount outer + 1, outer.head?.bind Value.asGroup?⟩

namespace Forest

/-- The values with those that enclose them, the innermost first, when `outer` enclose all of them. -/
def paths (outer : List Value) : Forest → List (List Value × Value)
  | nil => []
  | cons v children rest => (outer, v) :: (children.paths (v :: outer) ++ rest.paths outer)

theorem map_snd_paths : ∀ (F : Forest) (outer : List Value), (F.paths outer).map Prod.snd = F.preorder
  | nil, _ => rfl
  | cons v children rest, outer => by
    rw [paths, preorder, List.map_cons, List.map_append, map_snd_paths children, map_snd_paths rest]

/-- **What is left of the enclosing values in a place.** -/
theorem places_eq_map_paths : ∀ (F : Forest) (outer : List Value),
    F.places (frameCount outer + 1) (outer.head?.bind Value.asGroup?) =
      (F.paths outer).map (fun p => Place.inside p.1 p.2)
  | nil, _ => rfl
  | cons v children rest, outer => by
    have hdepth : (if v.kind = .frame then frameCount outer + 1 + 1 else frameCount outer + 1) =
        frameCount (v :: outer) + 1 := by
      rw [frameCount_cons]
      split <;> rfl
    have hchildren := places_eq_map_paths children (v :: outer)
    rw [places, paths, List.map_cons, List.map_append, ← places_eq_map_paths rest, ← hchildren, hdepth]
    rfl

/-- The value around another has a path of its own. -/
theorem mem_paths_of_inside : ∀ {F : Forest} {outer : List Value}, ∀ p ∈ F.paths outer,
    p.1 = outer ∨ ∃ v around, p.1 = v :: around ∧ (around, v) ∈ F.paths outer
  | nil, _, p, hp => by cases hp
  | cons v children rest, outer, p, hp => by
    rw [paths, List.mem_cons, List.mem_append] at hp
    simp only [paths, List.mem_cons, List.mem_append]
    rcases hp with rfl | hp | hp
    · exact .inl rfl
    · obtain houter | ⟨w, around, hw, hmem⟩ := mem_paths_of_inside p hp
      · exact .inr ⟨v, outer, houter, .inl rfl⟩
      · exact .inr ⟨w, around, hw, .inr (.inl hmem)⟩
    · obtain houter | ⟨w, around, hw, hmem⟩ := mem_paths_of_inside p hp
      · exact .inl houter
      · exact .inr ⟨w, around, hw, .inr (.inr hmem)⟩

/-- Nothing is under a value that is no frame and no group. -/
theorem Spans.children {v : Value} {children rest : Forest} {stage : Stage} {top : Bool} {start stop : Nat}
    (h : Spans stage top (cons v children rest) start stop) :
    children = nil ∨
      (v.kind = .frame ∨ v.kind = .group) ∧ ∃ stage stop, Spans stage false children (v.start + v.consumed) stop := by
  obtain ⟨-, ⟨middle, hunder, -⟩ | ⟨-, hleft⟩⟩ := h
  · cases hk : v.kind with
    | serialization => exact .inl ((under_serialization hk).1 hunder).2.1
    | leaf => exact .inl ((under_leaf hk).1 hunder).1
    | frame => exact .inr ⟨.inl rfl, _, _, ((under_frame hk).1 hunder).1⟩
    | group => exact .inr ⟨.inr rfl, _, _, ((under_group hk).1 hunder).2⟩
  · obtain ⟨hinside, hends⟩ := hleft.cases
    exact .inr ⟨hends.imp And.left And.left, _, _, hinside⟩

theorem Spans.rest {v : Value} {children rest : Forest} {stage : Stage} {top : Bool} {start stop : Nat}
    (h : Spans stage top (cons v children rest) start stop) : ∃ middle, Spans stage top rest middle stop := by
  obtain ⟨-, ⟨middle, -, hrest⟩ | ⟨rfl, -⟩⟩ := h
  · exact ⟨middle, hrest⟩
  · exact ⟨stop, rfl⟩

/-- **Only frames and groups enclose values.** -/
theorem Spans.kind_of_paths : ∀ {F : Forest} {stage : Stage} {top : Bool} {start stop : Nat} {outer : List Value},
    Spans stage top F start stop → (∀ g ∈ outer, g.kind = .frame ∨ g.kind = .group) →
      ∀ p ∈ F.paths outer, ∀ g ∈ p.1, g.kind = .frame ∨ g.kind = .group
  | nil, _, _, _, _, _, _, _, p, hp => by cases hp
  | cons v children rest, _, _, _, _, outer, h, houter, p, hp => by
    rw [paths, List.mem_cons, List.mem_append] at hp
    rcases hp with rfl | hp | hp
    · exact houter
    · rcases h.children with rfl | ⟨hkind, _, _, hchildren⟩
      · cases hp
      · exact hchildren.kind_of_paths (List.forall_mem_cons.2 ⟨hkind, houter⟩) p hp
    · obtain ⟨middle, hrest⟩ := h.rest
      exact hrest.kind_of_paths houter p hp

/-! ## What follows a value -/

theorem suffix_paths : ∀ {F : Forest} {outer : List Value}, ∀ p ∈ F.paths outer, ∃ inner, p.1 = inner ++ outer
  | nil, _, p, hp => by cases hp
  | cons v children rest, outer, p, hp => by
    rw [paths, List.mem_cons, List.mem_append] at hp
    rcases hp with rfl | hp | hp
    · exact ⟨[], rfl⟩
    · obtain ⟨inner, hinner⟩ := suffix_paths p hp
      exact ⟨inner ++ [v], by rw [hinner, List.append_assoc]; rfl⟩
    · exact suffix_paths p hp

theorem head?_paths {F : Forest} {outer : List Value} {p : List Value × Value} (hp : (F.paths outer).head? = some p) :
    p.1 = outer := by
  cases F with
  | nil => cases hp
  | cons => cases hp; rfl

/-- **What follows a value**: the first value inside it, or the one beside the outermost tree that ends with it, whose
first value `P` holds of. -/
def Follows (P : List Value → Value → Prop) (p q : List Value × Value) : Prop :=
  q.1 = p.2 :: p.1 ∨ ∃ inner g, p.2 :: p.1 = inner ++ g :: q.1 ∧ P q.1 g

theorem isChain_paths {P : List Value → Value → Prop} : ∀ {F : Forest} {outer : List Value},
    (∀ p ∈ F.paths outer, P p.1 p.2) → (F.paths outer).IsChain (Follows P)
  | nil, _, _ => .nil
  | cons v children rest, outer, h => by
    have hv : P outer v := h (outer, v) List.mem_cons_self
    have hchildren := isChain_paths (fun p hp => h p (List.mem_cons_of_mem _ (List.mem_append_left _ hp)))
    have hrest := isChain_paths (fun p hp => h p (List.mem_cons_of_mem _ (List.mem_append_right _ hp)))
    rw [paths, List.isChain_cons, List.isChain_append]
    refine ⟨?_, hchildren, hrest, ?_⟩
    · -- behind the first value are those under it, or else those beside it
      intro q hq
      rcases hc : (children.paths (v :: outer)).head? with _ | first
      · rw [List.head?_eq_none_iff.1 hc, List.nil_append] at hq
        exact .inr ⟨[], v, by rw [head?_paths hq]; rfl, by rw [head?_paths hq]; exact hv⟩
      · rw [List.head?_append, hc] at hq
        cases hq
        exact .inl (head?_paths hc)
    · -- the tree of the first value ends with the last value under it
      intro p hp q hq
      obtain ⟨inner, hinner⟩ := suffix_paths p (List.mem_of_mem_getLast? hp)
      exact .inr ⟨p.2 :: inner, v, by rw [hinner, head?_paths hq]; rfl, by rw [head?_paths hq]; exact hv⟩

end Forest
end Quadlet
