import Quadlet.Proofs.Session.Step
/-!
# Forests — what frames and groups make of a sequence of values

A session yields its values one after the other; what belongs to what is left to the reader.  A `Forest` puts each value
of a frame or of a group under its counter.  `Spans` says that it does so rightly: a group has as many trees under it as
it counts, and those under a frame tile its bytes.  Where a frame ends, groups in it may be left that wait for more
values; the session goes on when it sums up their number to zero, and what it sums is a word, so the frame `Covers` its
bytes when a multiple of 2^64 is `missing`.  The values in their order leave no choice (`Spans.unique`).
-/
namespace Quadlet

/-- Trees of values: the first one with the trees under it, and the trees beside it. -/
inductive Forest where
  | nil
  | cons (value : Value) (children rest : Forest)
deriving DecidableEq, Repr

/-- A value, the number of frames that are open where it stands, the root among them, and the selector and count of the
group that it belongs to. -/
structure Place where
  value : Value
  depth : Nat
  group : Option (Bytes × Nat)
deriving DecidableEq, Repr

namespace Value

def count (v : Value) : Option Nat := v.header.asCode?.bind CodeHeader.count

def asGroup? (v : Value) : Option (Bytes × Nat) :=
  if v.kind = .group then v.header.asCode?.map (fun h => (h.descriptor.selector, h.count.getD 0)) else none

end Value

namespace Forest

def trees : Forest → Nat
  | nil => 0
  | cons _ _ rest => rest.trees + 1

/-- Each value before those under it. -/
def preorder : Forest → List Value
  | nil => []
  | cons v children rest => v :: (children.preorder ++ rest.preorder)

/-- The values in that order with their places, the trees themselves being at a depth and in a group. -/
def places (depth : Nat) (group : Option (Bytes × Nat)) : Forest → List Place
  | nil => []
  | cons v children rest =>
    ⟨v, depth, group⟩ ::
      (children.places (if v.kind = .frame then depth + 1 else depth) v.asGroup? ++ rest.places depth group)

/-- How many trees the groups count that are not there.  Those in a frame under them are the frame's own. -/
def missing : Forest → Nat
  | nil => 0
  | cons v children rest =>
    (if v.kind = .group then v.count.getD 0 - children.trees + children.missing else 0) + rest.missing

/-- Every group has the trees that it counts. -/
def Full : Forest → Prop
  | nil => True
  | cons v children rest => (v.kind = .group → v.count = some children.trees) ∧ children.Full ∧ rest.Full

/-- How many trees the groups among some values count. -/
def counted (vs : List Value) : Nat := (vs.map (fun v => if v.kind = .group then v.count.getD 0 else 0)).sum

theorem preorder_eq_nil {F : Forest} (h : F.preorder = []) : F = nil := by
  cases F with
  | nil => rfl
  | cons => cases h

theorem trees_le : ∀ F : Forest, F.trees ≤ F.preorder.length
  | nil => Nat.le_refl 0
  | cons v children rest => by
    have hrest := trees_le rest
    rw [trees, preorder, List.length_cons, List.length_append]
    omega

/-! ## Spans -/

/-- Where the last of some trees may be left that is not whole. -/
inductive Stage where
  | whole
  /-- A group at the end of the frame that the trees are in. -/
  | cut
  /-- A group or a frame where the stream breaks off. -/
  | begun

/-- What may be under a value whose tree is whole and ends at `stop`; `spans` says which bytes the trees under it span.
Nothing is under a serialization or a leaf; under a group are as many trees as it counts; those under a frame tile the
bytes from behind its code to its end, but for the groups that are left there.  Serializations are at the top only. -/
def Under (top : Bool) (v : Value) (children : Forest) (spans : Stage → Nat → Nat → Prop) (stop : Nat) : Prop :=
  match v.kind with
  | .serialization => top = true ∧ children = nil ∧ v.stop = stop
  | .leaf => children = nil ∧ v.stop = stop
  | .frame => spans .cut (v.start + v.consumed) v.stop ∧ 2 ^ 64 ∣ children.missing ∧ v.stop = stop
  | .group => v.count = some children.trees ∧ spans .whole (v.start + v.consumed) stop

/-- What may be under a value whose tree is left at `stop`. -/
def Left (stage : Stage) (v : Value) (children : Forest) (spans : Nat → Nat → Prop) (stop : Nat) : Prop :=
  match v.kind with
  | .frame => stage = .begun ∧ spans (v.start + v.consumed) stop ∧ stop ≤ v.stop
  | .group => stage ≠ .whole ∧ (∃ n, v.count = some n ∧ children.trees ≤ n) ∧ spans (v.start + v.consumed) stop
  | .serialization | .leaf => False

/-- **The trees span the bytes from `start` to `stop`**: each starts where the one before it ends, and all are whole but
the last, which may be left. -/
def Spans : (stage : Stage) → (top : Bool) → Forest → (start stop : Nat) → Prop
  | _, _, nil, start, stop => start = stop
  | stage, top, cons v children rest, start, stop =>
    v.start = start ∧
      ((∃ middle, Under top v children (fun stage => Spans stage false children) middle ∧
          Spans stage top rest middle stop) ∨
        rest = nil ∧ Left stage v children (Spans stage false children) stop)

/-- **All trees are whole**, and tile the bytes. -/
abbrev Tiles (top : Bool) (F : Forest) (start stop : Nat) : Prop := Spans .whole top F start stop

/-- **The trees tile the bytes of a frame** or of an input, and what the groups in it miss at its end is zero as a
word. -/
def Covers (top : Bool) (F : Forest) (start stop : Nat) : Prop := Spans .cut top F start stop ∧ 2 ^ 64 ∣ F.missing

/-- **The trees have grown** up to where a stream breaks off. -/
abbrev Grows (top : Bool) (F : Forest) (start cursor : Nat) : Prop := Spans .begun top F start cursor

section

variable {stage : Stage} {top : Bool} {v : Value} {children : Forest} {stop : Nat}

section

variable {spans : Stage → Nat → Nat → Prop}

theorem under_serialization (hk : v.kind = .serialization) :
    Under top v children spans stop ↔ top = true ∧ children = nil ∧ v.stop = stop := by rw [Under, hk]

theorem under_leaf (hk : v.kind = .leaf) : Under top v children spans stop ↔ children = nil ∧ v.stop = stop := by
  rw [Under, hk]

theorem under_frame (hk : v.kind = .frame) :
    Under top v children spans stop ↔
      spans .cut (v.start + v.consumed) v.stop ∧ 2 ^ 64 ∣ children.missing ∧ v.stop = stop := by rw [Under, hk]

theorem under_group (hk : v.kind = .group) :
    Under top v children spans stop ↔ v.count = some children.trees ∧ spans .whole (v.start + v.consumed) stop := by
  rw [Under, hk]

end

section

variable {spans : Nat → Nat → Prop}

theorem left_frame (hk : v.kind = .frame) :
    Left stage v children spans stop ↔ stage = .begun ∧ spans (v.start + v.consumed) stop ∧ stop ≤ v.stop := by
  rw [Left, hk]

theorem left_group (hk : v.kind = .group) :
    Left stage v children spans stop ↔
      stage ≠ .whole ∧ (∃ n, v.count = some n ∧ children.trees ≤ n) ∧ spans (v.start + v.consumed) stop := by
  rw [Left, hk]

theorem Left.cases (h : Left stage v children spans stop) : spans (v.start + v.consumed) stop ∧
    (v.kind = .frame ∧ stage = .begun ∧ stop ≤ v.stop ∨
      v.kind = .group ∧ stage ≠ .whole ∧ ∃ n, v.count = some n ∧ children.trees ≤ n) := by
  cases hk : v.kind with
  | serialization =>
    rw [Left, hk] at h
    exact h.elim
  | leaf =>
    rw [Left, hk] at h
    exact h.elim
  | frame =>
    obtain ⟨hstage, hspans, hstop⟩ := (left_frame hk).1 h
    exact ⟨hspans, .inl ⟨rfl, hstage, hstop⟩⟩
  | group =>
    obtain ⟨hstage, hcount, hspans⟩ := (left_group hk).1 h
    exact ⟨hspans, .inr ⟨rfl, hstage, hcount⟩⟩

theorem Left.ne_whole (h : Left stage v children spans stop) : stage ≠ .whole := by
  obtain ⟨-, ⟨-, rfl, -⟩ | ⟨-, hstage, -⟩⟩ := h.cases
  · exact Stage.noConfusion
  · exact hstage

end

/-- What may be left may be left at a later stage. -/
theorem Left.mono {stage' : Stage} {spans spans' : Nat → Nat → Prop} (h : Left stage v children spans stop)
    (hwhole : stage ≠ .whole → stage' ≠ .whole) (hbegun : stage = .begun → stage' = .begun)
    (hspans : ∀ {start stop}, spans start stop → spans' start stop) : Left stage' v children spans' stop := by
  obtain ⟨hinside, ⟨hk, hstage, hstop⟩ | ⟨hk, hstage, hcount⟩⟩ := h.cases
  · exact (left_frame hk).2 ⟨hbegun hstage, hspans hinside, hstop⟩
  · exact (left_group hk).2 ⟨hwhole hstage, hcount, hspans hinside⟩

theorem Spans.mono : ∀ {F : Forest} {stage stage' : Stage} {top : Bool} {start stop : Nat},
    Spans stage top F start stop → (stage ≠ .whole → stage' ≠ .whole) → (stage = .begun → stage' = .begun) →
      Spans stage' top F start stop
  | nil, _, _, _, _, _, h, _, _ => h
  | cons v children rest, stage, stage', top, start, stop, ⟨hstart, h⟩, hwhole, hbegun => by
    refine ⟨hstart, ?_⟩
    rcases h with ⟨middle, hunder, hrest⟩ | ⟨hnil, hleft⟩
    · exact .inl ⟨middle, hunder, hrest.mono hwhole hbegun⟩
    · exact .inr ⟨hnil, hleft.mono hwhole hbegun (fun h => h.mono hwhole hbegun)⟩

theorem Covers.grows {F : Forest} {start : Nat} (h : Covers top F start stop) : Grows top F start stop :=
  h.1.mono (fun _ => Stage.noConfusion) Stage.noConfusion

/-! ## What is missing -/

theorem Spans.missing_eq_zero : ∀ {F : Forest} {top : Bool} {start stop : Nat}, Tiles top F start stop → F.missing = 0
  | nil, _, _, _, _ => rfl
  | cons v children rest, top, start, stop, h => by
    obtain ⟨-, ⟨middle, hunder, hrest⟩ | ⟨-, hleft⟩⟩ := h
    · rw [missing, hrest.missing_eq_zero]
      split
      · next hk =>
        obtain ⟨hcount, hchildren⟩ := (under_group hk).1 hunder
        rw [hcount, Option.getD_some, Nat.sub_self, Spans.missing_eq_zero hchildren]
      · rfl
    · exact absurd rfl hleft.ne_whole

theorem Tiles.covers {F : Forest} {start : Nat} (h : Tiles top F start stop) : Covers top F start stop :=
  ⟨h.mono (fun hne => absurd rfl hne) Stage.noConfusion, h.missing_eq_zero ▸ Nat.dvd_zero _⟩

/-- In a whole tree nothing is missing. -/
theorem Under.missing_cons {rest : Forest}
    (h : Under top v children (fun stage => Spans stage false children) stop) :
    (cons v children rest).missing = rest.missing := by
  rw [missing]
  split
  · next hk =>
    obtain ⟨hcount, hchildren⟩ := (under_group hk).1 h
    rw [hcount, Option.getD_some, Nat.sub_self, hchildren.missing_eq_zero, Nat.zero_add]
  · exact Nat.zero_add _

/-- Where nothing is missing, no group is left. -/
theorem Spans.tiles_of_missing : ∀ {F : Forest} {top : Bool} {start stop : Nat}, Spans .cut top F start stop →
    F.missing = 0 → Tiles top F start stop
  | nil, _, _, _, h, _ => h
  | cons v children rest, top, start, stop, ⟨hstart, h⟩, hmissing => by
    refine ⟨hstart, .inl ?_⟩
    rw [missing] at hmissing
    rcases h with ⟨middle, hunder, hrest⟩ | ⟨rfl, hleft⟩
    · exact ⟨middle, hunder, hrest.tiles_of_missing (by omega)⟩
    · obtain ⟨hinside, ⟨-, hstage, -⟩ | ⟨hk, -, n, hcount, htrees⟩⟩ := hleft.cases
      · cases hstage
      · rw [if_pos hk, hcount, Option.getD_some] at hmissing
        have hall : n = children.trees := by omega
        have hchildren := hinside.tiles_of_missing (by omega)
        exact ⟨stop, (under_group hk).2 ⟨hall ▸ hcount, hchildren⟩, rfl⟩

theorem counted_cons (v : Value) (children rest : Forest) :
    counted (cons v children rest).preorder =
      (if v.kind = .group then v.count.getD 0 else 0) + (counted children.preorder + counted rest.preorder) := by
  rw [preorder, counted, List.map_cons, List.sum_cons, List.map_append, List.sum_append]
  rfl

theorem missing_le_counted : ∀ F : Forest, F.missing ≤ counted F.preorder
  | nil => Nat.le_refl 0
  | cons v children rest => by
    have hchildren := missing_le_counted children
    have hrest := missing_le_counted rest
    rw [counted_cons, missing]
    split <;> omega

/-- **Where the groups count fewer than 2^64 trees**, all of them are there. -/
theorem Covers.full : ∀ {F : Forest} {top : Bool} {start stop : Nat}, Covers top F start stop →
    counted F.preorder < 2 ^ 64 → F.Full
  | nil, _, _, _, _, _ => trivial
  | cons v children rest, top, start, stop, ⟨hspans, hdvd⟩, hcounted => by
    have hnone : (cons v children rest).missing = 0 :=
      Nat.eq_zero_of_dvd_of_lt hdvd (Nat.lt_of_le_of_lt (missing_le_counted _) hcounted)
    obtain ⟨-, ⟨middle, hunder, hrest⟩ | ⟨-, hleft⟩⟩ := hspans.tiles_of_missing hnone
    · rw [counted_cons] at hcounted
      have hbeside : rest.Full := (Tiles.covers hrest).full (by omega)
      have hfew : counted children.preorder < 2 ^ 64 := by omega
      cases hk : v.kind with
      | serialization =>
        obtain ⟨-, rfl, -⟩ := (under_serialization hk).1 hunder
        exact ⟨fun h => (by rw [hk] at h; cases h), trivial, hbeside⟩
      | leaf =>
        obtain ⟨rfl, -⟩ := (under_leaf hk).1 hunder
        exact ⟨fun h => (by rw [hk] at h; cases h), trivial, hbeside⟩
      | frame =>
        obtain ⟨hinside, hmissing, -⟩ := (under_frame hk).1 hunder
        exact ⟨fun h => (by rw [hk] at h; cases h), Covers.full ⟨hinside, hmissing⟩ hfew, hbeside⟩
      | group =>
        obtain ⟨hcount, hinside⟩ := (under_group hk).1 hunder
        exact ⟨fun _ => hcount, (Tiles.covers hinside).full hfew, hbeside⟩
    · exact absurd rfl hleft.ne_whole

/-! ## No choice -/

/-- The bytes that values take themselves. -/
def bytes (vs : List Value) : Nat := (vs.map Value.consumed).sum

theorem bytes_append (vs ws : List Value) : bytes (vs ++ ws) = bytes vs + bytes ws := by
  rw [bytes, List.map_append, List.sum_append]
  rfl

theorem Under.stop_eq (h : Under top v children (fun stage => Spans stage false children) stop)
    (inside : ∀ {stage start stop}, Spans stage false children start stop → stop = start + bytes children.preorder) :
    stop = v.start + v.consumed + bytes children.preorder := by
  cases hk : v.kind with
  | serialization =>
    obtain ⟨-, rfl, rfl⟩ := (under_serialization hk).1 h
    rw [Value.consumed_of_stay (.inl hk)]
    rfl
  | leaf =>
    obtain ⟨rfl, rfl⟩ := (under_leaf hk).1 h
    rw [Value.consumed_of_stay (.inr hk)]
    rfl
  | frame =>
    obtain ⟨hbody, -, rfl⟩ := (under_frame hk).1 h
    exact inside hbody
  | group => exact inside ((under_group hk).1 h).2

/-- Trees take the bytes that their values take. -/
theorem Spans.stop_eq : ∀ {F : Forest} {stage : Stage} {top : Bool} {start stop : Nat}, Spans stage top F start stop →
    stop = start + bytes F.preorder
  | nil, _, _, _, _, h => h.symm
  | cons v children rest, stage, top, start, stop, ⟨hstart, h⟩ => by
    have hbytes : bytes (cons v children rest).preorder =
        v.consumed + (bytes children.preorder + bytes rest.preorder) := by
      rw [← bytes_append]
      exact List.sum_cons
    rcases h with ⟨middle, hunder, hrest⟩ | ⟨rfl, hleft⟩
    · have hmiddle := hunder.stop_eq (fun h => h.stop_eq)
      have hstop := hrest.stop_eq
      omega
    · have hstop := hleft.cases.1.stop_eq
      have hnone : bytes nil.preorder = 0 := rfl
      omega

/-- Values that take bytes are none where no bytes are left. -/
theorem eq_nil_of_bytes_le {vs ws : List Value} (hpos : ∀ v ∈ ws, 0 < v.consumed) (h : bytes (vs ++ ws) ≤ bytes vs) :
    ws = [] := by
  cases ws with
  | nil => rfl
  | cons v ws =>
    have hv := hpos v List.mem_cons_self
    have hbytes : bytes (v :: ws) = v.consumed + bytes ws := List.sum_cons
    rw [bytes_append] at h
    omega

/-- Two forests are the same when they have the same values in front.  It is enough that no values follow them, or that
the first is whole and the second has as many trees, or no more and no values behind it. -/
def Agree (F G : Forest) : Prop :=
  ∀ ⦃stage stage' : Stage⦄ ⦃top top' : Bool⦄ ⦃start start' stop stop' : Nat⦄ ⦃more more' : List Value⦄,
    Spans stage top F start stop → Spans stage' top' G start' stop' → F.preorder ++ more = G.preorder ++ more' →
      (∀ v ∈ F.preorder ++ more, 0 < v.consumed) →
      (more = [] ∧ more' = [] ∨
        stage = .whole ∧ (stage' = .whole ∧ F.trees = G.trees ∨ more' = [] ∧ G.trees ≤ F.trees)) →
      F = G ∧ more = more'

section

variable {c d : Forest} {more more' : List Value}

/-- The values leave one forest under a value whose tree is whole. -/
theorem Under.eq_of_agree {top' : Bool} {stop' : Nat} (same : Agree c d)
    (hc : Under top v c (fun stage => Spans stage false c) stop)
    (hd : Under top' v d (fun stage => Spans stage false d) stop')
    (hvalues : c.preorder ++ more = d.preorder ++ more') (hpos : ∀ u ∈ c.preorder ++ more, 0 < u.consumed) :
    c = d ∧ more = more' := by
  cases hk : v.kind with
  | serialization =>
    obtain ⟨-, rfl, -⟩ := (under_serialization hk).1 hc
    obtain ⟨-, rfl, -⟩ := (under_serialization hk).1 hd
    exact ⟨rfl, hvalues⟩
  | leaf =>
    obtain ⟨rfl, -⟩ := (under_leaf hk).1 hc
    obtain ⟨rfl, -⟩ := (under_leaf hk).1 hd
    exact ⟨rfl, hvalues⟩
  | group =>
    obtain ⟨hcount, hc⟩ := (under_group hk).1 hc
    obtain ⟨hcount', hd⟩ := (under_group hk).1 hd
    exact same hc hd hvalues hpos (.inr ⟨rfl, .inl ⟨rfl, Option.some.inj (hcount.symm.trans hcount')⟩⟩)
  | frame =>
    obtain ⟨hbody, -, -⟩ := (under_frame hk).1 hc
    obtain ⟨hbody', -, -⟩ := (under_frame hk).1 hd
    -- both end with the frame, so neither has values that the other has not
    have hbytes : bytes c.preorder = bytes d.preorder :=
      Nat.add_left_cancel (hbody.stop_eq.symm.trans hbody'.stop_eq)
    have hsame : c.preorder = d.preorder ∧ more = more' := by
      rcases List.append_eq_append_iff.1 hvalues with ⟨ws, hws, rfl⟩ | ⟨ws, hws, rfl⟩
      · have hnil : ws = [] :=
          eq_nil_of_bytes_le (fun u hu => hpos u (List.mem_append_right _ (List.mem_append_left _ hu)))
            (hws ▸ Nat.le_of_eq hbytes.symm)
        subst hnil
        exact ⟨by rw [hws, List.append_nil], rfl⟩
      · have hnil : ws = [] :=
          eq_nil_of_bytes_le (fun u hu => hpos u (List.mem_append_left _ (hws ▸ List.mem_append_right _ hu)))
            (hws ▸ Nat.le_of_eq hbytes)
        subst hnil
        exact ⟨by rw [hws, List.append_nil], rfl⟩
    have hpos' := fun u hu => hpos u (List.mem_append_left _ hu)
    rw [← List.append_nil c.preorder] at hpos'
    obtain ⟨rfl, -⟩ := same hbody hbody' (congrArg (· ++ []) hsame.1) hpos' (.inl ⟨rfl, rfl⟩)
    exact ⟨rfl, hsame.2⟩

/-- A tree that is left is the whole one. -/
theorem Left.eq_of_agree {stop' : Nat} (same : Agree c d)
    (hc : Under top v c (fun stage => Spans stage false c) stop) (hd : Left stage v d (Spans stage false d) stop')
    (hvalues : c.preorder ++ more = d.preorder) (hpos : ∀ u ∈ c.preorder ++ more, 0 < u.consumed) :
    c = d ∧ more = [] := by
  obtain ⟨hd, ⟨hk, -, hstop'⟩ | ⟨hk, -, n, hcount', htrees⟩⟩ := hd.cases
  · obtain ⟨hc, -, -⟩ := (under_frame hk).1 hc
    have hbytes : bytes (c.preorder ++ more) ≤ bytes c.preorder := by
      have hwhole := hc.stop_eq
      have hleft := hd.stop_eq
      rw [hvalues]
      omega
    have hnil := eq_nil_of_bytes_le (fun u hu => hpos u (List.mem_append_right _ hu)) hbytes
    subst hnil
    exact same hc hd (by rw [hvalues, List.append_nil]) hpos (.inl ⟨rfl, rfl⟩)
  · obtain ⟨hcount, hc⟩ := (under_group hk).1 hc
    rw [hcount'] at hcount
    exact same hc hd (by rw [hvalues, List.append_nil]) hpos
      (.inr ⟨rfl, .inr ⟨rfl, Option.some.inj hcount ▸ htrees⟩⟩)

end

theorem agree : ∀ F G : Forest, Agree F G
  | nil, nil => by
    intro stage stage' top top' start start' stop stop' more more' _ _ hvalues _ _
    exact ⟨rfl, hvalues⟩
  | nil, cons w d q => by
    intro stage stage' top top' start start' stop stop' more more' _ _ hvalues _ hends
    obtain ⟨rfl, -⟩ | ⟨-, ⟨-, htrees⟩ | ⟨-, htrees⟩⟩ := hends
    · cases hvalues
    · cases htrees
    · exact absurd htrees (Nat.not_succ_le_zero _)
  | cons v c r, nil => by
    intro stage stage' top top' start start' stop stop' more more' _ _ hvalues _ hends
    obtain ⟨-, rfl⟩ | ⟨-, ⟨-, htrees⟩ | ⟨rfl, -⟩⟩ := hends
    · cases hvalues
    · cases htrees
    · cases hvalues
  | cons v c r, cons w d q => by
    rintro stage stage' top top' start start' stop stop' more more' ⟨-, hF⟩ ⟨-, hG⟩ hvalues hpos hends
    simp only [preorder, List.cons_append, List.append_assoc, List.cons.injEq] at hvalues
    obtain ⟨rfl, hvalues⟩ := hvalues
    simp only [preorder, List.cons_append, List.append_assoc] at hpos
    have hpos := fun u hu => hpos u (List.mem_cons_of_mem _ hu)
    rcases hF with ⟨m, hc, hr⟩ | ⟨rfl, hc⟩ <;> rcases hG with ⟨m', hd, hq⟩ | ⟨rfl, hd⟩
    · -- the first trees are whole, and the same
      obtain ⟨rfl, hrest⟩ := Under.eq_of_agree (agree c d) hc hd hvalues hpos
      obtain ⟨rfl, rfl⟩ := agree r q hr hq hrest (fun u hu => hpos u (List.mem_append_right _ hu))
        (hends.imp_right (And.imp_right (Or.imp (And.imp_right Nat.succ.inj) (And.imp_right Nat.le_of_succ_le_succ))))
      exact ⟨rfl, rfl⟩
    · -- the second is left: it has all that the first one has, and nothing is behind it
      obtain rfl : more' = [] := by
        obtain ⟨-, hnil⟩ | ⟨-, ⟨hstage, -⟩ | ⟨hnil, -⟩⟩ := hends
        · exact hnil
        · exact absurd hstage hd.ne_whole
        · exact hnil
      obtain ⟨rfl, hnone⟩ := Left.eq_of_agree (agree c d) hc hd (by rw [hvalues]; exact List.append_nil _) hpos
      obtain ⟨hr, rfl⟩ := List.append_eq_nil_iff.1 hnone
      rw [preorder_eq_nil hr]
      exact ⟨rfl, rfl⟩
    all_goals
      -- the first is left, so neither has more values
      obtain ⟨rfl, rfl⟩ : more = [] ∧ more' = [] := hends.resolve_right (fun h => hc.ne_whole h.1)
      simp only [preorder, List.append_nil] at hvalues hpos
    · obtain ⟨rfl, hnone⟩ := Left.eq_of_agree (agree d c) hd hc hvalues.symm (by rw [← hvalues]; exact hpos)
      rw [preorder_eq_nil hnone]
      exact ⟨rfl, rfl⟩
    · obtain ⟨rfl, -⟩ := agree c d hc.cases.1 hd.cases.1 (by rw [hvalues])
        (by rw [List.append_nil]; exact hpos) (.inl ⟨rfl, rfl⟩)
      exact ⟨rfl, rfl⟩
termination_by F G => sizeOf F + sizeOf G

/-- **The values leave one forest.** -/
theorem Spans.unique {F G : Forest} {stage stage' : Stage} {top top' : Bool} {start start' stop stop' : Nat}
    (hF : Spans stage top F start stop) (hG : Spans stage' top' G start' stop') (hvalues : F.preorder = G.preorder)
    (hpos : ∀ v ∈ F.preorder, 0 < v.consumed) : F = G := by
  rw [← List.append_nil F.preorder] at hpos
  exact (agree F G hF hG (congrArg (· ++ []) hvalues) hpos (.inl ⟨rfl, rfl⟩)).1

end
end Forest
end Quadlet
