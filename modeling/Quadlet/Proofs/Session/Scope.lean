import Quadlet.Proofs.Session.Paths
import Quadlet.Proofs.Session.Run
/-!
# Scopes — what is open, and which values fill it

Which registry a value is read under can be told from the values that enclose it: a group that names a context changes
the registry for what is inside it, and for nothing else (`Registry.inside`).  The session does not keep these values,
only the frames and groups that are open.  What they wait for are scopes, the innermost first: so many trees for a
group, trees up to an offset for a frame.  `Encloses` says which values stand behind them, and `Fills` which values they
take: all that they wait for, or those up to the end of a frame whose sum is zero as a word, or those up to where the
stream breaks off.
-/
namespace Quadlet

/-! ## What enclosing values say -/

/-- The context that a group names for the values in it. -/
def Value.contextName? (v : Value) : Option String :=
  if v.kind = .group then v.header.asCode?.bind (fun h => h.descriptor.context) else none

/-- The registry in force inside of the values that enclose a place, the innermost first: the context of the nearest
one that names one, in the registry that this one was read under. -/
def Registry.inside (r : Registry) : List Value → Except DecodeError Registry
  | [] => .ok r
  | v :: outer => do
    let q ← r.inside outer
    match v.contextName? with
    | some name => q.context name
    | none => return q

/-- Where the innermost of the enclosing frames ends, in an input of `length` bytes. -/
def extent (length : Nat) : List Value → Nat
  | [] => length
  | v :: outer => if v.kind = .frame then v.stop else extent length outer

/-- **What it is for a value to be read under a registry**: it is what stands at its start in what is left of the
innermost frame, known by its first byte at the top and by its code elsewhere. -/
def Value.ReadUnder (v : Value) (q : Registry) (input : Bytes) (outer : List Value) : Prop :=
  let span := input.slice v.start (extent input.length outer)
  ∃ u, (if outer.isEmpty then Value.sniff q span else Value.coded q span) = .ok u ∧ v = u.shift v.start

def Registry.Reads (r : Registry) (input : Bytes) (outer : List Value) (v : Value) : Prop :=
  ∃ q, r.inside outer = .ok q ∧ v.ReadUnder q input outer

/-! ## Scopes -/

/-- Trees that are still to be read: how many, if they are not just those up to the end of their frame; whether they are
at the top, where their frame ends, the registry that they inherit, and their place. -/
structure Scope where
  waiting : Option Nat
  top : Bool
  stop : Nat
  inherited : Option Registry
  depth : Nat
  group : Option (Bytes × Nat)

/-- The scope behind one more tree. -/
def Scope.less (l : Scope) : Scope := { l with waiting := l.waiting.map (· - 1) }

def Group.announced (g : Group) : Bytes × Nat := (g.selector, g.count)

def Frame.scope (f : Frame) (depth : Nat) : Scope := ⟨none, f.mode = .coldStart, f.stop, f.context, depth, none⟩

def Frame.groupScope (f : Frame) (depth : Nat) (g : Group × Nat) : Scope :=
  ⟨some g.2, false, f.stop, g.1.context.or f.context, depth, some g.1.announced⟩

/-- The groups of each frame, and then its rest. -/
def scopes : List Frame → List Scope
  | [] => []
  | f :: outer =>
    f.groups.map (f.groupScope (outer.length + 1)) ++ f.scope (outer.length + 1) :: scopes outer

/-- The enclosing values say how the trees of a scope are read, and where they stand. -/
structure Scope.Holds (l : Scope) (r : Registry) (length : Nat) (outer : List Value) : Prop where
  registry : r.inside outer = .ok (l.inherited.getD r)
  stop : extent length outer = l.stop
  top : l.top = outer.isEmpty
  depth : frameCount outer + 1 = l.depth
  group : outer.head?.bind Value.asGroup? = l.group

/-- The scopes of the open frames, each with the values that enclose its trees. -/
structure Encloses (r : Registry) (length : Nat) (frames : List Frame) (ls : List (List Value × Scope)) : Prop where
  scopes_eq : ls.map Prod.snd = scopes frames
  holds : ∀ l ∈ ls, l.2.Holds r length l.1

/-- How many trees the groups of the innermost frame wait for. -/
def awaited : List (List Value × Scope) → Nat
  | [] => 0
  | l :: ls =>
    match l.2.waiting with
    | some n => n + awaited ls
    | none => 0

/-- The scopes around the innermost frame. -/
def around : List (List Value × Scope) → List (List Value × Scope)
  | [] => []
  | l :: ls =>
    match l.2.waiting with
    | some _ => around ls
    | none => ls

open Forest (Stage)

/-- **The values with those that enclose them that fill the scopes** from a cursor on: scopes are filled one after the
other, those of a frame up to its end at most, and those of a stream up to where it breaks off. -/
inductive Fills (stage : Stage) : List (List Value × Scope) → (cursor : Nat) → List (List Value × Value) → Prop where
  | nil {cursor : Nat} : Fills stage [] cursor []
  | whole {outer : List Value} {l : Scope} {ls : List (List Value × Scope)} {F : Forest} {cursor middle : Nat}
    {ps : List (List Value × Value)} (waiting : l.waiting = some F.trees) (tiles : F.Tiles l.top cursor middle)
    (rest : Fills stage ls middle ps) : Fills stage ((outer, l) :: ls) cursor (F.paths outer ++ ps)
  | cut {outer : List Value} {l : Scope} {ls : List (List Value × Scope)} {F : Forest} {cursor : Nat}
    {ps : List (List Value × Value)} (waiting : ∀ n, l.waiting = some n → F.trees ≤ n)
    (spans : F.Spans .cut l.top cursor l.stop)
    (missing : 2 ^ 64 ∣ F.missing + (awaited ((outer, l) :: ls) - F.trees))
    (rest : Fills stage (around ((outer, l) :: ls)) l.stop ps) :
    Fills stage ((outer, l) :: ls) cursor (F.paths outer ++ ps)
  | begun {outer : List Value} {l : Scope} {ls : List (List Value × Scope)} {F : Forest} {cursor stop : Nat}
    (stage_eq : stage = .begun) (waiting : ∀ n, l.waiting = some n → F.trees ≤ n) (grows : F.Grows l.top cursor stop)
    (stop_le : stop ≤ l.stop) : Fills stage ((outer, l) :: ls) cursor (F.paths outer)

section

variable {stage : Stage} {cursor : Nat} {l new : Scope} {outer : List Value} {ls lsp : List (List Value × Scope)}
  {ps : List (List Value × Value)} {v : Value}

theorem Scope.lt_of_less {t : Nat} (h : ∀ n, l.less.waiting = some n → t ≤ n) (hpos : ∀ n, l.waiting = some n → 0 < n) :
    ∀ n, l.waiting = some n → t + 1 ≤ n := by
  intro n hn
  have ht := h (n - 1) (by rw [less, hn]; rfl)
  have hn0 := hpos n hn
  omega

theorem awaited_less (hpos : ∀ n, l.waiting = some n → 0 < n) (t : Nat) :
    awaited ((outer, l) :: ls) - (t + 1) = awaited ((outer, l.less) :: ls) - t := by
  obtain ⟨waiting, top, stop, inherited, depth, group⟩ := l
  cases waiting with
  | none =>
    show 0 - (t + 1) = 0 - t
    omega
  | some n =>
    have hn0 := hpos n rfl
    show n + awaited ls - (t + 1) = n - 1 + awaited ls - t
    omega

theorem around_less : around ((outer, l.less) :: ls) = around ((outer, l) :: ls) := by
  obtain ⟨waiting, top, stop, inherited, depth, group⟩ := l
  cases waiting <;> rfl

theorem Fills.skip (h : Fills stage ls cursor ps) (hwaiting : l.waiting = some 0) :
    Fills stage ((outer, l) :: ls) cursor ps := .whole (F := .nil) hwaiting rfl h

/-- **One whole tree more in the innermost scope**, in front of those that fill it behind that tree. -/
theorem Fills.cons {children : Forest} {middle : Nat} (h : Fills stage ((outer, l.less) :: ls) middle ps)
    (hpos : ∀ n, l.waiting = some n → 0 < n)
    (hunder : Forest.Under l.top v children (fun stage => children.Spans stage false) middle) :
    Fills stage ((outer, l) :: ls) v.start ((outer, v) :: (children.paths (v :: outer) ++ ps)) := by
  -- the tree goes in front of the forest that fills the scope
  cases h with
  | @whole _ _ _ F _ last ps hwaiting htiles hrest =>
    obtain ⟨n, hn, hless⟩ := Option.map_eq_some_iff.1 hwaiting
    have htrees : n = (Forest.cons v children F).trees := by
      have hn0 := hpos n hn
      show n = F.trees + 1
      omega
    rw [← List.append_assoc]
    exact .whole (hn.trans (congrArg some htrees)) ⟨rfl, .inl ⟨middle, hunder, htiles⟩⟩ hrest
  | @cut _ _ _ F _ ps hwaiting hspans hmissing hrest =>
    rw [← List.append_assoc]
    refine .cut (F := .cons v children F) (Scope.lt_of_less hwaiting hpos) ⟨rfl, .inl ⟨middle, hunder, hspans⟩⟩ ?_ ?_
    · rw [hunder.missing_cons, Forest.trees, awaited_less hpos]
      exact hmissing
    · rw [← around_less]
      exact hrest
  | @begun _ _ _ F _ stop hstage hwaiting hgrows hstop =>
    exact .begun (F := .cons v children F) hstage (Scope.lt_of_less hwaiting hpos)
      ⟨rfl, .inl ⟨middle, hunder, hgrows⟩⟩ hstop

/-- One value more in the innermost scope, with nothing inside it. -/
theorem Fills.stay {middle : Nat} (h : Fills stage ((outer, l.less) :: ls) middle ps)
    (hpos : ∀ n, l.waiting = some n → 0 < n)
    (hunder : Forest.Under l.top v .nil (fun stage => Forest.Spans stage false .nil) middle) :
    Fills stage ((outer, l) :: ls) v.start ((outer, v) :: ps) := h.cons hpos hunder

/-- A begun tree in the innermost scope, and nothing behind it. -/
theorem Fills.left {children : Forest} {stop : Nat} (hstage : stage = .begun)
    (hpos : ∀ n, l.waiting = some n → 0 < n) (hleft : Forest.Left .begun v children (children.Spans .begun false) stop)
    (hstop : stop ≤ l.stop) : Fills stage ((outer, l) :: ls) v.start ((outer, v) :: children.paths (v :: outer)) := by
  have hfills : Fills stage ((outer, l) :: ls) v.start ((Forest.cons v children .nil).paths outer) :=
    .begun hstage hpos ⟨rfl, .inr ⟨rfl, hleft⟩⟩ hstop
  rw [Forest.paths, Forest.paths, List.append_nil] at hfills
  exact hfills

/-- What fills `lsp` fills `ls`: they differ in a scope that waits for nothing. -/
structure Reduces (stage : Stage) (ls lsp : List (List Value × Scope)) : Prop where
  awaited_eq : awaited lsp = awaited ls
  around_eq : around lsp = around ls
  fills : ∀ {cursor : Nat} {ps : List (List Value × Value)}, Fills stage lsp cursor ps → Fills stage ls cursor ps

/-- **A frame in the innermost scope**, with what fills its scope, and what fills those around it. -/
theorem Fills.frame {inherited : Option Registry} {depth : Nat} (hk : v.kind = .frame) (hle : v.stop ≤ l.stop)
    (hpos : ∀ n, l.waiting = some n → 0 < n) (hreduces : Reduces stage ((outer, l.less) :: ls) lsp)
    (h : Fills stage ((v :: outer, ⟨none, false, v.stop, inherited, depth, none⟩) :: lsp) (v.start + v.consumed) ps) :
    Fills stage ((outer, l) :: ls) v.start ((outer, v) :: ps) := by
  cases h with
  | whole hwaiting => cases hwaiting
  | @cut _ _ _ F _ ps _ hspans hmissing hrest =>
    have hmissing : 2 ^ 64 ∣ F.missing + (0 - F.trees) := hmissing
    rw [Nat.zero_sub, Nat.add_zero] at hmissing
    exact (hreduces.fills hrest).cons hpos ((Forest.under_frame hk).2 ⟨hspans, hmissing, rfl⟩)
  | begun hstage _ hgrows hstop =>
    exact .left hstage hpos ((Forest.left_frame hk).2 ⟨rfl, hgrows, hstop⟩) (Nat.le_trans hstop hle)

/-- **A group in the innermost scope**, with what fills its scope, and what fills those around it. -/
theorem Fills.group {n depth : Nat} {inherited : Option Registry} {group : Option (Bytes × Nat)} (hk : v.kind = .group)
    (hcount : v.count = some n) (hpos : ∀ n, l.waiting = some n → 0 < n)
    (hreduces : Reduces stage ((outer, l.less) :: ls) lsp)
    (h : Fills stage ((v :: outer, ⟨some n, false, l.stop, inherited, depth, group⟩) :: lsp) (v.start + v.consumed)
      ps) : Fills stage ((outer, l) :: ls) v.start ((outer, v) :: ps) := by
  cases h with
  | @whole _ _ _ F _ _ ps hwaiting htiles hrest =>
    exact (hreduces.fills hrest).cons hpos ((Forest.under_group hk).2 ⟨hcount.trans hwaiting, htiles⟩)
  | @cut _ _ _ F _ ps hwaiting hspans hmissing hrest =>
    -- the group is left where the frame ends, and so are those around it in the frame
    have htrees := hwaiting n rfl
    have hleft : Forest.Left .cut v F (F.Spans .cut false) l.stop :=
      (Forest.left_group hk).2 ⟨Stage.noConfusion, ⟨n, hcount, htrees⟩, hspans⟩
    have hsum : (Forest.cons v F .nil).missing + (awaited ((outer, l) :: ls) - (0 + 1)) =
        F.missing + (n + awaited lsp - F.trees) := by
      rw [awaited_less hpos, ← hreduces.awaited_eq, Forest.missing, if_pos hk, hcount, Option.getD_some, Forest.missing]
      omega
    have hrest : Fills stage (around lsp) l.stop ps := hrest
    rw [hreduces.around_eq, around_less] at hrest
    have hfills : Fills stage ((outer, l) :: ls) v.start ((Forest.cons v F .nil).paths outer ++ ps) :=
      .cut hpos ⟨rfl, .inr ⟨rfl, hleft⟩⟩ (hsum ▸ hmissing) hrest
    rw [Forest.paths, Forest.paths, List.append_nil] at hfills
    exact hfills
  | begun hstage hwaiting hgrows hstop =>
    exact .left hstage hpos ((Forest.left_group hk).2 ⟨Stage.noConfusion, ⟨n, hcount, hwaiting n rfl⟩, hgrows⟩) hstop

end

/-! ## Frames and groups -/

section

variable {r : Registry} {length cursor : Nat} {l : Scope} {outer : List Value} {ls : List (List Value × Scope)}
  {frames : List Frame} {f : Frame} {v : Value} {stage : Stage}

theorem Encloses.cons {frames' : List Frame} (h : Encloses r length frames ls)
    (hscopes : scopes frames' = l :: scopes frames) (hl : l.Holds r length outer) :
    Encloses r length frames' ((outer, l) :: ls) :=
  ⟨by rw [List.map_cons, h.scopes_eq, hscopes], List.forall_mem_cons.2 ⟨hl, h.holds⟩⟩

/-- The scopes of the innermost frame wait for what its groups wait for; the others are around it. -/
theorem Encloses.frame (h : Encloses r length (f :: frames) ls) :
    (∃ outer l ls', ls = (outer, l) :: ls' ∧ l.stop = f.stop) ∧ awaited ls = f.outstanding ∧
      Encloses r length frames (around ls) := by
  obtain ⟨stop, mode, context, groups⟩ := f
  obtain ⟨hscopes, hholds⟩ := h
  induction groups generalizing ls with
  | nil =>
    obtain ⟨⟨outer, l⟩, ls, rfl, hl, hls⟩ := List.map_eq_cons_iff.1 hscopes
    obtain rfl : l = Frame.scope ⟨stop, mode, context, []⟩ (frames.length + 1) := hl
    exact ⟨⟨outer, _, ls, rfl, rfl⟩, rfl, hls, fun l hl => hholds l (List.mem_cons_of_mem _ hl)⟩
  | cons g groups ih =>
    obtain ⟨⟨outer, l⟩, ls, rfl, hl, hls⟩ := List.map_eq_cons_iff.1 hscopes
    obtain rfl : l = Frame.groupScope ⟨stop, mode, context, groups⟩ (frames.length + 1) g := hl
    obtain ⟨-, hawaited, haround⟩ := ih hls (fun l hl => hholds l (List.mem_cons_of_mem _ hl))
    refine ⟨⟨outer, _, ls, rfl, rfl⟩, ?_, haround⟩
    show g.2 + awaited ls = g.2 + Frame.outstanding ⟨stop, mode, context, groups⟩
    rw [hawaited]

/-- **Frames that are read to their end take no values**: what their groups still wait for is zero as a word. -/
theorem Encloses.closed :
    ∀ {closed : List Frame} {ls : List (List Value × Scope)}, Encloses r length (closed ++ frames) ls →
      (∀ f ∈ closed, f.stop = cursor ∧ f.pending = 0) →
      ∃ ls', Encloses r length frames ls' ∧ ∀ ps, Fills stage ls' cursor ps → Fills stage ls cursor ps
  | [], ls, h, _ => ⟨ls, h, fun _ hps => hps⟩
  | f :: closed, ls, h, hclosed => by
    obtain ⟨hstop, hpending⟩ := hclosed f List.mem_cons_self
    obtain ⟨⟨outer, l, ls, rfl, hl⟩, hawaited, haround⟩ := h.frame
    obtain ⟨ls', hencloses, hfills⟩ := haround.closed (fun g hg => hclosed g (List.mem_cons_of_mem _ hg))
    have hl : l.stop = cursor := hl.trans hstop
    refine ⟨ls', hencloses, fun ps hps => ?_⟩
    refine .cut (F := .nil) (fun n _ => Nat.zero_le n) hl.symm ?_ (hl ▸ hfills ps hps)
    rw [Frame.pending_eq, ← hawaited] at hpending
    exact Nat.dvd_of_mod_eq_zero ((congrArg (· % 2 ^ 64) (Nat.zero_add (awaited ((outer, l) :: ls)))).trans hpending)

/-- Where a stream breaks off, nothing more fills what is open. -/
theorem Encloses.fills_nil (h : Encloses r length frames ls) (hcursor : ∀ f ∈ frames, cursor ≤ f.stop) :
    Fills .begun ls cursor [] := by
  cases frames with
  | nil =>
    obtain rfl := List.map_eq_nil_iff.1 h.scopes_eq
    exact .nil
  | cons f frames =>
    obtain ⟨⟨outer, l, ls, rfl, hl⟩, -, -⟩ := h.frame
    exact .begun (F := .nil) rfl (fun n _ => Nat.zero_le n) rfl (hl ▸ hcursor f List.mem_cons_self)

/-- **Taking a value off the innermost group** leaves one tree less in the innermost scope; of the scope's registry,
extent and place, the frame and its group say what the enclosing values say. -/
theorem Encloses.popped (stage : Stage) (h : Encloses r length (f :: frames) ls) (hwaiting : ∀ g ∈ f.groups, 0 < g.2) :
    ∃ outer l ls', ls = (outer, l) :: ls' ∧ l.inherited = (f.groups.head?.bind (fun g => g.1.context)).or f.context ∧
      l.stop = f.stop ∧ l.top = (f.groups.head?.isNone && f.mode = .coldStart) ∧ l.depth = frames.length + 1 ∧
      l.group = f.groups.head?.map (fun g => g.1.announced) ∧ (∀ n, l.waiting = some n → 0 < n) ∧
      ∃ lsp, Encloses r length ({ f with groups := Quadlet.popped f.groups } :: frames) lsp ∧
        Reduces stage ((outer, l.less) :: ls') lsp := by
  obtain ⟨stop, mode, context, groups⟩ := f
  obtain ⟨hscopes, hholds⟩ := h
  cases groups with
  | nil =>
    obtain ⟨⟨outer, l⟩, ls', rfl, hl, hls⟩ := List.map_eq_cons_iff.1 hscopes
    obtain rfl : l = Frame.scope ⟨stop, mode, context, []⟩ (frames.length + 1) := hl
    exact ⟨outer, _, ls', rfl, rfl, rfl, (Bool.true_and _).symm, rfl, rfl, fun n hn => (by cases hn), _,
      ⟨hscopes, hholds⟩, rfl, rfl, fun hps => hps⟩
  | cons g rest =>
    obtain ⟨group, n⟩ := g
    have hpos : 0 < n := hwaiting (group, n) List.mem_cons_self
    obtain ⟨⟨outer, l⟩, ls', rfl, hl, hls⟩ := List.map_eq_cons_iff.1 hscopes
    obtain rfl : l = Frame.groupScope ⟨stop, mode, context, rest⟩ (frames.length + 1) (group, n) := hl
    have hholds' : ∀ l ∈ ls', l.2.Holds r length l.1 := fun l hl => hholds l (List.mem_cons_of_mem _ hl)
    refine ⟨outer, _, ls', rfl, rfl, rfl, rfl, rfl, rfl, fun m hm => by cases hm; exact hpos, ?_⟩
    by_cases hn : n ≤ 1
    · -- the group's last value: its scope waits for nothing behind it
      obtain rfl : n = 1 := by omega
      exact ⟨ls', ⟨hls, hholds'⟩, (Nat.zero_add _).symm, rfl, fun hps => hps.skip rfl⟩
    · rw [Quadlet.popped, if_neg hn]
      obtain ⟨hregistry, hstop, htop, hdepth, hgroup⟩ := hholds _ List.mem_cons_self
      refine ⟨(outer, _) :: ls', ⟨?_, List.forall_mem_cons.2 ⟨?_, hholds'⟩⟩, rfl, rfl, fun hps => hps⟩
      · rw [List.map_cons, hls]
        rfl
      · exact ⟨hregistry, hstop, htop, hdepth, hgroup⟩

theorem Scope.Holds.inFrame (hl : l.Holds r length outer) (hk : v.kind = .frame) :
    Scope.Holds ⟨none, false, v.stop, l.inherited, l.depth + 1, none⟩ r length (v :: outer) where
  registry := by
    have hname : v.contextName? = none := if_neg (by rw [hk]; decide)
    rw [Registry.inside, hl.registry, hname]
    rfl
  stop := if_pos hk
  top := rfl
  depth := by rw [frameCount_cons, if_pos hk, hl.depth]
  group := if_neg (by rw [hk]; decide)

theorem Scope.Holds.inGroup (hl : l.Holds r length outer) {c : CodeHeader} {context other : Option Registry}
    {waiting : Option Nat} (hheader : v.header = .code c) (hk : v.kind = .group)
    (hnamed : Session.groupContext (l.inherited.getD r) l.inherited c = .ok context)
    (hother : l.inherited.or other = l.inherited) :
    Scope.Holds ⟨waiting, false, l.stop, context.or other, l.depth, some (c.descriptor.selector, c.count.getD 0)⟩ r
      length (v :: outer) where
  registry := by
    have hname : v.contextName? = c.descriptor.context := by
      rw [Value.contextName?, if_pos hk, hheader]
      rfl
    rw [Registry.inside, hl.registry, hname]
    -- a group that names no context passes on what it inherits, so the frame's own context does not show
    unfold Session.groupContext CodeHeader.hasContext at hnamed
    cases hcontext : c.descriptor.context with
    | none =>
      rw [hcontext] at hnamed
      cases hnamed
      dsimp only
      rw [hother]
      rfl
    | some name =>
      rw [hcontext] at hnamed
      obtain ⟨q, hq, rfl⟩ := map_eq_ok.1 hnamed
      unfold CodeHeader.context at hq
      rw [hcontext] at hq
      exact hq
  stop := (if_neg (by rw [hk]; decide)).trans hl.stop
  top := rfl
  depth := by rw [frameCount_cons, if_neg (by rw [hk]; decide), hl.depth]
  group := by
    rw [List.head?_cons, Option.bind_some, Value.asGroup?, if_pos hk, hheader]
    rfl

end

end Quadlet
