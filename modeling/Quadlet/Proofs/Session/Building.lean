import Quadlet.Proofs.Session.Items
import Quadlet.Proofs.Session.Run
import Quadlet.Proofs.UrlText
/-!
# Building — what was built is read again

`Yields` is a stretch of a session, from one state to another.  Items that were built for the registry in force and
stand at the cursor take the session over them (`yielded`): behind them the cursor is at their end and the
innermost group waits for so many values less, whatever is open around them.  Over a whole stream this is the round
trip.
-/
namespace Quadlet

/-! ## Text in the input -/

def Bytes.StandsAt (t input : Bytes) (offset : Nat) : Prop := ∃ p q, input = p ++ t ++ q ∧ p.length = offset

namespace Bytes

variable {t u input : Bytes} {offset stop : Nat}

theorem StandsAt.append (h : StandsAt (t ++ u) input offset) :
    StandsAt t input offset ∧ StandsAt u input (offset + t.length) := by
  obtain ⟨p, q, rfl, rfl⟩ := h
  refine ⟨⟨p, u ++ q, by simp only [List.append_assoc], rfl⟩, ⟨p ++ t, q, by simp only [List.append_assoc], ?_⟩⟩
  rw [List.length_append]

theorem StandsAt.take_slice (h : StandsAt t input offset) (hstop : offset + t.length ≤ stop) :
    (input.slice offset stop).take t.length = t := by
  obtain ⟨p, q, rfl, rfl⟩ := h
  rw [slice, List.take_drop, List.take_take, Nat.min_eq_left hstop, ← List.length_append, List.take_left,
    List.drop_left]

end Bytes

/-! ## Stretches of a session -/

namespace State

def poppedBy : Nat → List (Group × Nat) → List (Group × Nat)
  | 0, groups => groups
  | n + 1, groups => poppedBy n (popped groups)

theorem poppedBy_nil : ∀ n, poppedBy n [] = []
  | 0 => rfl
  | n + 1 => poppedBy_nil n

/-- A group that was opened is gone when all its values are taken. -/
theorem poppedBy_count (group : Group) (groups : List (Group × Nat)) :
    ∀ n, poppedBy n (if n = 0 then groups else (group, n) :: groups) = groups
  | 0 => rfl
  | 1 => rfl
  | n + 2 => poppedBy_count group groups (n + 1)

/-- The state with `n` values of the innermost group read, and `length` bytes. -/
def past (s : State) (n length : Nat) : State :=
  { s.withGroups (poppedBy n s.frame.groups) with cursor := s.cursor + length }

theorem past_zero (s : State) : s.past 0 0 = s := by
  show { s.withGroups s.frame.groups with cursor := s.cursor } = s
  rw [s.withGroups_self]

theorem withGroups_past (s : State) (groups groups' : List (Group × Nat)) (n : Nat) :
    State.withGroups { s.withGroups groups with cursor := n } groups' = { s.withGroups groups' with cursor := n } := by
  obtain ⟨root, nested, cursor⟩ := s
  cases nested <;> rfl

/-- A group that names no context passes on what it inherits, so the frame's own context does not show. -/
theorem inherited_or_context (s : State) : s.inherited.or s.frame.context = s.inherited := by
  rw [inherited, Option.or_assoc, Option.or_self]

theorem past_taken (s : State) (m n length : Nat) : (s.taken m).past n length = s.past (n + 1) (m + length) := by
  rw [past, frame_taken, State.taken, withGroups_past, past]
  simp only [Nat.add_assoc]
  rfl

theorem past_pushGroup (s : State) (group : Group) (m length : Nat) :
    ((s.taken m).pushGroup group).past group.count length = s.taken (m + length) := by
  rw [past, pushGroup_eq, frame_withGroups, frame_taken]
  dsimp only
  rw [poppedBy_count, State.taken, withGroups_past, withGroups_past, State.taken]
  simp only [cursor_withGroups, Nat.add_assoc]

theorem settle_past_pushFrame (s : State) (context : Option Registry) (m n length : Nat) :
    (((s.taken m).pushFrame (s.cursor + m + length) context).past n length).settle = (s.taken (m + length)).settle := by
  have hgroups : poppedBy n ((s.taken m).pushFrame (s.cursor + m + length) context).frame.groups = [] := poppedBy_nil n
  have hsettles : Settles { ((s.taken m).pushFrame (s.cursor + m + length) context).withGroups [] with
      cursor := s.cursor + m + length } (s.taken (m + length))
      [{ stop := s.cursor + m + length, mode := .coded, context }] := by
    refine ⟨rfl, fun f hf => ?_, rfl, (Nat.add_assoc _ _ _).symm⟩
    obtain rfl := List.mem_singleton.1 hf
    exact ⟨Nat.le_refl _, rfl⟩
  rw [past, hgroups]
  exact hsettles.settle_eq

end State

namespace Session

/-- **From one state to another, a session yields values.**  Frames that are read to their end make no difference. -/
inductive Yields (r : Registry) (input : Bytes) : State → List (ValueKind × Value) → State → Prop where
  | stay {s t : State} (settle : s.settle = t.settle) : Yields r input s [] t
  | next {s st t : State} {v : Value} {transition : Transition} {vs : List (ValueKind × Value)}
    (finds : Finds ⟨input, r, s, none, false⟩ st v transition)
    (rest : Yields r input ((st.taken v.consumed).apply transition) vs t) :
    Yields r input s ((v.kind, v.shift st.cursor) :: vs) t

variable {r : Registry} {input : Bytes} {s t u : State} {vs ws : List (ValueKind × Value)}

theorem Yields.of_settle (h : s.settle = t.settle) (ht : Yields r input t vs u) : Yields r input s vs u := by
  cases ht with
  | stay hsettle => exact .stay (h.trans hsettle)
  | next hf hrest => exact .next ⟨h.trans hf.settled, hf.read, hf.opens, hf.inside⟩ hrest

theorem Yields.append (h : Yields r input s vs t) (ht : Yields r input t ws u) : Yields r input s (vs ++ ws) u := by
  induction h with
  | stay hsettle => exact ht.of_settle hsettle
  | next hf _ ih => exact .next hf (ih ht)

theorem Yields.run (h : Yields r input s vs t) (ht : t.settle = (.ok false, u)) (version : Option VersionHeader) :
    ∃ found last, Run ⟨input, r, s, version, false⟩ found .finished last ∧
      found.map (fun p => (p.1.kind, p.1.value)) = vs := by
  induction h generalizing version with
  | stay hsettle => exact ⟨[], _, .finished (step_of_settle_false (hsettle.trans ht)), rfl⟩
  | @next _ st _ v transition _ hf _ ih =>
    obtain ⟨found, last, hrun, hfound⟩ := ih ht (v.header.asVersion?.or version)
    have hf' : Finds ⟨input, r, _, version, false⟩ st v transition := ⟨hf.settled, hf.read, hf.opens, hf.inside⟩
    refine ⟨_, last, .found hf'.step hrun, ?_⟩
    rw [List.map_cons, hfound]
    rfl

/-! ## What a frame waits for -/

/-- The innermost frame is to go on with `n` items that are built for a view: members of its innermost group, or more of
its body. -/
inductive Expects (f : Frame) (view : View) (top : Bool) : (n : Nat) → Prop where
  | nothing : Expects f view top 0
  | body {n : Nat} (groups : f.groups = []) (registry : f.context.getD .keriV1 = inView view)
    (cold : top = decide (f.mode = .coldStart)) : Expects f view top n
  | members {n waiting : Nat} {group : Group} {outer : List (Group × Nat)}
    (groups : f.groups = (group, waiting) :: outer) (enough : n ≤ waiting)
    (registry : (group.context.or f.context).getD .keriV1 = inView view) (coded : top = false) : Expects f view top n

variable {view : View} {top : Bool} {n : Nat}

theorem Expects.taken (h : Expects s.frame view top (n + 1)) (m : Nat) : Expects (s.taken m).frame view top n := by
  rw [State.frame_taken]
  cases h with
  | body hgroups hregistry hcold => exact .body (by rw [hgroups]; rfl) hregistry hcold
  | @members _ waiting group outer hgroups henough hregistry hcoded =>
    rw [hgroups]
    by_cases hlast : waiting ≤ 1
    · obtain rfl : n = 0 := by omega
      exact .nothing
    · refine .members (by rw [popped, if_neg hlast]) (by omega) hregistry hcoded

/-- The registry in force and the way of reading are those that the next item is built for. -/
theorem Expects.next (h : Expects s.frame view top (n + 1)) :
    s.inherited.getD .keriV1 = inView view ∧ (s.group.isNone && s.frame.mode = .coldStart) = top := by
  cases h with
  | body hgroups hregistry hcold =>
    have hgroup : s.group = none := by rw [State.group, hgroups]; rfl
    rw [State.inherited, hgroup, hcold]
    exact ⟨hregistry, rfl⟩
  | @members _ waiting group outer hgroups henough hregistry hcoded =>
    have hgroup : s.group = some group := by rw [State.group, hgroups]; rfl
    rw [State.inherited, hgroup, hcoded]
    exact ⟨hregistry, rfl⟩

/-- A text at the cursor that is read as one value of its length is found. -/
theorem finds_of_coded {t : Bytes} {v : Value} {transition : Transition} (h : Expects s.frame view top (n + 1))
    (hstands : t.StandsAt input s.cursor) (hinside : s.cursor + t.length ≤ s.frame.stop)
    (hread : Value.coded (inView view) t = .ok v) (hlength : v.length = t.length)
    (hcold : top = true → StartsCold t) (hopens : Opens (inView view) s.inherited (v.shift s.cursor) transition) :
    Finds ⟨input, .keriV1, s, none, false⟩ s v transition := by
  obtain ⟨hregistry, htop⟩ := h.next
  obtain ⟨hframed, hlooks⟩ := Value.framed_coded (loaded_inView view) hread
  have hpos := hframed.length_pos
  have hconsumed := hframed.consumed_le
  have hspan : (input.slice s.cursor s.frame.stop).take v.length = t.take v.length := by
    rw [hlength, hstands.take_slice hinside, List.take_length]
  have hcoded := hlooks.of_take (fun _ => primitivesFit_inView view) hspan
  have hlt : s.cursor < s.frame.stop := by omega
  refine ⟨State.settle_of_lt hlt, ?_, by rw [inForce, hregistry]; exact hopens, by omega⟩
  simp only [readAt, inForce, htop, hregistry]
  cases htop' : top with
  | false => exact hcoded
  | true =>
    obtain ⟨c, hc, hbits⟩ := (hcold htop').countText
    rw [if_pos rfl, Value.sniff_of_head? ((Bytes.head?_eq_of_take_eq hpos hspan).trans hc), hbits]
    exact hcoded

theorem finds_of_json {t : Bytes} {h : VersionHeader} (hexpects : Expects s.frame view true (n + 1))
    (hstands : t.StandsAt input s.cursor) (hinside : s.cursor + t.length ≤ s.frame.stop)
    (hread : VersionHeader.read t = .ok h) (hsize : h.size = t.length) :
    Finds ⟨input, .keriV1, s, none, false⟩ s ⟨.version h, 0, t.length⟩ .stay := by
  obtain ⟨-, htop⟩ := hexpects.next
  have hvalue : Value.serialization t = .ok ⟨.version h, 0, t.length⟩ :=
    Value.serialization_eq_ok.2 ⟨h, hread, Nat.le_of_eq hsize, by rw [hsize]⟩
  obtain ⟨hframed, htake⟩ := Value.framed_serialization hvalue
  have hpos : 0 < t.length := hframed.length_pos
  have hspan : (input.slice s.cursor s.frame.stop).take t.length = t.take t.length := by
    rw [hstands.take_slice hinside, List.take_length]
  have hlt : s.cursor < s.frame.stop := by omega
  refine ⟨State.settle_of_lt hlt, ?_, .stay (.inl rfl), hinside⟩
  simp only [readAt, htop, if_true]
  rw [Value.sniff_of_head? ((Bytes.head?_eq_of_take_eq hpos hspan).trans (VersionHeader.head?_of_read hread))]
  exact htake _ hspan

/-- The members of a group are read in the view that its counter names, or else as the group itself is. -/
theorem groupContext_eq_ok (c : GroupCode) (digits : Bytes) (k : Nat)
    (hregistry : s.inherited.getD .keriV1 = inView view) :
    ∃ context, groupContext (inView view) s.inherited (c.header k digits) = .ok context ∧
      (context.or s.frame.context).getD .keriV1 = inView (c.view.getD view) := by
  cases hview : c.view with
  | none =>
    refine ⟨s.inherited, ?_, ?_⟩
    · rw [groupContext, CodeHeader.hasContext, GroupCode.header, GroupCode.descriptor, hview]
      rfl
    · rw [s.inherited_or_context, hregistry]
      rfl
  | some w =>
    refine ⟨some (inView w), ?_, rfl⟩
    rw [groupContext, CodeHeader.hasContext, CodeHeader.context, GroupCode.header, GroupCode.descriptor, hview]
    cases w <;> rfl

/-! ## Items -/

theorem length_code {c : GroupCode} {k : Nat} {digits : Bytes} (hc : c ∈ groupCodes)
    (hwrite : Numeral.write k 2 = .ok digits) : (c.descriptor.selector ++ digits).length = 4 := by
  have hselector : ∀ c ∈ groupCodes, c.descriptor.selector.length = 2 := by decide
  rw [List.length_append, hselector c hc, (Numeral.write_eq_ok hwrite).2.2]

/-- Built items at the cursor are yielded, each with its kind and span, and then they are behind it. -/
def Yielded (input : Bytes) (items : Items) : Prop :=
  ∀ (view : View) (top : Bool) (s : State), items.Built view top → Expects s.frame view top items.size →
    items.text.StandsAt input s.cursor → s.cursor + items.text.length ≤ s.frame.stop →
      Yields .keriV1 input s (items.values s.cursor) (s.past items.size items.text.length)

theorem Yielded.beside {rest : Items} {t : Bytes} (hrest : Yielded input rest) (hbuilt : rest.Built view top)
    (hexpects : Expects s.frame view top (rest.size + 1)) (hstands : (t ++ rest.text).StandsAt input s.cursor)
    (hinside : s.cursor + (t ++ rest.text).length ≤ s.frame.stop)
    (hfirst : Yields .keriV1 input s vs (s.taken t.length)) :
    Yields .keriV1 input s (vs ++ rest.values (s.cursor + t.length))
      (s.past (rest.size + 1) (t ++ rest.text).length) := by
  rw [List.length_append] at hinside ⊢
  have hbeside := hrest view top _ hbuilt (hexpects.taken t.length) hstands.append.2
    (by rw [State.frame_taken]; show s.cursor + t.length + _ ≤ s.frame.stop; omega)
  rw [State.past_taken] at hbeside
  exact hfirst.append hbeside

theorem Yielded.leaf {t : Bytes} {v : Value} {rest : Items} (hrest : Yielded input rest) :
    Yielded input (.leaf t v rest) := by
  rintro view top s ⟨⟨hread, hlength, hkind, hcold⟩, hbuilt⟩ hexpects hstands hinside
  have hle : s.cursor + t.length ≤ s.frame.stop := by
    rw [Items.text, List.length_append] at hinside
    omega
  have hf := finds_of_coded hexpects hstands.append.1 hle hread hlength hcold (.stay (.inr hkind))
  have hconsumed : v.consumed = t.length := (Value.consumed_of_stay (.inr hkind)).trans hlength
  have hfirst : Yields .keriV1 input s [(.leaf, v.shift s.cursor)] (s.taken t.length) := by
    rw [← hkind]
    exact .next hf (.stay (by rw [hconsumed]; rfl))
  exact hrest.beside hbuilt hexpects hstands hinside hfirst

theorem Yielded.json {t : Bytes} {h : VersionHeader} {rest : Items} (hrest : Yielded input rest) :
    Yielded input (.json t h rest) := by
  rintro view top s ⟨⟨rfl, hread, hsize⟩, hbuilt⟩ hexpects hstands hinside
  have hle : s.cursor + t.length ≤ s.frame.stop := by
    rw [Items.text, List.length_append] at hinside
    omega
  have hfirst : Yields .keriV1 input s [(.serialization, ⟨.version h, s.cursor, t.length⟩)] (s.taken t.length) := by
    have hnext := Yields.next (finds_of_json hexpects hstands.append.1 hle hread hsize) (.stay rfl)
    rw [Value.shift, Nat.zero_add] at hnext
    exact hnext
  exact hrest.beside hbuilt hexpects hstands hinside hfirst

/-- A group is its counter and its members, read at a level of their own. -/
theorem Yielded.group {c : GroupCode} {k : Nat} {digits : Bytes} {members rest : Items}
    (hmembers : Yielded input members) (hrest : Yielded input rest) :
    Yielded input (.group c k digits members rest) := by
  rintro view top s ⟨⟨hc, hwrite, hsize, hbuilt'⟩, hbuilt⟩ hexpects hstands hinside
  have hcode := length_code hc hwrite
  have hlength : (c.descriptor.selector ++ digits ++ members.text).length = 4 + members.text.length := by
    rw [List.length_append, hcode]
  have hle : s.cursor + 4 + members.text.length ≤ s.frame.stop := by
    rw [Items.text, List.length_append, hlength] at hinside
    omega
  have hfirst : Yields .keriV1 input s
      ((.group, ⟨.code (c.header k digits), s.cursor, 4⟩) :: members.values (s.cursor + 4))
      (s.taken (4 + members.text.length)) := by
    obtain ⟨hhere, hthere⟩ := hstands.append.1.append
    rw [hcode] at hthere
    obtain ⟨context, hcontext, hregistry⟩ := groupContext_eq_ok c digits k hexpects.next.1
    have hstart : ∀ c ∈ groupCodes, c.descriptor.selector.head? = some counterStart := by decide
    have hf := finds_of_coded hexpects hhere (by rw [hcode]; omega) (GroupCode.coded view hc hwrite) hcode.symm
      (fun _ => startsCold_of_counter (by rw [List.head?_append, hstart c hc]; rfl)) (.group rfl rfl hcontext)
    -- behind the counter its group waits, unless it has no members
    have hopen : Expects ((s.taken 4).pushGroup ⟨c.descriptor.selector, c.multiplier.apply k, context⟩).frame
        (c.view.getD view) false members.size := by
      rw [State.pushGroup_eq, State.frame_withGroups, State.frame_taken]
      by_cases hzero : c.multiplier.apply k = 0
      · rw [hsize, hzero]
        exact .nothing
      · exact .members (if_neg hzero) (Nat.le_of_eq hsize) hregistry rfl
    have hcursor : ((s.taken 4).pushGroup ⟨c.descriptor.selector, c.multiplier.apply k, context⟩).cursor =
        s.cursor + 4 := by
      rw [State.pushGroup_eq, State.cursor_withGroups]
      rfl
    have hinner := hmembers _ false _ hbuilt' hopen (by rw [hcursor]; exact hthere)
      (by rw [hcursor, State.pushGroup_eq, State.frame_withGroups, State.frame_taken]; exact hle)
    rw [hcursor, hsize, State.past_pushGroup s ⟨_, c.multiplier.apply k, context⟩] at hinner
    have hnext := Yields.next hf hinner
    rw [Value.shift, Nat.zero_add] at hnext
    exact hnext
  rw [← hlength] at hfirst
  have hbeside := hrest.beside hbuilt hexpects hstands hinside hfirst
  rw [hlength, ← Nat.add_assoc] at hbeside
  exact hbeside

/-- A frame is its counter and its body; the frame that it opens is closed when the body is read. -/
theorem Yielded.frame {quadlets : Nat} {digits : Bytes} {body rest : Items} (hbody : Yielded input body)
    (hrest : Yielded input rest) : Yielded input (.frame quadlets digits body rest) := by
  rintro view top s ⟨⟨hwrite, hquadlets, hbuilt'⟩, hbuilt⟩ hexpects hstands hinside
  have hcode : (frameDescriptor.selector ++ digits).length = 4 := by
    rw [List.length_append, (Numeral.write_eq_ok hwrite).2.2]
    rfl
  have hlength : (frameDescriptor.selector ++ digits ++ body.text).length = 4 + body.text.length := by
    rw [List.length_append, hcode]
  have hle : s.cursor + 4 + body.text.length ≤ s.frame.stop := by
    rw [Items.text, List.length_append, hlength] at hinside
    omega
  have hfirst : Yields .keriV1 input s
      ((.frame, ⟨.code (frameHeader quadlets digits), s.cursor, 4 + 4 * quadlets⟩) :: body.values (s.cursor + 4))
      (s.taken (4 + body.text.length)) := by
    have hwhole := hstands.append.1
    obtain ⟨-, hthere⟩ := hwhole.append
    rw [hcode] at hthere
    obtain ⟨hregistry, -⟩ := hexpects.next
    have hf := finds_of_coded hexpects hwhole (by rw [hlength]; omega) (coded_frame view hwrite hquadlets)
      (by rw [hlength, hquadlets]) (fun _ => startsCold_of_counter rfl) (.frame rfl)
    have hstop : (Value.shift ⟨.code (frameHeader quadlets digits), 0, 4 + 4 * quadlets⟩ s.cursor).stop =
        s.cursor + 4 + body.text.length := by
      show 0 + s.cursor + (4 + 4 * quadlets) = _
      omega
    have hinner := hbody view false ((s.taken 4).pushFrame (s.cursor + 4 + body.text.length) s.inherited) hbuilt'
      (.body rfl hregistry rfl) hthere (Nat.le_refl _)
    have hnext := Yields.next hf (by rw [hstop]; exact hinner.append (.stay (State.settle_past_pushFrame s _ 4 _ _)))
    rw [Value.shift, Nat.zero_add, List.append_nil] at hnext
    exact hnext
  rw [← hlength] at hfirst
  have hbeside := hrest.beside hbuilt hexpects hstands hinside hfirst
  rw [hlength, ← Nat.add_assoc] at hbeside
  exact hbeside

/-- **Built items are yielded wherever they stand.** -/
theorem yielded (input : Bytes) : ∀ items : Items, Yielded input items
  | .nil => fun _ _ s _ _ _ _ => .stay (by rw [Items.size, Items.text, List.length_nil, s.past_zero])
  | .leaf _ _ rest => Yielded.leaf (yielded input rest)
  | .group _ _ _ members rest => Yielded.group (yielded input members) (yielded input rest)
  | .frame _ _ body rest => Yielded.frame (yielded input body) (yielded input rest)
  | .json _ _ rest => Yielded.json (yielded input rest)

/-- **Reading undoes building.**  A stream of items is read to its end, and its values are those of the items, each with
its kind and span. -/
theorem decode_text {items : Items} (h : items.Built .matter true) :
    decode .keriV1 items.text = ((items.values 0).map Prod.snd, .finished) ∧
      (recorded .keriV1 items.text).map (fun (kind, _, v) => (kind, v)) = items.values 0 := by
  have hyields := yielded items.text items .matter true (.start items.text.length) h (.body rfl rfl rfl)
    ⟨[], [], (List.append_nil _).symm, rfl⟩ (Nat.le_of_eq (Nat.zero_add _))
  have hend : ((State.start items.text.length).past items.size items.text.length).settle =
      (.ok false, (State.start items.text.length).past items.size items.text.length) := by
    refine State.settle_of_root rfl ⟨Nat.le_of_eq (Nat.zero_add _).symm, ?_⟩
    show Frame.pending { stop := _, mode := _, context := _, groups := State.poppedBy items.size [] } = 0
    rw [State.poppedBy_nil]
    rfl
  obtain ⟨found, last, hrun, hfound⟩ := hyields.run hend none
  have hrun : Run (start items.text .keriV1) found .finished last := hrun
  have hfound : found.map (fun p => (p.1.kind, p.1.value)) = items.values 0 := hfound
  rw [decode_of_run Registry.loaded_keriV1 hrun, recorded_of_run Registry.loaded_keriV1 hrun, ← hfound, values]
  simp only [List.map_map]
  exact ⟨rfl, rfl⟩

/-- The header of a two-byte number. -/
def numberHeader : CodeHeader :=
  { descriptor := (KeriV1.plain 1 4 0).primitive (Bytes.ofString "M") (some "Short") .fixedSize
    digits := []
    leadBytes := some 0 }

/-- The header of a signature by the second key. -/
def signatureHeader : CodeHeader :=
  { descriptor := (KeriV1.indexed 1 1 0 88).primitive (Bytes.ofString "A") (some "Ed25519_Sig") .indexer
    digits := Bytes.ofString "B"
    leadBytes := some 0
    index := some 1 }

/-- An event, a couple of numbers, and a frame of an indexed signature and a number. -/
def sampleItems : Items :=
  let number : Items → Items := .leaf (Bytes.ofString "MAAB") ⟨.code numberHeader, 0, 4⟩
  .json (Bytes.ofString "\x7b\"v\":\"KERI10JSON000019_\"\x7d")
    ⟨Bytes.ofString "KERI10", Bytes.ofString "JSON", Bytes.ofString "000019", 25⟩
    (.group ⟨"-C", "NonTransReceiptCouples", .twice, "x2", none⟩ 1 (Bytes.ofString "AB") (number (number .nil))
      (.frame 24 (Bytes.ofString "AY")
        (.group ⟨"-A", "ControllerIdxSigs", .once, "x1", some .indexer⟩ 1 (Bytes.ofString "AB")
          (.leaf secondSignature ⟨.code signatureHeader, 0, 88⟩ .nil) (number .nil)) .nil))

theorem decode_text_sample :
    sampleItems.Built .matter true ∧
      (decode .keriV1 sampleItems.text).2 = .finished ∧
      (recorded .keriV1 sampleItems.text).map (fun (kind, _, v) => (kind, v.start, v.length)) =
        [(.serialization, 0, 25), (.group, 25, 4), (.leaf, 29, 4), (.leaf, 33, 4), (.frame, 37, 100), (.group, 41, 4),
          (.leaf, 45, 88), (.leaf, 133, 4)] := by
  have hjson : VersionHeader.read (Bytes.ofString "\x7b\"v\":\"KERI10JSON000019_\"\x7d") =
      .ok ⟨Bytes.ofString "KERI10", Bytes.ofString "JSON", Bytes.ofString "000019", 25⟩ :=
    eq_ok_of_toOption (by decide +kernel)
  have hnumber : Value.coded (inView .matter) (Bytes.ofString "MAAB") = .ok ⟨.code numberHeader, 0, 4⟩ :=
    eq_ok_of_toOption (by decide +kernel)
  -- under the view of its group, `A` is a signature with an index
  have hsignature : Value.coded (inView .indexer) secondSignature = .ok ⟨.code signatureHeader, 0, 88⟩ :=
    eq_ok_of_toOption (by decide +kernel)
  have hnumber : ∀ rest : Items, rest.Built .matter false →
      Items.Built .matter false (.leaf (Bytes.ofString "MAAB") ⟨.code numberHeader, 0, 4⟩ rest) :=
    fun rest hrest => ⟨⟨hnumber, by decide, by decide, fun h => (by cases h)⟩, hrest⟩
  have hcouple := hnumber _ (hnumber .nil trivial)
  have hsigned : Items.Built .indexer false (.leaf secondSignature ⟨.code signatureHeader, 0, 88⟩ .nil) :=
    ⟨⟨hsignature, by decide, by decide, fun h => (by cases h)⟩, trivial⟩
  have hbuilt : sampleItems.Built .matter true :=
    ⟨⟨rfl, hjson, by decide⟩, ⟨by decide, rfl, rfl, hcouple⟩,
      ⟨rfl, by decide, ⟨by decide, rfl, rfl, hsigned⟩, hnumber .nil trivial⟩, trivial⟩
  obtain ⟨hdecode, hrecorded⟩ := decode_text hbuilt
  have hspans := congrArg (List.map (fun p => (p.1, p.2.start, p.2.length))) hrecorded
  rw [List.map_map] at hspans
  exact ⟨hbuilt, by rw [hdecode], hspans.trans (by decide)⟩

end Session
end Quadlet
