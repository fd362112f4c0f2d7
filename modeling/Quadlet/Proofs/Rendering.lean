import Quadlet.Report
import Quadlet.Proofs.JsonText
import Quadlet.Proofs.Session.Spans
/-!
# Rendering — a report is the lines of what was decoded

The report calls its hook for each value once, as any hooks are called, so its lines are those of the values in their
order, and where decoding fails it says how far the values before had come (`render_eq`).  A line shows the kind of its
value, where it stands, its span and its header (`Shows`), and as JSON it is read back as the object of the value
(`written_jsonLine`).  Between quotes every control character is escaped, and outside of them an object has only digits
and its own punctuation; so whatever the bytes of a value and the names of its code are, its object is one line
(`oneLine_jsonLine`).
-/
namespace Quadlet

/-! ## One line -/

/-- No character is a control character, which a line break is. -/
def OneLine (s : String) : Prop := ∀ c ∈ s.toList, 0x20 ≤ c.toNat

instance decidableOneLine (s : String) : Decidable (OneLine s) :=
  decidable_of_iff (s.toList.all (fun c => 0x20 ≤ c.toNat) = true)
    (by simp only [List.all_eq_true, decide_eq_true_eq, OneLine])

theorem oneLine_append {s t : String} (hs : OneLine s) (ht : OneLine t) : OneLine (s ++ t) := by
  intro c hc
  rw [String.toList_append] at hc
  exact (List.mem_append.1 hc).elim (hs c) (ht c)

theorem mem_intercalate {α : Type} {c : α} {sep : List α} :
    ∀ {parts : List (List α)}, c ∈ sep.intercalate parts → c ∈ sep ∨ ∃ part ∈ parts, c ∈ part
  | [], h => by cases h
  | [part], h => .inr ⟨part, List.mem_singleton_self _, by rwa [List.intercalate_singleton] at h⟩
  | part :: next :: parts, h => by
    rw [List.intercalate_cons_cons, List.mem_append, List.mem_append] at h
    rcases h with (h | h) | h
    · exact .inr ⟨part, List.mem_cons_self, h⟩
    · exact .inl h
    · exact (mem_intercalate h).imp_right (fun ⟨other, hmem, hc⟩ => ⟨other, List.mem_cons_of_mem _ hmem, hc⟩)

theorem oneLine_intercalate {sep : String} {parts : List String} (hsep : OneLine sep)
    (hparts : ∀ part ∈ parts, OneLine part) : OneLine (sep.intercalate parts) := by
  intro c hc
  rw [String.toList_intercalate] at hc
  rcases mem_intercalate hc with hc | ⟨_, hpart, hc⟩
  · exact hsep c hc
  · obtain ⟨part, hmem, rfl⟩ := List.mem_map.1 hpart
    exact hparts part hmem c hc

theorem oneLine_toString (n : Nat) : OneLine (toString n) := by
  intro c hc
  have hmem : c ∈ Nat.toDigits 10 n := by simpa [toString] using hc
  have hdigit := Nat.isDigit_of_mem_toDigits (by decide) (by decide) hmem
  rw [Char.isDigit, Bool.and_eq_true, decide_eq_true_eq] at hdigit
  exact Nat.le_trans (by decide) hdigit.1

namespace Json.Writer

/-- What stands for a character in a string is not a control character. -/
theorem all_escape (c : Char) : (escape c).all (fun x => 0x20 ≤ x.toNat) = true := by
  rcases Nat.lt_or_ge c.toNat 0x20 with hlow | hhigh
  · -- each of the thirty-two control characters has an escape
    have hall : ∀ n < 0x20, (escape (Char.ofNat n)).all (fun x => 0x20 ≤ x.toNat) = true := by decide
    rw [← c.ofNat_toNat]
    exact hall _ hlow
  · have hne : ∀ d : Char, d.toNat < 0x20 → c ≠ d := by
      rintro d hd rfl
      exact absurd hd (Nat.not_lt.2 hhigh)
    by_cases hquote : c = '"'
    · rw [hquote]
      rfl
    by_cases hslash : c = '\\'
    · rw [hslash]
      rfl
    have hself : escape c = [c] := by simp [escape, hquote, hslash, hne, Nat.not_lt.2 hhigh]
    rw [hself, List.all_cons, List.all_nil, Bool.and_true, decide_eq_true_eq]
    exact hhigh

theorem oneLine_string (s : String) : OneLine (string s) := by
  intro c hc
  rw [string, String.toList_ofList, List.mem_append, List.mem_append, List.mem_singleton, List.mem_flatMap] at hc
  rcases hc with (rfl | ⟨d, -, hc⟩) | rfl
  · decide
  · exact of_decide_eq_true (List.all_eq_true.1 (all_escape d) c hc)
  · decide

/-- An object is one line if its values are: its names are strings. -/
theorem oneLine_object {members : List (String × String)} (h : ∀ m ∈ members, OneLine m.2) :
    OneLine (object members) := by
  have hmembers : ∀ part ∈ members.map (fun m => string m.1 ++ ":" ++ m.2), OneLine part := by
    intro part hpart
    obtain ⟨m, hm, rfl⟩ := List.mem_map.1 hpart
    exact oneLine_append (oneLine_append (oneLine_string m.1) (by decide)) (h m hm)
  exact oneLine_append (oneLine_append (by decide) (oneLine_intercalate (by decide) hmembers)) (by decide)

end Json.Writer

namespace Report

open Json.Writer

theorem forall_optional {α : Type} {name : String} {write : α → String} {o : Option α} :
    (∀ m ∈ optional name write o, OneLine m.2) ↔ ∀ a ∈ o, OneLine (write a) := by
  cases o <;> simp [optional]

theorem oneLine_bytesText (b : Bytes) : OneLine (bytesText b) := oneLine_string _

theorem oneLine_headerText (header : Header) : OneLine (headerText header) := by
  cases header with
  | version h =>
    refine oneLine_object ?_
    simp only [versionMembers, List.forall_mem_cons, oneLine_string, oneLine_bytesText, oneLine_toString,
      List.not_mem_nil, false_imp_iff, implies_true, and_self]
  | code h =>
    refine oneLine_object ?_
    simp only [codeMembers, List.forall_mem_cons, List.forall_mem_append, forall_optional, oneLine_string,
      oneLine_bytesText, oneLine_toString, List.not_mem_nil, false_imp_iff, implies_true, and_self]

/-- **The object of a value is one line**, whatever its bytes and the names of its code are. -/
theorem oneLine_jsonLine (input : Bytes) (kind : ValueKind) (context : HookContext) (v : Value) :
    OneLine (jsonLine input kind context v) := by
  refine oneLine_object ?_
  simp only [List.forall_mem_cons, List.forall_mem_append, forall_optional, oneLine_string, oneLine_bytesText,
    oneLine_toString, oneLine_headerText, List.not_mem_nil, false_imp_iff, implies_true, and_self]

/-! ## What a line shows -/

def textTree (s : String) : Json.Tree := .string (some s)

def bytesTree (b : Bytes) : Json.Tree := textTree (Utf8.decodeLenient b)

def numberTree (n : Nat) : Json.Tree := .number (.ofNat n)

/-- A member that is left out when it has no value. -/
def optionalEntry {α : Type} (name : String) (tree : α → Json.Tree) (o : Option α) : List (Option String × Json.Tree) :=
  (o.map (fun a => (some name, tree a))).toList

def headerTree : Header → Json.Tree
  | .version h => .object [(some "type", textTree "version"), (some "protocol", bytesTree h.protocol),
      (some "kind", bytesTree h.kind), (some "digits", bytesTree h.digits), (some "size", numberTree h.size)]
  | .code h => .object ([(some "type", textTree "code"), (some "selector", bytesTree h.descriptor.selector)] ++
      optionalEntry "name" textTree h.descriptor.name ++
      [(some "kind", textTree (kindName h.descriptor.kind)), (some "digits", bytesTree h.digits),
        (some "code_length", numberTree h.codeLength)] ++
      optionalEntry "lead_bytes" numberTree h.leadBytes ++ optionalEntry "size" numberTree h.size ++
      optionalEntry "quadlets" numberTree h.quadlets ++ optionalEntry "count" numberTree h.count ++
      optionalEntry "index" numberTree h.index ++ optionalEntry "ondex" numberTree h.ondex ++
      optionalEntry "version" bytesTree h.version)

/-- The object of a value: its kind, the depth, the group that it is in if there is one, its span, its header and its
bytes. -/
def valueTree (input : Bytes) (kind : ValueKind) (context : HookContext) (v : Value) : Json.Tree :=
  .object ([(some "kind", textTree (valueKindName kind)), (some "depth", numberTree context.depth)] ++
    optionalEntry "group" (fun g => bytesTree g.selector) context.group ++
    [(some "start", numberTree v.start), (some "length", numberTree v.length), (some "header", headerTree v.header),
      (some "text", bytesTree (v.bytes input))])

/-- **What a line shows of a value.**  As JSON it is a text that is read as the object of the value.  In the tree it is
indented by its nesting, and says the kind, the header and the span. -/
def Shows (input : Bytes) (kind : ValueKind) (context : HookContext) (v : Value) : Format → String → Prop
  | .json, text => text = object (
      [("kind", string (valueKindName kind)), ("depth", toString context.depth)] ++
        (context.group.map (fun g => ("group", bytesText g.selector))).toList ++
        [("start", toString v.start), ("length", toString v.length), ("header", headerText v.header),
          ("text", bytesText (v.bytes input))]) ∧
      Json.Tree.ofString? text = some (valueTree input kind context v)
  | .text, text => text =
      String.ofList (List.replicate (2 * (context.depth - 1 + (if context.group.isSome then 1 else 0))) ' ') ++
        treeKindName kind ++ " " ++ label v.header ++ " @" ++ toString v.start ++ "+" ++ toString v.length

theorem written_bytesText (b : Bytes) : Json.Written (bytesText b) (bytesTree b) := Json.written_string _

theorem entries_optional {α : Type} (name : String) {write : α → String} {tree : α → Json.Tree}
    (h : ∀ a, Json.Written (write a) (tree a)) (o : Option α) :
    Json.Entries (optional name write o) (optionalEntry name tree o) := by
  cases o with
  | none => exact .nil
  | some a => exact .cons ⟨rfl, h a⟩ .nil

theorem written_headerText (header : Header) : Json.Written (headerText header) (headerTree header) := by
  cases header with
  | version h =>
    exact Json.written_object (.cons ⟨rfl, Json.written_string _⟩ (.cons ⟨rfl, written_bytesText _⟩
      (.cons ⟨rfl, written_bytesText _⟩ (.cons ⟨rfl, written_bytesText _⟩ (.cons ⟨rfl, Json.written_nat _⟩ .nil)))))
  | code h =>
    have hselector : Json.Entries [("type", string "code"), ("selector", bytesText h.descriptor.selector)]
        [(some "type", textTree "code"), (some "selector", bytesTree h.descriptor.selector)] :=
      .cons ⟨rfl, Json.written_string _⟩ (.cons ⟨rfl, written_bytesText _⟩ .nil)
    have hlength : Json.Entries
        [("kind", string (kindName h.descriptor.kind)), ("digits", bytesText h.digits),
          ("code_length", toString h.codeLength)]
        [(some "kind", textTree (kindName h.descriptor.kind)), (some "digits", bytesTree h.digits),
          (some "code_length", numberTree h.codeLength)] :=
      .cons ⟨rfl, Json.written_string _⟩ (.cons ⟨rfl, written_bytesText _⟩ (.cons ⟨rfl, Json.written_nat _⟩ .nil))
    have hnumber := fun name => entries_optional name (fun n => (Json.written_nat n : Json.Written _ (numberTree n)))
    exact Json.written_object (hselector.append (entries_optional _ Json.written_string _) |>.append hlength
      |>.append (hnumber _ _) |>.append (hnumber _ _) |>.append (hnumber _ _) |>.append (hnumber _ _)
      |>.append (hnumber _ _) |>.append (hnumber _ _) |>.append (entries_optional _ written_bytesText _))

theorem written_jsonLine (input : Bytes) (kind : ValueKind) (context : HookContext) (v : Value) :
    Json.Written (jsonLine input kind context v) (valueTree input kind context v) := by
  refine Json.written_object (.append (.append ?_ (entries_optional _ (fun _ => written_bytesText _) _)) ?_)
  · exact .cons ⟨rfl, Json.written_string _⟩ (.cons ⟨rfl, Json.written_nat _⟩ .nil)
  · exact .cons ⟨rfl, Json.written_nat _⟩ (.cons ⟨rfl, Json.written_nat _⟩ (.cons ⟨rfl, written_headerText _⟩
      (.cons ⟨rfl, written_bytesText _⟩ .nil)))

theorem shows_line (input : Bytes) (kind : ValueKind) (context : HookContext) (v : Value) (format : Format) :
    Shows input kind context v format (line format input kind context v) := by
  cases format with
  | text => rfl
  | json =>
    refine ⟨?_, (written_jsonLine input kind context v).ofString?_eq⟩
    show jsonLine input kind context v = _
    rw [jsonLine]
    cases context.group <;> rfl

/-! ## The report -/

theorem call_hooks (format : Format) (input : Bytes) (kind : ValueKind) (context : HookContext) (v : Value) :
    (hooks format input).call kind context v = line format input kind context v := by
  cases kind <;> rfl

section

open Session

variable {r : Registry} (hr : r.Loaded) (format : Format) {input : Bytes} {found : List (Observation × State)}
  {ending : Ending} {last : Session} (hrun : Run (start input r) found ending last)
include hr hrun

/-- What is written and what is returned, read off the run. -/
theorem render_of_run :
    render input r format =
      (found.map (fun p => line format input p.1.kind p.1.context p.1.value),
        match ending with
        | .failed e => .error (.decode last.state.cursor e)
        | _ => .ok found.length) := by
  unfold render
  rw [run_of_run hr _ hrun]
  simp only [Id.run, List.map_map, Function.comp_def, call_hooks]
  cases ending <;> simp

/-- The lines of a report are those of the values of its run. -/
theorem lines_render :
    (render input r format).1 = found.map (fun p => line format input p.1.kind p.1.context p.1.value) := by
  rw [render_of_run hr format hrun]

end

theorem kind_eq_of_run {s last : Session} {found : List (Observation × State)} {ending : Session.Ending} (h : s.Sound)
    (hrun : Session.Run s found ending last) : ∀ p ∈ found, p.1.kind = p.1.value.kind := by
  induction hrun with
  | finished => exact fun p hp => (by cases hp)
  | failed => exact fun p hp => (by cases hp)
  | found hstep _ ih =>
    obtain ⟨st, v, transition, hf, rfl, rfl⟩ := h.inBounds.step_eq_found.1 hstep
    exact List.forall_mem_cons.2 ⟨rfl, ih (hf.sound h).1⟩

open Session in
/-- **A report is exactly what was decoded.**  Its lines are those of the values, in their order, and each shows what the
hooks are told of its value.  Where decoding ends, the result is how many values there are; where it fails, it is the
error and the bytes that the values before it consumed.  As JSON each line is one, and is read back as the object of its
value, whatever is in it. -/
theorem render_eq {r : Registry} (hr : r.Loaded) (input : Bytes) (format : Format) :
    List.Forall₂ (fun p text => Shows input p.1 p.2.1 p.2.2 format text) (recorded r input) (render input r format).1 ∧
      (recorded r input).map (fun p => p.2.2) = (decode r input).1 ∧ (∀ p ∈ recorded r input, p.1 = p.2.2.kind) ∧
      ((decode r input).2 = .finished ∧ (render input r format).2 = .ok (decode r input).1.length ∨
        ∃ e, (decode r input).2 = .failed e ∧
          (render input r format).2 = .error (.decode ((decode r input).1.map Value.consumed).sum e)) ∧
      (format = .json → ∀ line ∈ (render input r format).1, OneLine line) := by
  obtain ⟨found, ending, last, hrun, hdecode⟩ := exists_run_start hr input
  rw [recorded_of_run hr hrun, render_of_run hr format hrun, hdecode]
  refine ⟨?_, by rw [List.map_map]; rfl, ?_, ?_, ?_⟩
  · rw [List.forall₂_map_left_iff, List.forall₂_map_right_iff]
    exact List.forall₂_same.2 (fun p _ => shows_line input _ _ _ format)
  · exact List.forall_mem_map.2 (kind_eq_of_run (sound_start hr input) hrun)
  · cases ending with
    | failed e => exact .inr ⟨e, rfl, by simp only [hrun.cursor_eq hr]⟩
    | finished => exact .inl ⟨rfl, by simp only [values, List.length_map]⟩
    | unfinished => exact absurd rfl hrun.ending_ne
  · rintro rfl
    exact List.forall_mem_map.2 (fun p _ => oneLine_jsonLine input _ _ _)

/-- A serialization, and a frame of two numbers. -/
def renderedText : Bytes := Bytes.ofString "\x7b\"v\":\"KERI10JSON000019_\"\x7d-LACMAAAMAABM"

/-- Behind the frame stands a code that none holds: four objects, each one line, and the error at the end of the second
number; in the tree the numbers stand under the frame. -/
theorem render_eq_frame :
    (render renderedText .keriV1 .json).1.length = 4 ∧
      (∀ line ∈ (render renderedText .keriV1 .json).1, OneLine line) ∧
      (render renderedText .keriV1 .json).2 = .error (.decode 37 (.unsupportedColdStart 2)) ∧
      (render renderedText .keriV1 .json).1.take 2 =
        ["\x7b\"kind\":\"serialization\",\"depth\":1,\"start\":0,\"length\":25,\"header\":\x7b\"type\":\"version\"," ++
            "\"protocol\":\"KERI10\",\"kind\":\"JSON\",\"digits\":\"000019\",\"size\":25\x7d," ++
            "\"text\":\"\x7b\\\"v\\\":\\\"KERI10JSON000019_\\\"\x7d\"\x7d",
          "\x7b\"kind\":\"frame\",\"depth\":1,\"start\":25,\"length\":12,\"header\":\x7b\"type\":\"code\"," ++
            "\"selector\":\"-L\",\"name\":\"PathedMaterialQuadlets\",\"kind\":\"counter\",\"digits\":\"AC\"," ++
            "\"code_length\":4,\"quadlets\":2,\"count\":2\x7d,\"text\":\"-LACMAAAMAAB\"\x7d"] ∧
      (render renderedText .keriV1 .text).1 =
        ["body KERI10 JSON (25 bytes) @0+25", "frame -L PathedMaterialQuadlets count=2 @25+12", "  leaf M Short @29+4",
          "  leaf M Short @33+4"] := by
  obtain ⟨hlines, hvalues, -, hresult, hone⟩ := render_eq Registry.loaded_keriV1 renderedText .json
  have hdecode : (Session.decode .keriV1 renderedText).1.map Value.consumed = [25, 4, 4, 4] ∧
      (Session.decode .keriV1 renderedText).2 = .failed (.unsupportedColdStart 2) := by decide +kernel
  refine ⟨?_, hone rfl, ?_, by decide +kernel, by decide +kernel⟩
  · rw [← hlines.length_eq, ← List.length_map (fun p : ValueKind × HookContext × Value => p.2.2), hvalues,
      ← List.length_map Value.consumed, hdecode.1]
    rfl
  · rcases hresult with ⟨hfinished, -⟩ | ⟨e, hfailed, herror⟩
    · rw [hdecode.2] at hfinished
      cases hfinished
    · rw [hdecode.2] at hfailed
      cases hfailed
      rw [herror, hdecode.1]
      rfl

end Report
end Quadlet
