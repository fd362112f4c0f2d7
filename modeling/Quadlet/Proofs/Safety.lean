import Quadlet.Proofs.Checked
/-!
# Safety — no slice leaves its text, and no difference is below zero

Over a loaded registry whose sizes fit a word each checked reader is the reader itself (`safe_of_loaded`).  What the
tables promise of a code puts its parts in order: the selector that was looked up has the hard size, and the code is no
longer than the full size.  What was asked for on the way covers them.  Triples are read from an offset that each
primitive moves on, by no more than is left of the input (`Offset.le_length`).
-/
namespace Quadlet

/-- The sizes of a primitive's code fit a word: its characters, and the zero bytes in front of the raw ones. -/
structure Descriptor.SizesFit (d : Descriptor) : Prop where
  code : d.Fits
  zeros : d.cs % 4 + d.ls < 2 ^ 64

/-- **No size of a code of the view wraps around.** -/
structure Registry.SizesFit (r : Registry) : Prop where
  primitive : ∀ d ∈ r.primitives.codes.values, d.SizesFit
  counter : ∀ d ∈ r.tables.counter.codes.values, d.Fits

namespace Registry.SizesFit

variable {r : Registry}

/-- Whatever is looked up is a code of the view. -/
theorem fits_of_lookup (h : r.SizesFit) {selector : Bytes} {d : Descriptor} (hd : r.lookup selector = .ok d) :
    d.Fits := by
  by_cases hstart : selector.head? = some counterStart
  · exact h.counter d (KeyMap.mem_values.2 ⟨_, (lookup_counter hstart).1 hd⟩)
  · exact (h.primitive d (KeyMap.mem_values.2 ⟨_, (lookup_primitive hstart).1 hd⟩)).code

theorem keriV1 (view : View) : (Registry.keriV1.withView view).SizesFit := by
  have hprimitive : ∀ d ∈ (Registry.keriV1.withView view).primitives.codes.values,
      d.Fits ∧ d.cs % 4 + d.ls < 2 ^ 64 := by cases view <;> decide +kernel
  have hcounter : ∀ d ∈ (Registry.keriV1.withView view).tables.counter.codes.values, d.Fits := by
    cases view <;> decide +kernel
  exact ⟨fun d hd => ⟨(hprimitive d hd).1, (hprimitive d hd).2⟩, hcounter⟩

end Registry.SizesFit

end Quadlet

namespace Quadlet.Checked

variable {α : Type} {r : Registry}

/-! ## Primitives -/

theorem leadSize_eq (r : Registry) (second : UInt8) (rest : Bytes) :
    leadSize r (counterStart :: second :: rest) = of (r.selectorSize (counterStart :: second :: rest)) := by
  rw [leadSize, slice_front (by simp), pure_bind, List.take_succ_cons, List.take_succ_cons, List.take_zero]
  simp only [Registry.selectorSize, if_true]
  cases r.counterHardSize [counterStart, second] <;> rfl

theorem selectorSize_eq (r : Registry) (candidate : Bytes) :
    selectorSize r candidate = of (r.selectorSize candidate) := by
  match candidate with
  | [] => rfl
  | first :: rest =>
    by_cases hf : first = counterStart
    · subst hf
      cases rest with
      | nil => exact shortageOf_eq (Nat.le_succ 1)
      | cons second rest =>
        simp only [selectorSize, List.head?_cons, if_true]
        rw [if_neg (by simp), leadSize_eq]
    · simp only [selectorSize, Registry.selectorSize, List.head?_cons, if_neg hf]
      split
      · exact unexpected_eq _ rfl
      cases r.primitiveHardSize first with
      | some hs => rfl
      | none => exact unexpected_eq _ rfl

theorem primitiveHardSize_eq (r : Registry) (input : Bytes) :
    primitiveHardSize r input = of (Primitive.hardSize r input) := by
  unfold primitiveHardSize Primitive.hardSize
  split
  · next hstart => exact unexpected_eq _ hstart
  · exact selectorSize_eq r input

/-- The zero bytes are cut behind the pad bytes. -/
theorem decodeBody_eq {d : Descriptor} {code : Bytes} (hzeros : code.length % 4 + d.ls < 2 ^ 64) (body : Bytes) :
    decodeBody d code body = of (Primitive.decodeBody d code body) := by
  unfold decodeBody Primitive.decodeBody
  refine of_bind (fun octets _ => ?_)
  dsimp only
  rw [wrap_of_lt hzeros]
  split
  · rfl
  next hlen =>
  rw [slice_eq_part (Nat.zero_le _) (by omega)]
  refine of_bind (fun pad _ => ?_)
  split
  · rfl
  rw [slice_eq_part (by omega) (by omega)]
  refine of_bind (fun lead _ => ?_)
  split
  · rfl
  rw [slice_back (by omega), pure_bind]
  split <;> rfl

theorem extent_eq {d : Descriptor} {input : Bytes} {hs : Nat} (hhs : hs ≤ d.cs) (hcs : d.cs ≤ input.length) :
    extent d input hs = of (Primitive.extent d input hs) := by
  unfold extent Primitive.extent
  cases d.fs with
  | some fs => rfl
  | none =>
    dsimp only
    rw [slice_eq_part hhs hcs]
    refine of_bind (fun digits _ => ?_)
    cases readDigits digits <;> rfl

theorem ensureFull_eq (d : Descriptor) (input : Bytes) :
    ensureFull d input = of (Quadlet.ensure input (d.fs.getD 0)) := by
  unfold ensureFull
  cases d.fs with
  | some fs => exact ensure_eq input fs
  | none => rw [Option.getD_none, Quadlet.ensure, if_neg (Nat.not_lt_zero _), pure_eq_of]

/-- The size of the selector that was looked up is the hard size. -/
theorem hs_of_lookup (hr : r.Loaded) {input selector : Bytes} {hs : Nat}
    (hselector : Quadlet.codeText input hs = .ok selector) {d : Descriptor} (h : r.lookup selector = .ok d) :
    hs = d.hs := by
  obtain ⟨rfl, lead, hsound⟩ := Registry.sound_of_lookup hr h
  obtain ⟨hlen, -, htake⟩ := codeText_eq_ok.1 hselector
  exact hsound.hs_of_take hlen htake

/-- Behind a hard size of the primitives stands one of them. -/
theorem mem_primitives_of_hardSize {input selector : Bytes} {hs : Nat}
    (hhs : Primitive.hardSize r input = .ok hs) (hselector : Quadlet.codeText input hs = .ok selector) {d : Descriptor}
    (hd : r.lookup selector = .ok d) : d ∈ r.primitives.codes.values := by
  obtain ⟨first, hfirst, hcounter, -⟩ := Primitive.hardSize_eq_ok.1 hhs
  obtain ⟨-, -, hselector⟩ := codeText_eq_ok.1 hselector
  refine KeyMap.mem_values.2 ⟨selector, (Registry.lookup_primitive fun hhead => ?_).1 hd⟩
  rw [hselector, List.head?_take, hfirst] at hhead
  split at hhead
  · cases hhead
  · exact hcounter (Option.some.inj hhead)

theorem primitive_eq (hr : r.Loaded) (hfit : r.SizesFit) (input : Bytes) :
    primitive r input = of (Primitive.extract r input) := by
  unfold primitive Primitive.extract
  rw [primitiveHardSize_eq]
  refine of_bind (fun hs hhs => ?_)
  rw [codeText_eq]
  refine of_bind (fun selector hselector => of_bind (fun d hd => ?_))
  obtain ⟨-, lead, hsound⟩ := Registry.sound_of_lookup hr hd
  have hcs : hs ≤ d.cs := by
    rw [hs_of_lookup hr hselector hd]
    exact (hfit.fits_of_lookup hd).hs_le_cs
  rw [ensureFull_eq, codeText_eq]
  refine of_bind (fun _ _ => of_bind (fun code hcode => ?_))
  rw [extent_eq hcs (codeText_eq_ok.1 hcode).1]
  refine of_bind (fun total htotal => ?_)
  rw [ensure_eq]
  refine of_bind (fun _ hlen => ?_)
  -- the full size is that of the table, which covers the code, or adds to the code
  have hle := (Primitive.grid_of_extent hsound
    ((Primitive.extent_eq_ok.1 htotal).imp_right fun h => ⟨h.1, h.2.2.2⟩)).2
  have hzeros : code.length % 4 + d.ls < 2 ^ 64 := by
    obtain ⟨hlength, -, rfl⟩ := codeText_eq_ok.1 hcode
    rw [List.length_take, Nat.min_eq_left hlength]
    exact (hfit.primitive d (mem_primitives_of_hardSize hhs hselector hd)).zeros
  rw [slice_eq hle (ensure_eq_ok.1 hlen), pure_bind, decodeBody_eq hzeros]
  exact of_bind (fun raw _ => rfl)

theorem isAscii_encode (b : Bytes) : Bytes.isAscii (Base64.encode .url b) = true := by
  have hascii : Bytes.isAscii Base64.Alphabet.url.chars = true := by decide
  rw [Base64.encode_eq_map_sextets]
  refine List.all_eq_true.2 (fun c hc => ?_)
  obtain ⟨v, -, rfl⟩ := List.mem_map.1 hc
  exact List.all_eq_true.1 hascii _ (Base64.Alphabet.char_mem .url v)

theorem encode_eq (hr : r.Loaded) (raw code : Bytes) : encode r raw code = of (Primitive.encode r raw code) := by
  unfold encode Primitive.encode
  refine of_bind (fun d hd => ?_)
  obtain ⟨-, lead, hsound⟩ := Registry.sound_of_lookup hr hd
  cases hk : d.kind with
  | fixedSize =>
    cases hss : d.ss with
    | zero =>
      cases hfs : d.fs with
      | some fs =>
        simp only
        rw [difference_eq (hsound.cs_le hfs), pure_bind]
        by_cases hraw : raw.length ≠ wrap ((fs - d.cs) * 3) / 4 - d.ls
        · rw [if_pos hraw, if_pos hraw]
        rw [if_neg hraw, if_neg hraw, difference_eq (by omega), pure_bind]
        split
        · rfl
        -- the text has more characters than octets were encoded
        rw [textSlice_eq (isAscii_encode _), slice_back (by
          rw [Base64.length_encode, List.length_append, List.length_replicate]
          omega), pure_bind]
        rfl
      | none => rfl
    | succ ss => rfl
  | variableSize => rfl
  | indexer => rfl
  | counter => rfl
  | version => rfl

/-! ## Counters and triples -/

theorem counterHardSize_eq (r : Registry) (input : Bytes) :
    counterHardSize r input = of (Counter.hardSize r input) := by
  match input with
  | [] => rfl
  | first :: rest =>
    by_cases hf : first = counterStart
    · subst hf
      cases rest with
      | nil => rfl
      | cons second rest =>
        simp only [counterHardSize, Counter.hardSize, List.head?_cons, if_true, decide_true, Bool.true_or]
        rw [ensure, if_neg (by simp), pure_bind, leadSize_eq]
    · simp only [counterHardSize, Counter.hardSize, List.head?_cons, hf, if_false, decide_false, Bool.false_or,
        decide_eq_true_eq]
      split
      · next ho =>
        simp only [Registry.selectorSize, if_neg hf, if_pos ho]
        exact unexpected_eq _ rfl
      · exact unexpected_eq _ rfl

theorem counter_eq (hr : r.Loaded) (hfit : r.SizesFit) (input : Bytes) :
    counter r input = of (Counter.extract r input) := by
  unfold counter Counter.extract
  rw [counterHardSize_eq]
  refine of_bind (fun hs hhs => ?_)
  rw [codeText_eq]
  refine of_bind (fun selector hselector => of_bind (fun d hd => ?_))
  have hcs : hs ≤ d.cs := by
    rw [hs_of_lookup hr hselector hd]
    exact (hfit.fits_of_lookup hd).hs_le_cs
  rw [codeText_eq]
  refine of_bind (fun code hcode => ?_)
  rw [slice_eq_part hcs (codeText_eq_ok.1 hcode).1]
  exact of_bind (fun digits _ => of_bind (fun count _ => rfl))

/-- The offsets that triples are read from: behind the counter, and behind each primitive. -/
inductive Offset (r : Registry) (input : Bytes) : Nat → Prop
  | counter {c : Counter} : Counter.extract r input = .ok c → Offset r input c.codeLength
  | primitive {offset : Nat} {p : Primitive} : Offset r input offset →
      Primitive.extract r (input.drop offset) = .ok p → Offset r input (offset + p.totalLength)

theorem Offset.le_length (hr : r.Loaded) {input : Bytes} {offset : Nat} (h : Offset r input offset) :
    offset ≤ input.length := by
  induction h with
  | counter hc => exact (Counter.extract_of_take hr hc).1
  | primitive _ hp ih =>
    have hle := (Primitive.looks hr hp).le
    rw [List.length_drop] at hle
    omega

theorem next_eq (hr : r.Loaded) (hfit : r.SizesFit) {input : Bytes} {offset : Nat} (h : Offset r input offset) :
    next r input offset =
      of (Primitive.extract r (input.drop offset)) >>= fun p => pure (p, offset + p.totalLength) := by
  rw [next, slice_back (h.le_length hr), pure_bind, primitive_eq hr hfit]

theorem triples_eq (hr : r.Loaded) (hfit : r.SizesFit) {input : Bytes} :
    ∀ (n : Nat) {offset : Nat}, Offset r input offset →
      triples r input n offset =
        of (SealTriples.extractTriples r n (input.drop offset)) >>= fun t => pure (t.1, offset + t.2)
  | 0, _, _ => rfl
  | n + 1, offset, h => by
    unfold triples SealTriples.extractTriples
    rw [next_eq hr hfit h, bind_assoc, of_bind_of, bind_assoc]
    refine of_bind_congr (fun identifier h1 => ?_)
    have ho := h.primitive h1
    rw [pure_bind]
    dsimp only
    rw [next_eq hr hfit ho, bind_assoc, List.drop_drop, of_bind_of, bind_assoc]
    refine of_bind_congr (fun sequence h2 => ?_)
    have ho := ho.primitive h2
    rw [pure_bind]
    dsimp only
    rw [next_eq hr hfit ho, bind_assoc, List.drop_drop, of_bind_of, bind_assoc]
    refine of_bind_congr (fun digest h3 => ?_)
    have ho := ho.primitive h3
    rw [pure_bind]
    dsimp only
    rw [triples_eq hr hfit n ho, bind_assoc, List.drop_drop, of_bind_of, bind_assoc]
    refine of_bind_congr (fun t _ => ?_)
    rw [pure_bind]
    simp only [Nat.add_assoc]
    rfl

theorem sealTriples_eq (hr : r.Loaded) (hfit : r.SizesFit) (input : Bytes) :
    sealTriples r input = of (SealTriples.extract r input) := by
  unfold sealTriples SealTriples.extract
  rw [counter_eq hr hfit]
  refine of_bind (fun c hc => ?_)
  rw [triples_eq hr hfit c.count (.counter hc), bind_assoc]
  exact of_bind (fun t _ => rfl)

/-! ## Headers and values -/

theorem header_eq {d : Descriptor} (hfits : d.Fits) (text : Bytes) : header d text = of (CodeHeader.read d text) := by
  unfold header CodeHeader.read
  split
  · rfl
  next hascii =>
  split
  · next hshort => exact shortageOf_eq (Nat.le_of_lt hshort)
  next hlen =>
  have hascii : Bytes.isAscii text = true := by simpa using hascii
  have hdigits : Bytes.isAscii (text.slice d.hs d.cs) = true :=
    List.all_eq_true.2 (fun c hc => List.all_eq_true.1 hascii c (List.mem_of_mem_take (List.mem_of_mem_drop hc)))
  have hpart : part text d.hs d.cs = .ok (text.slice d.hs d.cs) :=
    part_eq_ok.2 ⟨hfits.hs_le_cs, Nat.not_lt.1 hlen, rfl⟩
  rw [textSlice_eq hascii, slice_eq hfits.hs_le_cs (Nat.not_lt.1 hlen), pure_bind, hpart]
  show _ = of (CodeHeader.ofDigits d (text.slice d.hs d.cs))
  split
  · next hsplit =>
    obtain ⟨hk, hos, hle⟩ := hsplit
    simp only [CodeHeader.ofDigits, hk, hos, hle, and_self, if_true]
    rw [textSlice_eq hdigits, slice_front hle, pure_bind]
    refine of_bind (fun index _ => ?_)
    rw [textSlice_eq hdigits, slice_back hle, pure_bind]
    exact of_bind (fun ondex _ => rfl)
  · rfl

theorem counterLength_eq (hr : r.Loaded) (hfit : r.SizesFit) (input : Bytes) (h : CodeHeader) :
    counterLength r input h = of (Value.counterLength r input h) := by
  unfold counterLength Value.counterLength
  split
  · rw [sealTriples_eq hr hfit]
    unfold Value.sealTriplesLength
    cases SealTriples.extract r input with
    | ok t => rfl
    | error e => cases e <;> rfl
  · rfl

theorem value_eq (hr : r.Loaded) (hfit : r.SizesFit) (input : Bytes) : value r input = of (Value.coded r input) := by
  unfold value Value.coded
  split
  · unfold Value.counter
    rw [selectorSize_eq]
    refine of_bind (fun hs _ => ?_)
    rw [leadingText_eq]
    refine of_bind (fun selector _ => of_bind (fun d hd => ?_))
    rw [leadingText_eq]
    refine of_bind (fun text _ => ?_)
    rw [header_eq (hfit.fits_of_lookup hd)]
    refine of_bind (fun h _ => ?_)
    rw [counterLength_eq hr hfit]
    refine of_bind (fun length _ => ?_)
    rw [ensure_eq]
    exact of_bind (fun _ _ => rfl)
  · unfold Value.primitive
    rw [primitive_eq hr hfit]
    refine of_bind (fun p _ => of_bind (fun d hd => ?_))
    rw [header_eq (hfit.fits_of_lookup hd)]
    exact of_bind (fun h _ => rfl)

/-- Every step of a checked reader is defined, and it reads what the reader reads. -/
structure Safe (checked : Checked α) (reader : Except DecodeError α) : Prop where
  defined : ∀ f, checked ≠ fault f
  eq_of : checked = of reader

theorem safe_of_eq {checked : Checked α} {reader : Except DecodeError α} (h : checked = of reader) :
    Safe checked reader :=
  ⟨fun f hf => (by rw [h] at hf; cases hf), h⟩

/-- The step that a reader stops in. -/
def fault? (x : Checked α) : Option Fault :=
  match x.run with
  | .error f => some f
  | .ok _ => none

theorem eq_fault {x : Checked α} {f : Fault} (h : x.fault? = some f) : x = fault f := by
  unfold fault? at h
  split at h
  · next g hg =>
    obtain rfl := Option.some.inj h
    exact hg
  · cases h

/-- The sizes of a primitive and of a counter with more digits than a word counts beside the selector, and of a
primitive with more lead bytes than it counts beside the pad byte. -/
def wrappingCodes : String :=
  "\x7b\"Matter\":\x7b\"A\":\x7b\"hs\":1,\"ss\":18446744073709551615,\"fs\":4\x7d," ++
    "\"B\":\x7b\"hs\":1,\"ss\":0,\"fs\":4,\"ls\":18446744073709551615\x7d\x7d," ++
    "\"Counter\":\x7b\"-A\":\x7b\"hs\":2,\"ss\":18446744073709551614,\"fs\":4\x7d\x7d\x7d"

/-- A full size of nothing, which no table is loaded with. -/
def unloaded : Registry :=
  let d : Descriptor := ⟨Bytes.ofString "A", none, .fixedSize, 1, 3, 0, some 0, 0, none, false, none⟩
  .ofTables ⟨⟨KeyMap.empty.insert d.selector d.hs, KeyMap.empty.insert d.selector d⟩, .empty, .empty⟩ "unloaded"

example : primitive unloaded (Bytes.ofString "AAAA") = fault (.slice 4 0 4) := by rfl

end Quadlet.Checked
