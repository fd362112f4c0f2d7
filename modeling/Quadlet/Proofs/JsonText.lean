import Mathlib.Data.List.Forall2
import Quadlet.Json.Tree
import Quadlet.Json.Writer
/-!
# Written JSON — strings, numbers and objects are read back

What is written of a value falls into its tokens whatever follows it, but for a number, which must not go on
(`Follows`); and the tokens are read as its tree in front of all others.  Both are what `Written` says of a text, and it
goes from the values of an object to the object (`written_object`), so a whole text is read as its tree
(`Written.ofString?_eq`).
-/
namespace Quadlet.Json

/-! ## Scanning -/

namespace Token

theorem scanUpTo_mono : ∀ {fuel fuel' : Nat} {cs : List Char} {ts : List Token},
    scanUpTo fuel cs = some ts → fuel ≤ fuel' → scanUpTo fuel' cs = some ts
  | 0, fuel', cs, ts, h, _ => by
    obtain rfl : cs = [] := by
      cases cs with
      | nil => rfl
      | cons => cases h
    cases fuel' <;> exact h
  | fuel + 1, fuel' + 1, cs, ts, h, hle => by
    unfold scanUpTo at h ⊢
    split at h
    · exact h
    · next rest hrest =>
      split at h
      · cases h
      · next token rest' hnext =>
        obtain ⟨more, hmore, rfl⟩ := Option.map_eq_some_iff.1 h
        simp only [scanUpTo_mono hmore (Nat.le_of_succ_le_succ hle), Option.map_some]

/-- A token is taken off the front. -/
theorem scan_eq {cs rest : List Char} {token : Token} {ts : List Token} (hblank : ∀ c ∈ cs.head?, isBlank c = false)
    (hnext : next? cs = some (token, rest)) (hlt : rest.length < cs.length) (h : scan rest = some ts) :
    scan cs = some (token :: ts) := by
  cases cs with
  | nil => exact absurd hlt (Nat.not_lt_zero _)
  | cons c tail =>
    have hfirst : isBlank c = false := hblank c rfl
    rw [scan, List.length_cons, scanUpTo, List.dropWhile_cons_of_neg (by rw [hfirst]; decide)]
    simp only [hnext, scanUpTo_mono h (Nat.le_of_lt_succ hlt), Option.map_some]

/-! ## Strings -/

/-- A unit that is no half of a surrogate pair is a character, whatever follows it. -/
theorem join?_unit {n : Nat} (hn : n < 0x20) (ps : List Piece) :
    join? (.unit n :: ps) = (join? ps).map (Char.ofNat n :: ·) := by
  have hleading : isLeading n = false := by
    rw [isLeading, Bool.and_eq_false_iff]
    exact .inl (decide_eq_false (by omega))
  have htrailing : isTrailing n = false := by
    rw [isTrailing, Bool.and_eq_false_iff]
    exact .inl (decide_eq_false (by omega))
  cases ps with
  | nil => simp [join?, hleading, htrailing]
  | cons p ps => cases p <;> simp [join?, hleading, htrailing]

/-- The characters are one piece of a string, which is the character `c`. -/
def Spells (text : List Char) (c : Char) : Prop := ∃ p : Piece,
  (∀ rest ps more, pieces? rest = some (ps, more) → pieces? (text ++ rest) = some (p :: ps, more)) ∧
    ∀ ps, join? (p :: ps) = (join? ps).map (c :: ·)

theorem spells_escaped {c mark : Char} (hmark : escaped? mark = some c) (hunit : mark ≠ 'u') :
    Spells ['\\', mark] c := by
  refine ⟨.plain c, fun rest ps more h => ?_, fun ps => by rw [join?]⟩
  show pieces? ('\\' :: mark :: rest) = _
  rw [pieces?.eq_4 mark rest (fun _ _ _ _ _ hu _ => hunit hu), hmark, h]
  rfl

theorem spells_plain {c : Char} (hquote : c ≠ '"') (hslash : c ≠ '\\') (hhigh : ¬c.toNat < 0x20) : Spells [c] c := by
  refine ⟨.plain c, fun rest ps more h => ?_, fun ps => by rw [join?]⟩
  show pieces? (c :: rest) = _
  rw [pieces?.eq_5 c rest hquote (fun _ _ _ _ _ hc _ => hslash hc) (fun _ _ hc _ => hslash hc),
    if_neg (by simp [hhigh, hslash]), h]
  rfl

theorem spells_unit {c : Char} (hlow : c.toNat < 0x20) :
    Spells ['\\', 'u', '0', '0', Char.ofNat (Hex.digit (c.toNat / 16)).toNat, Char.ofNat (Hex.digit c.toNat).toNat]
      c := by
  have hdigits : ∀ n < 0x20, hexValue? (Char.ofNat (Hex.digit (n / 16)).toNat) = some (n / 16) ∧
      hexValue? (Char.ofNat (Hex.digit n).toNat) = some (n % 16) := by decide
  obtain ⟨hhigh, hrest⟩ := hdigits _ hlow
  refine ⟨.unit c.toNat, fun rest ps more h => ?_, fun ps => by rw [join?_unit hlow, Char.ofNat_toNat]⟩
  have hzero : hexValue? '0' = some 0 := rfl
  have hunit : c.toNat / 16 * 16 + c.toNat % 16 = c.toNat := Nat.div_add_mod' _ _
  simp [pieces?, hzero, hhigh, hrest, h, hunit]

theorem spells_escape (c : Char) : Spells (Writer.escape c) c := by
  unfold Writer.escape
  iterate 7
    split
    · next hc =>
      subst hc
      exact spells_escaped rfl (by decide)
  next hquote hslash _ _ _ _ _ =>
  split
  · next hlow => exact spells_unit hlow
  · next hhigh => exact spells_plain hquote hslash hhigh

theorem exists_pieces : ∀ (cs rest : List Char), ∃ ps,
    pieces? (cs.flatMap Writer.escape ++ '"' :: rest) = some (ps, rest) ∧ join? ps = some cs
  | [], rest => ⟨[], rfl, rfl⟩
  | c :: cs, rest => by
    obtain ⟨ps, hps, hjoin⟩ := exists_pieces cs rest
    obtain ⟨p, hp, hc⟩ := spells_escape c
    refine ⟨p :: ps, ?_, ?_⟩
    · rw [List.flatMap_cons, List.append_assoc]
      exact hp _ _ _ hps
    · rw [hc, hjoin]
      rfl

theorem scan_string (s : String) {rest : List Char} {ts : List Token} (h : scan rest = some ts) :
    scan ((Writer.string s).toList ++ rest) = some (.string (some s) :: ts) := by
  obtain ⟨ps, hps, hjoin⟩ := exists_pieces s.toList rest
  have htext : (Writer.string s).toList ++ rest = '"' :: (s.toList.flatMap Writer.escape ++ '"' :: rest) := by
    rw [Writer.string, String.toList_ofList, List.append_assoc, List.append_assoc]
    rfl
  rw [htext]
  refine scan_eq (fun c hc => ?_) ?_ ?_ h
  · obtain rfl := Option.some.inj hc
    rfl
  · rw [next?, hps, Option.map_some, hjoin, Option.map_some, String.ofList_toList]
  · rw [List.length_cons, List.length_append, List.length_cons]
    omega

end Token

/-! ## Numbers -/

/-- The digits of a number, as they are written. -/
def decimal (n : Nat) : List Nat := (Nat.toDigits 10 n).map (fun c => c.toNat - '0'.toNat)

def Lexeme.ofNat (n : Nat) : Lexeme := ⟨false, decimal n, [], none⟩

theorem decimal_of_lt {n : Nat} (h : n < 10) : decimal n = [n] := by
  have hall : ∀ n < 10, [n.digitChar].map (fun c => c.toNat - '0'.toNat) = [n] := by decide
  rw [decimal, Nat.toDigits_of_lt_base h, hall n h]

/-- Only zero is written with a zero in front. -/
theorem head?_decimal {n : Nat} (hn : 0 < n) : ∃ d, (decimal n).head? = some d ∧ 0 < d := by
  induction n using Nat.strongRecOn with
  | ind n ih =>
    rcases Nat.lt_or_ge n 10 with hlt | hge
    · exact ⟨n, by rw [decimal_of_lt hlt]; rfl, hn⟩
    · obtain ⟨d, hd, hpos⟩ := ih (n / 10) (by omega) (by omega)
      refine ⟨d, ?_, hpos⟩
      rw [decimal] at hd
      rw [decimal, Nat.toDigits_of_base_le (by decide) hge, List.map_append, List.head?_append, hd]
      rfl

/-- What does not go on with a number: the end, or the comma or brace behind a value. -/
def Follows (rest : List Char) : Prop := ∀ c ∈ rest.head?, c = ',' ∨ c = '\x7d'

theorem follows_comma (rest : List Char) : Follows (',' :: rest) := fun _ hc => .inl (Option.some.inj hc).symm

theorem follows_brace (rest : List Char) : Follows ('\x7d' :: rest) := fun _ hc => .inr (Option.some.inj hc).symm

namespace Token

theorem number?_toDigits (n : Nat) {rest : List Char} (hrest : Follows rest) :
    number? false (Nat.toDigits 10 n ++ rest) = some (.number (.ofNat n), rest) := by
  obtain ⟨htake, hdrop, hfraction, hexponent⟩ : rest.takeWhile isDigit = [] ∧ rest.dropWhile isDigit = rest ∧
      fraction? rest = some ([], rest) ∧ exponent? rest = some (none, rest) := by
    cases rest with
    | nil => exact ⟨rfl, rfl, rfl, rfl⟩
    | cons c rest => rcases hrest c rfl with rfl | rfl <;> exact ⟨rfl, rfl, rfl, rfl⟩
  have hall : ∀ c ∈ Nat.toDigits 10 n, isDigit c = true :=
    fun c hc => Nat.isDigit_of_mem_toDigits (by decide) (by decide) hc
  have hdigits : digits (Nat.toDigits 10 n ++ rest) = (decimal n, rest) := by
    rw [digits, List.takeWhile_append_of_pos hall, List.dropWhile_append_of_pos hall, htake, hdrop, List.append_nil]
    rfl
  have hlead : ((decimal n).isEmpty || ((decimal n).head? = some 0 && (decimal n).length ≠ 1)) = false := by
    rcases Nat.eq_zero_or_pos n with rfl | hpos
    · rw [decimal_of_lt (by decide)]
      rfl
    · obtain ⟨d, hd, hdpos⟩ := head?_decimal hpos
      have hne : decimal n ≠ [] := by
        intro hnil
        rw [hnil] at hd
        cases hd
      simp [hd, hne, Nat.ne_of_gt hdpos]
  unfold number?
  rw [hdigits]
  dsimp only
  rw [hlead, hfraction]
  simp [hexponent, Lexeme.ofNat]

/-- A digit starts a number, and nothing else. -/
theorem next?_digit {c : Char} (hc : isDigit c = true) (cs : List Char) : next? (c :: cs) = number? false (c :: cs) := by
  unfold next?
  split
  all_goals first
    | rfl
    | next heq =>
      cases heq
      exact absurd hc (by decide)

theorem scan_nat (n : Nat) {rest : List Char} {ts : List Token} (hrest : Follows rest) (h : scan rest = some ts) :
    scan ((toString n).toList ++ rest) = some (.number (.ofNat n) :: ts) := by
  have htext : (toString n).toList = Nat.toDigits 10 n := by simp [toString]
  have hnumber := number?_toDigits n hrest
  rw [htext]
  cases hcs : Nat.toDigits 10 n with
  | nil => exact absurd hcs Nat.toDigits_ne_nil
  | cons c cs =>
    rw [hcs] at hnumber
    have hc : isDigit c = true :=
      Nat.isDigit_of_mem_toDigits (b := 10) (n := n) (by decide) (by decide) (hcs ▸ List.mem_cons_self)
    have hblank : isBlank c = false := by
      by_cases hb : isBlank c = true
      · simp only [isBlank, Bool.or_eq_true, decide_eq_true_eq] at hb
        rcases hb with ((rfl | rfl) | rfl) | rfl <;> cases hc
      · exact Bool.eq_false_iff.2 hb
    refine scan_eq (fun d hd => Option.some.inj hd ▸ hblank) ((next?_digit hc _).trans hnumber) ?_ h
    rw [List.length_append, List.length_cons]
    omega

/-- A character that is a token. -/
theorem scan_mark {c : Char} {token : Token} (hblank : isBlank c = false)
    (hnext : ∀ rest, next? (c :: rest) = some (token, rest)) {rest : List Char} {ts : List Token}
    (h : scan rest = some ts) : scan (c :: rest) = some (token :: ts) :=
  scan_eq (fun _ hd => Option.some.inj hd ▸ hblank) (hnext rest) (Nat.lt_succ_self _) h

end Token

/-! ## Values and objects -/

/-- **The text is one value, the tree**: it falls into its tokens in front of what may follow a value, and they are read
as the tree in front of all others. -/
def Written (text : String) (tree : Tree) : Prop := ∃ ts : List Token,
  (∀ rest more, Follows rest → Token.scan rest = some more → Token.scan (text.toList ++ rest) = some (ts ++ more)) ∧
    ∀ fuel more, ts.length ≤ fuel → Tree.value? fuel (ts ++ more) = some (tree, more)

theorem written_string (s : String) : Written (Writer.string s) (.string (some s)) := by
  refine ⟨[.string (some s)], fun _ _ _ h => Token.scan_string s h, fun fuel more hfuel => ?_⟩
  cases fuel with
  | zero => cases hfuel
  | succ fuel => rfl

theorem written_nat (n : Nat) : Written (toString n) (.number (.ofNat n)) := by
  refine ⟨[.number (.ofNat n)], fun _ _ hrest h => Token.scan_nat n hrest h, fun fuel more hfuel => ?_⟩
  cases fuel with
  | zero => cases hfuel
  | succ fuel => rfl

/-- A whole text is read as its tree. -/
theorem Written.ofString?_eq {text : String} {tree : Tree} (h : Written text tree) :
    Tree.ofString? text = some tree := by
  obtain ⟨ts, hscan, hread⟩ := h
  have htokens := hscan [] [] (fun _ hc => by cases hc) rfl
  have htree := hread (ts.length + 1) [] (Nat.le_succ _)
  rw [List.append_nil] at htokens htree
  rw [List.append_nil] at htokens
  rw [Tree.ofString?, htokens]
  simp [htree]

/-- Members are written as entries of an object: each is its name and a value that is written. -/
abbrev Entries (members : List (String × String)) (entries : List (Option String × Tree)) : Prop :=
  List.Forall₂ (fun m e => e.1 = some m.1 ∧ Written m.2 e.2) members entries

theorem Entries.append {members members' : List (String × String)} {entries entries' : List (Option String × Tree)}
    (h : Entries members entries) (h' : Entries members' entries') :
    Entries (members ++ members') (entries ++ entries') := List.rel_append h h'

/-- One member falls into its name, a colon and the tokens of its value. -/
theorem scan_member (name : String) {text : String} {ts more : List Token} {rest : List Char}
    (h : Token.scan (text.toList ++ rest) = some (ts ++ more)) :
    Token.scan ((Writer.string name ++ ":" ++ text).toList ++ rest) =
      some (.string (some name) :: .colon :: (ts ++ more)) := by
  rw [String.toList_append, String.toList_append, List.append_assoc, List.append_assoc]
  exact Token.scan_string name (Token.scan_mark rfl (fun _ => rfl) h)

/-- The members of an object, up to its closing brace. -/
theorem exists_members : ∀ {members : List (String × String)} {entries : List (Option String × Tree)},
    Entries members entries → members ≠ [] → ∃ (name : Option String) (ts : List Token),
      (∀ rest more, Token.scan rest = some more →
        Token.scan ((String.intercalate "," (members.map (fun m => Writer.string m.1 ++ ":" ++ m.2))).toList ++
          '\x7d' :: rest) = some (.string name :: (ts ++ more))) ∧
      ∀ fuel more, ts.length < fuel → Tree.members? fuel (.string name :: (ts ++ more)) = some (entries, more)
  | [], _, _, h => absurd rfl h
  | [(name, text)], [(_, tree)], .cons ⟨rfl, ts, hscan, hread⟩ .nil, _ => by
    refine ⟨some name, .colon :: (ts ++ [.closeObject]), fun rest more h => ?_, fun fuel more hfuel => ?_⟩
    · have hclose := Token.scan_mark (c := '\x7d') rfl (fun _ => rfl) h
      rw [List.map_singleton, String.intercalate_singleton, List.cons_append, List.append_assoc]
      exact scan_member name (hscan _ _ (follows_brace _) hclose)
    · cases fuel with
      | zero => cases hfuel
      | succ fuel =>
        rw [List.length_cons, List.length_append, List.length_singleton] at hfuel
        have hvalue := hread fuel (.closeObject :: more) (by omega)
        rw [List.cons_append, List.append_assoc, List.singleton_append, Tree.members?, hvalue]
  | (name, text) :: m :: members, (_, tree) :: _, .cons ⟨rfl, ts, hscan, hread⟩ hrest, _ => by
    obtain ⟨next, ts', hscan', hread'⟩ := exists_members hrest (List.cons_ne_nil _ _)
    refine ⟨some name, .colon :: (ts ++ .comma :: .string next :: ts'), fun rest more h => ?_,
      fun fuel more hfuel => ?_⟩
    · have hcomma := Token.scan_mark (c := ',') rfl (fun _ => rfl) (hscan' rest more h)
      have hmember := scan_member name (hscan _ _ (follows_comma _) hcomma)
      rw [String.toList_intercalate] at hmember ⊢
      rw [List.map_cons, List.map_cons, List.map_cons, List.map_cons, List.intercalate_cons_cons, List.append_assoc,
        List.append_assoc, List.cons_append, List.append_assoc]
      exact hmember
    · cases fuel with
      | zero => cases hfuel
      | succ fuel =>
        simp only [List.length_cons, List.length_append] at hfuel
        have hvalue := hread fuel (.comma :: .string next :: (ts' ++ more)) (by omega)
        rw [List.cons_append, List.append_assoc, List.cons_append, List.cons_append, Tree.members?, hvalue]
        simp [hread' fuel more (by omega)]

/-- **An object is written if its values are.** -/
theorem written_object {members : List (String × String)} {entries : List (Option String × Tree)}
    (h : Entries members entries) : Written (Writer.object members) (.object entries) := by
  cases members with
  | nil =>
    cases h
    refine ⟨[.openObject, .closeObject], fun rest more _ h => ?_, fun fuel more hfuel => ?_⟩
    · exact Token.scan_mark (c := '\x7b') rfl (fun _ => rfl) (Token.scan_mark (c := '\x7d') rfl (fun _ => rfl) h)
    · cases fuel with
      | zero => cases hfuel
      | succ fuel => rfl
  | cons m members =>
    obtain ⟨name, ts, hscan, hread⟩ := exists_members h (List.cons_ne_nil _ _)
    refine ⟨.openObject :: .string name :: ts, fun rest more _ h => ?_, fun fuel more hfuel => ?_⟩
    · have hopen := Token.scan_mark (c := '\x7b') rfl (fun _ => rfl) (hscan rest more h)
      rw [Writer.object, String.toList_append, String.toList_append, List.append_assoc, List.append_assoc]
      exact hopen
    · cases fuel with
      | zero => cases hfuel
      | succ fuel =>
        have hmembers := hread fuel more (Nat.le_of_succ_le_succ hfuel)
        rw [List.cons_append, List.cons_append, Tree.value?, hmembers, Option.map_some]
        exact fun rest heq => by cases heq

end Quadlet.Json
