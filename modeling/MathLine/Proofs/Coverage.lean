import MathLine.Proofs.RelationSigns
import MathLine.Proofs.Spelling

set_option autoImplicit false

/-!
# Lexemes cover their line

Each sort of token has a form that its text must have (`Token.HasForm`).  A line is cut into
lexemes from left to right, and at each place the longest text is taken that has one of these
forms; no two forms ever fit this text (`Lexeme.IsLongest`).  There always is one: the
character that stands for itself is any that begins no other lexeme and is no blank.

`isLexing_scan` says what this comes to.  The lexemes of a line stand in it at the bytes that
they say, one after the other, and nothing but blanks is left between them and at both ends.
So no place of a line is an error.  A number goes on as long as it can, and a sign that an
equals sign would make longer does not stand in front of one.

The lexemes are characterized along the line first (`Covers`), and all else is read off there.
-/

namespace MathLine

open MathLine.Text

/-! ## The forms of tokens -/

/-- The text `t` has the form of the token. -/
def Token.HasForm : Token → (t : List Char) → Prop
  | number, t => Numeral.IsNumeral t
  | letter c, t => t = [c] ∧ c.isAlpha = true
  | operator op, t => t = op.typed.toList ∧ op ≠ .divide
  | slash, t => t = ['/']
  | caret, t => t = ['^']
  | underscore, t => t = ['_']
  | radical, t => t = ['√']
  | openBracket, t => t = ['(']
  | closeBracket, t => t = [')']
  | other, t => ∃ c, t = [c] ∧ isOther c = true

theorem Token.HasForm.ne_nil {token : Token} {t : List Char} (h : token.HasForm t) : t ≠ [] := by
  cases token with
  | number => exact Numeral.IsNumeral.ne_nil h
  | letter c =>
    rw [h.1]
    exact List.cons_ne_nil _ _
  | operator op =>
    rw [h.1]
    exact op.typed_ne_nil
  | other =>
    obtain ⟨c, rfl, -⟩ := h
    exact List.cons_ne_nil _ _
  | _ =>
    rw [h]
    exact List.cons_ne_nil _ _

/-- No blank is part of a lexeme. -/
theorem Token.HasForm.isBlank {token : Token} {t : List Char} (h : token.HasForm t) :
    ∀ c ∈ t, isBlank c = false := by
  cases token with
  | number => exact fun c hc => Numeral.isBlank_of_isStart (Numeral.IsNumeral.isStart_of_mem h c hc)
  | letter c =>
    obtain ⟨rfl, halpha⟩ := h
    exact List.forall_mem_singleton.2 (isBlank_of_isWordChar (isWordChar_of_isAlpha halpha))
  | operator op =>
    rw [h.1]
    exact op.isBlank_of_mem_typed
  | other =>
    obtain ⟨c, rfl, hother⟩ := h
    exact List.forall_mem_singleton.2 (isOther_iff.1 hother).1
  | _ =>
    rw [h]
    exact List.forall_mem_singleton.2 rfl

/-! ## The longest lexeme -/

/-- The lexeme is what `s` starts with: it has the form of its token, and any other lexeme with
which `s` starts is shorter. -/
structure Lexeme.IsLongest (lexeme : Lexeme) (s : List Char) : Prop where
  starts : lexeme.text <+: s
  form : lexeme.token.HasForm lexeme.text
  longest : ∀ other : Lexeme, other.text <+: s → other.token.HasForm other.text →
    other = lexeme ∨ other.text.length < lexeme.text.length

/-- A number at the start of a text is cut off whole, perhaps with more behind it. -/
theorem Numeral.IsNumeral.prefix_leading {t : List Char} (h : IsNumeral t) (rest : List Char) :
    t <+: leading (t ++ rest) := by
  cases h with
  | whole _ hdigits =>
    rw [leading_digits_append rest hdigits]
    exact List.prefix_append _ _
  | @pointed digits decimals hdigits hdecimals =>
    rw [List.append_assoc, leading_digits_append _ hdigits, List.cons_append, leading_point,
      List.takeWhile_append_of_pos hdecimals, List.prefix_append_right_inj, List.prefix_cons_inj]
    exact List.prefix_append _ _

/-- A character behind the longest lexeme cannot be added to it. -/
theorem Lexeme.IsLongest.not_hasForm {lexeme : Lexeme} {c : Char} {rest : List Char}
    (h : lexeme.IsLongest (lexeme.text ++ c :: rest)) (token : Token) :
    ¬token.HasForm (lexeme.text ++ [c]) := by
  intro hform
  have hstarts : lexeme.text ++ [c] <+: lexeme.text ++ c :: rest := ⟨rest, by simp⟩
  rcases h.longest ⟨token, lexeme.text ++ [c]⟩ hstarts hform with heq | hlt
  · exact List.cons_ne_nil c [] (List.append_right_eq_self.1 (congrArg Lexeme.text heq))
  · rw [List.length_append, List.length_singleton] at hlt
    omega

/-- A mark with an equals sign behind it is an operator. -/
theorem Operator.exists_typed_of_mem_marks {c : Char} (h : c ∈ marks) :
    ∃ op : Operator, op ≠ divide ∧ op.typed.toList = [c, '='] := by
  simp only [marks, List.mem_cons, List.not_mem_nil, or_false] at h
  rcases h with rfl | rfl | rfl | rfl
  · exact ⟨lessEqual, by decide, rfl⟩
  · exact ⟨greaterEqual, by decide, rfl⟩
  · exact ⟨notEqual, by decide, rfl⟩
  · exact ⟨approx, by decide, rfl⟩

namespace Lexeme

theorem hasForm_ofChar {c : Char} {s : List Char} (hblank : isBlank c = false)
    (hstart : ¬Numeral.isStart c = true) (hread : Operator.read? (c :: s) = none) :
    (ofChar c).HasForm [c] := by
  by_cases halpha : c.isAlpha = true
  · rw [ofChar_of_isAlpha halpha]
    exact ⟨rfl, halpha⟩
  · unfold ofChar
    rw [if_neg halpha]
    split
    · rfl
    · rfl
    · rfl
    · rfl
    · rfl
    · rfl
    · next hslash hcaret hunderscore hradical hopen hclose =>
      have hsign : c ∉ ['/', '^', '_', '√', '(', ')'] := by
        simp only [List.mem_cons, List.not_mem_nil, or_false, not_or]
        exact ⟨hslash, hcaret, hunderscore, hradical, hopen, hclose⟩
      exact ⟨c, rfl, isOther_of_no_lexeme hblank hstart hread halpha hsign⟩

/-- What is taken where no blank stands has the form of its token. -/
theorem hasForm_first {c : Char} (s : List Char) (hblank : isBlank c = false) :
    (first c s).1.token.HasForm (first c s).1.text := by
  unfold first
  split
  · next hstart => exact Numeral.isNumeral_leading (Numeral.leading_ne_nil hstart)
  · next hstart =>
    split
    · next op rest hread =>
      have hcut := Operator.eq_typed_append_of_read? hread
      rw [hcut] at hread
      exact ⟨rfl, (Operator.read?_typed_iff.1 hread).1⟩
    · next hread => exact hasForm_ofChar hblank hstart hread

/-- An operator sign with which a text starts is the lexeme there, or the first half of it. -/
theorem first_of_typed {op : Operator} {c : Char} {s rest : List Char} (hop : op ≠ .divide)
    (hcut : c :: s = op.typed.toList ++ rest) :
    (first c s).1 = ⟨.operator op, op.typed.toList⟩ ∨
      op.typed.toList.length < (first c s).1.text.length := by
  have hstart : Numeral.isStart c = false := by
    cases op <;> obtain ⟨rfl, -⟩ := List.cons.inj hcut <;> rfl
  by_cases hlonger : op.opensLonger = true ∧ rest.head? = some '='
  · obtain ⟨tail, rfl⟩ := List.head?_eq_some_iff.1 hlonger.2
    cases op with
    | less | greater =>
      obtain ⟨rfl, rfl⟩ := List.cons.inj hcut
      exact .inr (Nat.lt_succ_self 1)
    | _ => exact absurd hlonger.1 Bool.false_ne_true
  · have hread : Operator.read? (c :: s) = some (op, rest) := by
      rw [hcut, Operator.read?_typed_iff]
      exact ⟨hop, not_and.1 hlonger⟩
    rw [first, hstart, hread]
    exact .inl rfl

/-- A character that stands for itself is the lexeme where it stands, or the first half of it. -/
theorem first_of_other {c : Char} {s : List Char} (hc : isOther c = true) :
    (first c s).1 = ⟨.other, [c]⟩ ∨ 1 < (first c s).1.text.length := by
  cases hread : Operator.read? (c :: s) with
  | none => exact .inl (congrArg Prod.fst (first_of_isOther hc hread))
  | some found =>
    have hlonger : ¬(c = '!' ∨ c = '~' → s.head? ≠ some '=') := by
      rw [← Operator.read?_other_iff hc, hread]
      exact Option.some_ne_none found
    obtain ⟨hmark, hequals⟩ := Classical.not_imp.1 hlonger
    obtain ⟨tail, rfl⟩ := List.head?_eq_some_iff.1 (Decidable.not_not.1 hequals)
    rcases hmark with rfl | rfl
    · exact .inr (Nat.lt_succ_self 1)
    · exact .inr (Nat.lt_succ_self 1)

/-- No text of any form is longer than the lexeme that is taken. -/
theorem longest_first {c : Char} {s : List Char} {other : Lexeme}
    (hstarts : other.text <+: c :: s) (hform : other.token.HasForm other.text) :
    other = (first c s).1 ∨ other.text.length < (first c s).1.text.length := by
  obtain ⟨token, text⟩ := other
  obtain ⟨rest, hcut⟩ := hstarts
  dsimp only at hcut hform ⊢
  cases token with
  | number =>
    have hstart : Numeral.isStart c = true := by
      apply Numeral.IsNumeral.isStart_of_mem hform
      obtain ⟨d, tail, rfl⟩ := List.exists_cons_of_ne_nil (Numeral.IsNumeral.ne_nil hform)
      rw [(List.cons.inj hcut).1]
      exact List.mem_cons_self
    have hbegins : text <+: Numeral.leading (c :: s) := hcut ▸ hform.prefix_leading rest
    rw [first, if_pos hstart]
    rcases Nat.eq_or_lt_of_le hbegins.length_le with heq | hlt
    · rw [hbegins.eq_of_length heq]
      exact .inl rfl
    · exact .inr hlt
  | letter d =>
    obtain ⟨rfl, halpha⟩ := hform
    obtain ⟨rfl, rfl⟩ := List.cons.inj hcut
    rw [first_of_isAlpha _ halpha]
    exact .inl rfl
  | operator op =>
    obtain ⟨rfl, hop⟩ := hform
    exact (first_of_typed hop hcut.symm).imp_left Eq.symm
  | other =>
    obtain ⟨d, rfl, hother⟩ := hform
    obtain ⟨rfl, rfl⟩ := List.cons.inj hcut
    exact (first_of_other hother).imp_left Eq.symm
  | _ =>
    obtain rfl := hform
    obtain ⟨rfl, rfl⟩ := List.cons.inj hcut
    exact .inl rfl

/-- Where no blank stands, the lexeme that is taken is the longest there. -/
theorem isLongest_first {c : Char} (s : List Char) (hblank : isBlank c = false) :
    (first c s).1.IsLongest (c :: s) where
  starts := ⟨(first c s).2, text_append_first c s⟩
  form := hasForm_first s hblank
  longest _ := longest_first

end Lexeme

/-! ## The cover of a line -/

/-- From the byte offset `offset` of a line on, the text `s` is made of the given lexemes, each
the longest at its place, and of blanks around them. -/
inductive Covers : (offset : Nat) → (s : List Char) → List PlacedLexeme → Prop where
  | blank {offset : Nat} {s : List Char} (hs : isBlankText s = true) : Covers offset s []
  | lexeme {offset : Nat} {blanks rest : List Char} {lexeme : Lexeme}
      {later : List PlacedLexeme} (hblanks : isBlankText blanks = true)
      (hlongest : lexeme.IsLongest (lexeme.text ++ rest))
      (hrest : Covers (offset + byteLength blanks + byteLength lexeme.text) rest later) :
      Covers offset (blanks ++ (lexeme.text ++ rest))
        (⟨lexeme, offset + byteLength blanks⟩ :: later)

theorem Lexeme.isLongest_of_next? {s rest : List Char} {lexeme : Lexeme}
    (h : next? s = some (lexeme, rest)) :
    s = leadingBlanks s ++ (lexeme.text ++ rest) ∧ lexeme.IsLongest (lexeme.text ++ rest) := by
  have hskip := skipBlanks_eq_append_of_next? h
  have hcut := leadingBlanks_append_skipBlanks s
  rw [hskip] at hcut
  refine ⟨hcut.symm, ?_⟩
  rw [← hskip]
  unfold next? at h
  split at h
  · exact absurd h (by simp)
  · next c tail hcons =>
    have hlongest := isLongest_first tail (isBlank_of_skipBlanks_eq_cons hcons)
    rw [Option.some.inj h] at hlongest
    rw [hcons]
    exact hlongest

theorem PlacedLexeme.covers_scanFrom (offset : Nat) (s : List Char) :
    Covers offset s (scanFrom offset s) := by
  fun_induction scanFrom offset s with
  | case1 offset s hnext => exact .blank (Lexeme.next?_eq_none_iff.1 hnext)
  | case2 offset s lexeme rest hnext start ih =>
    obtain ⟨hcut, hlongest⟩ := Lexeme.isLongest_of_next? hnext
    have hcover : Covers offset (leadingBlanks s ++ (lexeme.text ++ rest))
        (⟨lexeme, start⟩ :: scanFrom (start + byteLength lexeme.text) rest) :=
      .lexeme List.all_takeWhile hlongest ih
    rwa [← hcut] at hcover

namespace Covers

variable {offset : Nat} {s : List Char} {placed : List PlacedLexeme}

/-- Each lexeme stands at the place that it tells, and is the longest there. -/
theorem exists_cut (h : Covers offset s placed) : ∀ p ∈ placed, ∃ front rest,
    s = front ++ (p.lexeme.text ++ rest) ∧ p.start = offset + byteLength front ∧
      p.lexeme.IsLongest (p.lexeme.text ++ rest) := by
  induction h with
  | blank _ => exact List.forall_mem_nil _
  | @lexeme offset blanks rest lexeme later _ hlongest _ ih =>
    rw [List.forall_mem_cons]
    refine ⟨⟨blanks, rest, rfl, rfl, hlongest⟩, ?_⟩
    intro p hp
    obtain ⟨front, rest, rfl, hstart, hp⟩ := ih p hp
    refine ⟨blanks ++ (lexeme.text ++ front), rest, by simp, ?_, hp⟩
    rw [hstart, byteLength_append, byteLength_append]
    omega

/-- The lexemes stand one after the other. -/
theorem inOrder (h : Covers offset s placed) :
    placed.Pairwise fun p q => p.stop ≤ q.start := by
  induction h with
  | blank _ => exact .nil
  | lexeme _ _ hrest ih =>
    rw [List.pairwise_cons]
    refine ⟨?_, ih⟩
    intro q hq
    obtain ⟨front, rest, -, hstart, -⟩ := hrest.exists_cut q hq
    exact hstart ▸ Nat.le_add_right _ _

/-- What is no blank is part of a lexeme. -/
theorem exists_mem (h : Covers offset s placed) {front back : List Char} {c : Char}
    (hs : s = front ++ c :: back) (hc : isBlank c = false) :
    ∃ p ∈ placed, p.start ≤ offset + byteLength front ∧ offset + byteLength front < p.stop := by
  have hinside {blanks : List Char} (hblanks : isBlankText blanks = true) : c ∉ blanks := by
    intro hmem
    have hblank := List.all_eq_true.1 hblanks c hmem
    rw [hc] at hblank
    exact Bool.false_ne_true hblank
  induction h generalizing front with
  | blank hblank =>
    rw [hs] at hblank
    exact absurd (List.mem_append_right front List.mem_cons_self) (hinside hblank)
  | @lexeme offset blanks rest lexeme later hblanks _ _ ih =>
    rcases behind_or_inside hs.symm with ⟨front, rfl, hlexeme⟩ | ⟨d, inner, rfl, hcut⟩
    · rw [byteLength_append, ← Nat.add_assoc]
      rcases behind_or_inside hlexeme.symm with ⟨front, rfl, hrest⟩ | ⟨d, inner, htext, -⟩
      · obtain ⟨p, hp, hstart, hstop⟩ := ih hrest
        rw [byteLength_append, ← Nat.add_assoc]
        exact ⟨p, List.mem_cons_of_mem _ hp, hstart, hstop⟩
      · refine ⟨_, List.mem_cons_self, Nat.le_add_right _ _, ?_⟩
        have hpos := byteLength_pos (List.cons_ne_nil d inner)
        change offset + byteLength blanks + byteLength front
          < offset + byteLength blanks + byteLength lexeme.text
        rw [htext, byteLength_append]
        omega
    · obtain ⟨rfl, -⟩ := List.cons.inj hcut
      exact absurd (List.mem_append_right front List.mem_cons_self) (hinside hblanks)

end Covers

namespace PlacedLexeme

/-- A lexeme of a line stands at the place that it tells, and is the longest there. -/
theorem exists_cut_of_mem_scan {s : List Char} {p : PlacedLexeme} (hp : p ∈ scan s) :
    ∃ front rest, s = front ++ (p.lexeme.text ++ rest) ∧ p.start = byteLength front ∧
      p.lexeme.IsLongest (p.lexeme.text ++ rest) := by
  obtain ⟨front, rest, hs, hstart, hlongest⟩ := (covers_scanFrom 0 s).exists_cut p hp
  exact ⟨front, rest, hs, hstart.trans (Nat.zero_add _), hlongest⟩

/-- With the character behind it, the text of a lexeme has no form. -/
theorem not_hasForm_of_mem_scan {s rest : List Char} {p : PlacedLexeme} (hp : p ∈ scan s)
    {c : Char} (hslice : sliceFrom p.stop s = .ok (c :: rest)) (token : Token) :
    ¬token.HasForm (p.lexeme.text ++ [c]) := by
  obtain ⟨front, behind, hs, hstart, hlongest⟩ := exists_cut_of_mem_scan hp
  rw [hs, stop, hstart, ← byteLength_append, ← List.append_assoc, sliceFrom_append] at hslice
  rw [Except.ok.inj hslice] at hlongest
  exact hlongest.not_hasForm token

/-- The lexemes are what is left of the line `s` when blanks are taken out of it. -/
structure IsLexing (s : List Char) (placed : List PlacedLexeme) : Prop where
  /-- a lexeme has the text that stands at its place -/
  slices : ∀ p ∈ placed, slice p.start p.stop s = .ok p.lexeme.text
  nonempty : ∀ p ∈ placed, p.start < p.stop
  inOrder : placed.Pairwise fun p q => p.stop ≤ q.start
  /-- outside of the lexemes there is nothing but blanks -/
  outside : ∀ front c back, s = front ++ c :: back →
    (∀ p ∈ placed, byteLength front < p.start ∨ p.stop ≤ byteLength front) → isBlank c = true
  inside : ∀ p ∈ placed, ∀ c ∈ p.lexeme.text, isBlank c = false
  form : ∀ p ∈ placed, p.lexeme.token.HasForm p.lexeme.text
  /-- no other lexeme could be taken at the same place that is as long -/
  longest : ∀ p ∈ placed, ∀ rest, sliceFrom p.start s = .ok rest → p.lexeme.IsLongest rest
  /-- the character after a number does not go on with it -/
  number : ∀ p ∈ placed, p.lexeme.token = .number → ∀ c rest,
    sliceFrom p.stop s = .ok (c :: rest) → ¬Numeral.IsNumeral (p.lexeme.text ++ [c])
  /-- no equals sign follows the first half of a longer sign -/
  sign : ∀ p ∈ placed, ∀ c ∈ Operator.marks, p.lexeme.text = [c] → ∀ rest,
    sliceFrom p.stop s ≠ .ok ('=' :: rest)

/-- The lexemes of a line are what is left of it when blanks are taken out. -/
theorem isLexing_scan (s : List Char) : IsLexing s (scan s) := by
  have hcovers : Covers 0 s (scan s) := covers_scanFrom 0 s
  have hform : ∀ p ∈ scan s, p.lexeme.token.HasForm p.lexeme.text := by
    intro p hp
    obtain ⟨front, rest, -, -, hlongest⟩ := exists_cut_of_mem_scan hp
    exact hlongest.form
  constructor
  case slices =>
    intro p hp
    obtain ⟨front, rest, hs, hstart, -⟩ := exists_cut_of_mem_scan hp
    rw [hs, stop, hstart]
    exact slice_append front p.lexeme.text rest
  case nonempty =>
    intro p hp
    exact Nat.lt_add_of_pos_right (byteLength_pos (hform p hp).ne_nil)
  case inOrder => exact hcovers.inOrder
  case outside =>
    intro front c back hs hfree
    cases hc : isBlank c with
    | true => rfl
    | false =>
      obtain ⟨p, hp, hstart, hstop⟩ := hcovers.exists_mem hs hc
      have := hfree p hp
      omega
  case inside => exact fun p hp => (hform p hp).isBlank
  case form => exact hform
  case longest =>
    intro p hp rest hslice
    obtain ⟨front, behind, hs, hstart, hlongest⟩ := exists_cut_of_mem_scan hp
    rw [hs, hstart, sliceFrom_append] at hslice
    exact Except.ok.inj hslice ▸ hlongest
  case number =>
    intro p hp _ c rest hslice
    exact not_hasForm_of_mem_scan hp hslice .number
  case sign =>
    intro p hp c hc htext rest hslice
    obtain ⟨op, hop, htyped⟩ := Operator.exists_typed_of_mem_marks hc
    refine not_hasForm_of_mem_scan hp hslice (.operator op) ?_
    rw [htext]
    exact ⟨htyped.symm, hop⟩

end PlacedLexeme

end MathLine
