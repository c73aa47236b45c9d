import MathLine.Node.Reading
import MathLine.Proofs.Lexemes

set_option autoImplicit false

/-!
# What one step of reading does

Reading a line is a loop of one step, and a step looks ahead in many ways: for the end
of a word, for the partner of a bracket, for a function name, for the node before it.
This module says once what a step can do, as a relation, and all else is proved from
that.

`Reads last piece typed rest` says that, after the node `last`, the text `typed` in
front of `rest` is read as `piece`.  Each constructor is one way in which a piece can
stand in a line, with the conditions on what follows it.  `next?_eq_some_iff` says that
a step takes blanks and then exactly such a text: nothing else is ever taken, and where
such a text stands it is taken.

`KeptByReading` packages the loop: what holds when reading starts and is kept by each
step, given that the text inside the piece was read well, holds of every line
(`KeptByReading.readLine`).
-/

namespace MathLine

open MathLine.Text

/-! ## Arguments -/

/-- The argument `arg` of a script or root sign is written as `written` in front of
`rest`: as a word that ends there, or as a bracketed group that is not blank. -/
inductive Argument : (arg written rest : List Char) → Prop where
  | word {arg rest : List Char} (hword : IsWord arg) (hstop : startsInWord rest = false) :
      Argument arg arg rest
  | group {arg rest : List Char} (hbalanced : IsBalanced arg)
      (hblank : isBlankText arg = false) : Argument arg ('(' :: arg ++ [')']) rest

theorem Argument.isBalanced {arg written rest : List Char} (h : Argument arg written rest) :
    IsBalanced arg ∧ IsBalanced written := by
  cases h with
  | word hword _ => exact ⟨hword.isBalanced, hword.isBalanced⟩
  | group hbalanced _ => exact ⟨hbalanced, isBalanced_group hbalanced⟩

theorem isBlankText_of_isWord {w : List Char} (h : IsWord w) : isBlankText w = false := by
  obtain ⟨hne, hword⟩ := h
  cases w with
  | nil => exact absurd rfl hne
  | cons c w => simp [isBlankText, isBlank_of_isWordChar (hword c List.mem_cons_self)]

theorem Argument.not_blank {arg written rest : List Char} (h : Argument arg written rest) :
    isBlankText arg = false := by
  cases h with
  | word hword _ => exact isBlankText_of_isWord hword
  | group _ hblank => exact hblank

namespace Piece

/-- An argument is found exactly where one is written. -/
theorem argument?_eq_some_iff {s arg rest : List Char} :
    argument? s = some (arg, rest) ↔
      ∃ written, s = written ++ rest ∧ Argument arg written rest := by
  constructor
  · intro h
    unfold argument? at h
    split at h
    · next tail =>
      obtain ⟨hcut, hblank⟩ := Option.filter_eq_some_iff.1 h
      obtain ⟨rfl, hloose⟩ := splitAtClosing_eq_some_iff.1 hcut
      exact ⟨'(' :: arg ++ [')'], by simp, .group hloose (by simpa using hblank)⟩
    · split at h
      · next hstart =>
        obtain ⟨rfl, rfl⟩ : leadingWord s = arg ∧ afterWord s = rest := by simpa using h
        exact ⟨leadingWord s, (leadingWord_append_afterWord s).symm,
          .word (isWord_leadingWord hstart) (startsInWord_afterWord s)⟩
      · simp at h
  · rintro ⟨written, rfl, harg⟩
    cases harg with
    | word hword hstop =>
      unfold argument?
      split
      · next tail heq =>
        have hstart := hword.startsInWord_append rest
        rw [heq] at hstart
        simp [startsInWord, isWordChar] at hstart
      · rw [if_pos (hword.startsInWord_append rest), leadingWord_append_of_stop hword.2 hstop,
          afterWord_append_of_stop hword.2 hstop]
    | group hbalanced hblank =>
      rw [List.cons_append, List.cons_append, List.append_assoc, argument?,
        List.singleton_append, splitAtClosing_append rest hbalanced]
      simp [hblank]

end Piece

/-! ## The relation -/

/-- The characters that stand for nothing but themselves. -/
def isOther (c : Char) : Bool :=
  !isBlank c && !isWordChar c &&
    !List.elem c ['.', '+', '-', '*', '/', '=', '<', '>', '^', '_', '√', '(', ')']

theorem isOther_iff {c : Char} :
    isOther c = true ↔ isBlank c = false ∧ isWordChar c = false ∧
      c ∉ ['.', '+', '-', '*', '/', '=', '<', '>', '^', '_', '√', '(', ')'] := by
  simp [isOther, and_assoc]

/-- An operator is read where a sign stands that is one on its own. -/
theorem Operator.read?_ne_none {c : Char} (s : List Char)
    (hc : c ∈ ['+', '-', '*', '=', '<', '>']) : read? (c :: s) ≠ none := by
  simp only [List.mem_cons, List.not_mem_nil, or_false] at hc
  rcases hc with rfl | rfl | rfl | rfl | rfl | rfl <;> unfold read? <;> split <;> simp_all

theorem Lexeme.ofChar_of_isAlpha {c : Char} (h : c.isAlpha = true) : ofChar c = .letter c :=
  if_pos h

/-- A character that starts no number, no operator and no construction, and is no letter
and no blank, stands for itself. -/
theorem isOther_of_no_lexeme {c : Char} {s : List Char} (hblank : isBlank c = false)
    (hstart : ¬Numeral.isStart c = true) (hread : Operator.read? (c :: s) = none)
    (halpha : ¬c.isAlpha = true) (hsign : c ∉ ['/', '^', '_', '√', '(', ')']) :
    isOther c = true := by
  have hop : c ∉ ['+', '-', '*', '=', '<', '>'] := by
    intro hc
    exact Operator.read?_ne_none s hc hread
  simp only [Numeral.isStart, Bool.or_eq_true, beq_iff_eq, not_or] at hstart
  simp only [List.mem_cons, List.not_mem_nil, or_false, not_or] at hop hsign
  simp [isOther_iff, isWordChar, Char.isAlphanum, hblank, hstart, halpha, hop, hsign]

namespace Piece

/-- After the node `last`, the text `typed` in front of `rest` is read as the piece. -/
inductive Reads (last : Option Node) : Piece → (typed rest : List Char) → Prop where
  | number {t rest : List Char} (hne : t ≠ []) (hlead : Numeral.leading (t ++ rest) = t) :
      Reads last (leaf (.number (String.ofList t))) t rest
  | function {name : String} {rest : List Char} (hname : Lexicon.contains name = true)
      (hstop : startsInWord rest = false) :
      Reads last (leaf (.function name)) name.toList rest
  | letter {c : Char} {rest : List Char} (hc : c.isAlpha = true)
      (hname : Lexicon.leading? (c :: rest) = none) : Reads last (leaf (.letter c)) [c] rest
  | operator {op : Operator} {rest : List Char}
      (hread : Operator.read? (op.typed.toList ++ rest) = some (op, rest)) :
      Reads last (leaf (.operator op)) op.typed.toList rest
  | fraction {numerator : Node} {w rest : List Char} (hlast : last = some numerator)
      (hliteral : numerator.literal?.isSome = true) (hword : IsWord w)
      (hstop : startsInWord rest = false) : Reads last (fraction numerator w) ('/' :: w) rest
  | divide {rest : List Char}
      (hlast : (last.filter fun node => node.literal?.isSome && startsInWord rest) = none) :
      Reads last (leaf (.operator .divide)) ['/'] rest
  | power {base : Node} {arg written rest : List Char} (hlast : last = some base)
      (harg : Argument arg written rest) : Reads last (power base arg) ('^' :: written) rest
  | caret {rest : List Char} (hlast : last = none ∨ argument? rest = none) :
      Reads last (leaf (.text "^")) ['^'] rest
  | subscript {base : String} {arg written rest : List Char}
      (hlast : last.bind Node.literal? = some base) (harg : Argument arg written rest) :
      Reads last (subscript base arg) ('_' :: written) rest
  | underscore {rest : List Char}
      (hlast : last.bind Node.literal? = none ∨ argument? rest = none) :
      Reads last (leaf (.text "_")) ['_'] rest
  | root {arg written rest : List Char} (harg : Argument arg written rest) :
      Reads last (root arg) ('√' :: written) rest
  | radical {rest : List Char} (harg : argument? rest = none) :
      Reads last (leaf (.text "√")) ['√'] rest
  | group {inner rest : List Char} (hbalanced : IsBalanced inner) :
      Reads last (group inner) ('(' :: inner ++ [')']) rest
  | openBracket {rest : List Char} (hclosing : (loose rest).closing = 0) :
      Reads last (leaf (.text "(")) ['('] rest
  | closeBracket {rest : List Char} : Reads last (leaf (.text ")")) [')'] rest
  | other {c : Char} {rest : List Char} (hc : isOther c = true)
      (hread : Operator.read? (c :: rest) = none) :
      Reads last (leaf (.text (String.ofList [c]))) [c] rest

/-! ## A step takes nothing else -/

/-- The step `step` reads a text that `whole` starts with, and what it leaves is what
follows that text. -/
def Yields (last : Option Node) (whole : List Char) (step : Piece × List Char) : Prop :=
  ∃ typed, whole = typed ++ step.2 ∧ Reads last step.1 typed step.2

theorem yields_ofLetter (last : Option Node) {c : Char} (rest : List Char)
    (hc : c.isAlpha = true) : Yields last (c :: rest) (ofLetter c rest) := by
  unfold ofLetter
  split
  · next name after h =>
    obtain ⟨hname, heq, hstop⟩ := Lexicon.of_leading?_eq_some h
    exact ⟨name.toList, heq, .function hname hstop⟩
  · next h => exact ⟨[c], rfl, .letter hc h⟩

theorem yields_ofSlash (last : Option Node) (rest : List Char) :
    Yields last ('/' :: rest) (ofSlash last rest) := by
  unfold ofSlash
  split
  · next numerator h =>
    obtain ⟨hlast, hboth⟩ := Option.filter_eq_some_iff.1 h
    obtain ⟨hliteral, hstart⟩ := Bool.and_eq_true_iff.1 hboth
    exact ⟨'/' :: leadingWord rest, by simp,
      .fraction hlast hliteral (isWord_leadingWord hstart) (startsInWord_afterWord rest)⟩
  · next h => exact ⟨['/'], rfl, .divide h⟩

theorem yields_ofCaret (last : Option Node) (rest : List Char) :
    Yields last ('^' :: rest) (ofCaret last rest) := by
  unfold ofCaret
  cases last with
  | none => exact ⟨['^'], rfl, .caret (.inl rfl)⟩
  | some base =>
    cases harg : argument? rest with
    | none => exact ⟨['^'], rfl, .caret (.inr harg)⟩
    | some cut =>
      obtain ⟨written, hrest, hwritten⟩ := argument?_eq_some_iff.1 harg
      exact ⟨'^' :: written, by rw [hrest, List.cons_append], .power rfl hwritten⟩

theorem yields_ofUnderscore (last : Option Node) (rest : List Char) :
    Yields last ('_' :: rest) (ofUnderscore last rest) := by
  unfold ofUnderscore
  cases hbase : last.bind Node.literal? with
  | none => exact ⟨['_'], rfl, .underscore (.inl hbase)⟩
  | some base =>
    cases harg : argument? rest with
    | none => exact ⟨['_'], rfl, .underscore (.inr harg)⟩
    | some cut =>
      obtain ⟨written, hrest, hwritten⟩ := argument?_eq_some_iff.1 harg
      exact ⟨'_' :: written, by rw [hrest, List.cons_append], .subscript hbase hwritten⟩

theorem yields_ofRadical (last : Option Node) (rest : List Char) :
    Yields last ('√' :: rest) (ofRadical rest) := by
  unfold ofRadical
  split
  · next arg after harg =>
    obtain ⟨written, rfl, hwritten⟩ := argument?_eq_some_iff.1 harg
    exact ⟨'√' :: written, by simp, .root hwritten⟩
  · next harg => exact ⟨['√'], rfl, .radical harg⟩

theorem yields_ofBracket (last : Option Node) (rest : List Char) :
    Yields last ('(' :: rest) (ofBracket rest) := by
  unfold ofBracket
  split
  · next inner after hcut =>
    obtain ⟨rfl, hbalanced⟩ := splitAtClosing_eq_some_iff.1 hcut
    exact ⟨'(' :: inner ++ [')'], by simp, .group hbalanced⟩
  · next hcut =>
    exact ⟨['('], rfl, .openBracket (Nat.le_zero.1 (splitAtClosing_eq_none_iff.1 hcut))⟩

/-- What the lexeme at the start of a text makes of it is a step that reads it. -/
theorem yields_first (last : Option Node) {c : Char} (s : List Char)
    (hblank : isBlank c = false) :
    Yields last (c :: s) (ofLexeme last (Lexeme.first c s).1 (Lexeme.first c s).2) := by
  unfold Lexeme.first
  split
  · next hstart =>
    have hcut := Numeral.leading_append_after (c :: s)
    exact ⟨Numeral.leading (c :: s), hcut.symm,
      .number (Numeral.leading_ne_nil hstart) (congrArg Numeral.leading hcut)⟩
  · next hstart =>
    split
    · next op rest hread =>
      have hcut := Operator.eq_typed_append_of_read? hread
      exact ⟨op.typed.toList, hcut, .operator (hcut ▸ hread)⟩
    · next hread =>
      by_cases halpha : c.isAlpha = true
      · rw [Lexeme.ofChar_of_isAlpha halpha]
        exact yields_ofLetter last s halpha
      · unfold Lexeme.ofChar
        rw [if_neg halpha]
        split
        · exact yields_ofSlash last s
        · exact yields_ofCaret last s
        · exact yields_ofUnderscore last s
        · exact yields_ofRadical last s
        · exact yields_ofBracket last s
        · exact ⟨[')'], rfl, .closeBracket⟩
        · next hslash hcaret hunderscore hradical hopen hclose =>
          have hsign : c ∉ ['/', '^', '_', '√', '(', ')'] := by
            simp only [List.mem_cons, List.not_mem_nil, or_false, not_or]
            exact ⟨hslash, hcaret, hunderscore, hradical, hopen, hclose⟩
          have hother := isOther_of_no_lexeme hblank hstart hread halpha hsign
          exact ⟨[c], rfl, .other hother hread⟩

/-- A step takes blanks and then a text that it reads, and nothing else. -/
theorem reads_of_next? {last : Option Node} {s rest : List Char} {piece : Piece}
    (h : next? last s = some (piece, rest)) :
    ∃ typed, s = leadingBlanks s ++ (typed ++ rest) ∧ Reads last piece typed rest := by
  obtain ⟨⟨lexeme, tail⟩, hlexeme, heq⟩ := Option.map_eq_some_iff.1 h
  unfold Lexeme.next? at hlexeme
  split at hlexeme
  · simp at hlexeme
  · next c s' hskip =>
    have hyields := yields_first last s' (isBlank_of_skipBlanks_eq_cons hskip)
    rw [Option.some.inj hlexeme] at hyields
    simp only at heq
    rw [heq] at hyields
    obtain ⟨typed, htyped, hreads⟩ := hyields
    refine ⟨typed, ?_, hreads⟩
    rw [← htyped, ← hskip, leadingBlanks_append_skipBlanks]

/-! ## A text that can be read is taken -/

end Piece

namespace Lexeme

theorem ofChar_of_isOther {c : Char} (h : isOther c = true) : ofChar c = .other := by
  obtain ⟨-, hword, hsign⟩ := isOther_iff.1 h
  have halpha : c.isAlpha = false := by
    rw [isWordChar, Char.isAlphanum, Bool.or_eq_false_iff] at hword
    exact hword.1
  unfold ofChar
  rw [if_neg (by simp [halpha])]
  split <;> simp_all

/-- A letter is a lexeme of its own. -/
theorem first_of_isAlpha {c : Char} (s : List Char) (h : c.isAlpha = true) :
    first c s = (⟨.letter c, [c]⟩, s) := by
  have hstart : Numeral.isStart c = false := by
    rw [Numeral.isStart, Bool.or_eq_false_iff, beq_eq_false_iff_ne]
    refine ⟨isDigit_of_isAlpha h, ?_⟩
    rintro rfl
    exact absurd h (by decide)
  have hread : Operator.read? (c :: s) = none := by
    cases hread : Operator.read? (c :: s) with
    | none => rfl
    | some found =>
      obtain ⟨op, rest⟩ := found
      have hcut := Operator.eq_typed_append_of_read? hread
      cases op <;> obtain ⟨rfl, -⟩ := List.cons.inj hcut <;> exact absurd h (by decide)
  rw [first, hstart, hread, ofChar_of_isAlpha h]
  rfl

/-- A character that stands for itself is a lexeme of its own. -/
theorem first_of_isOther {c : Char} {s : List Char} (h : isOther c = true)
    (hread : Operator.read? (c :: s) = none) : first c s = (⟨.other, [c]⟩, s) := by
  have hstart : Numeral.isStart c = false := by
    obtain ⟨-, hword, hsign⟩ := isOther_iff.1 h
    rw [isWordChar, Char.isAlphanum, Bool.or_eq_false_iff] at hword
    rw [Numeral.isStart, hword.2, Bool.false_or, beq_eq_false_iff_ne]
    rintro rfl
    simp at hsign
  rw [first, hstart, hread, ofChar_of_isOther h]
  rfl

end Lexeme

namespace Piece

theorem next?_cons (last : Option Node) {c : Char} (s : List Char) (h : isBlank c = false) :
    next? last (c :: s) =
      some (ofLexeme last (Lexeme.first c s).1 (Lexeme.first c s).2) := by
  rw [next?, Lexeme.next?, skipBlanks_cons_of_not_blank h]
  rfl

/-- Blanks in front of a piece make no difference. -/
theorem next?_blanks_append (last : Option Node) {blanks : List Char} (s : List Char)
    (h : isBlankText blanks = true) : next? last (blanks ++ s) = next? last s := by
  rw [next?, next?, Lexeme.next?, Lexeme.next?, skipBlanks_blanks_append s h]

theorem next?_slash (last : Option Node) (rest : List Char) :
    next? last ('/' :: rest) = some (ofSlash last rest) := rfl

theorem next?_caret (last : Option Node) (rest : List Char) :
    next? last ('^' :: rest) = some (ofCaret last rest) := rfl

theorem next?_underscore (last : Option Node) (rest : List Char) :
    next? last ('_' :: rest) = some (ofUnderscore last rest) := rfl

theorem next?_radical (last : Option Node) (rest : List Char) :
    next? last ('√' :: rest) = some (ofRadical rest) := rfl

theorem next?_openBracket (last : Option Node) (rest : List Char) :
    next? last ('(' :: rest) = some (ofBracket rest) := rfl

theorem next?_letter (last : Option Node) {c : Char} (rest : List Char)
    (hc : c.isAlpha = true) : next? last (c :: rest) = some (ofLetter c rest) := by
  rw [next?_cons last rest (isBlank_of_isWordChar (isWordChar_of_isAlpha hc)),
    Lexeme.first_of_isAlpha rest hc]
  rfl

/-- A number is taken where it is cut off. -/
theorem next?_number (last : Option Node) {t rest : List Char} (hne : t ≠ [])
    (hlead : Numeral.leading (t ++ rest) = t) :
    next? last (t ++ rest) = some (leaf (.number (String.ofList t)), rest) := by
  have hafter : Numeral.after (t ++ rest) = rest := by
    have hcut := Numeral.leading_append_after (t ++ rest)
    rw [hlead] at hcut
    exact List.append_cancel_left hcut
  cases t with
  | nil => exact absurd rfl hne
  | cons c t =>
    rw [List.cons_append] at hlead hafter ⊢
    have hstart : Numeral.isStart c = true := Numeral.isStart_of_leading_ne_nil (hlead ▸ hne)
    rw [next?_cons last _ (Numeral.isBlank_of_isStart hstart), Lexeme.first, if_pos hstart,
      hlead, hafter]
    rfl

/-- An operator is taken where it is read. -/
theorem next?_operator (last : Option Node) {op : Operator} {rest : List Char}
    (hread : Operator.read? (op.typed.toList ++ rest) = some (op, rest)) :
    next? last (op.typed.toList ++ rest) = some (leaf (.operator op), rest) := by
  cases htyped : op.typed.toList with
  | nil => exact absurd htyped op.typed_ne_nil
  | cons c s =>
    rw [htyped, List.cons_append] at hread
    have hclass : isBlank c = false ∧ Numeral.isStart c = false := by
      cases op <;> obtain ⟨rfl, -⟩ := List.cons.inj htyped <;> exact ⟨rfl, rfl⟩
    rw [List.cons_append, next?_cons last _ hclass.1, Lexeme.first, hclass.2, hread]
    rfl

/-- Where a text stands that can be read as a piece, it is read as that piece. -/
theorem next?_of_reads {last : Option Node} {piece : Piece} {typed rest : List Char}
    (h : Reads last piece typed rest) : next? last (typed ++ rest) = some (piece, rest) := by
  cases h with
  | number hne hlead => exact next?_number last hne hlead
  | @function name rest hname hstop =>
    have hfound := Lexicon.leading?_eq_some_iff.2 ⟨hname, rfl, hstop⟩
    have hisName := Lexicon.isName_of_contains hname
    cases hlist : name.toList with
    | nil => simp [hlist, isName] at hisName
    | cons c w =>
      rw [hlist, isName, Bool.and_eq_true] at hisName
      rw [hlist, List.cons_append] at hfound
      rw [List.cons_append, next?_letter last _ hisName.1, ofLetter, hfound]
  | letter hc hname => rw [List.singleton_append, next?_letter last rest hc, ofLetter, hname]
  | operator hread => exact next?_operator last hread
  | fraction hlast hliteral hword hstop =>
    have hstart := hword.startsInWord_append rest
    rw [List.cons_append, next?_slash, ofSlash, hlast, Option.filter_some,
      if_pos (by rw [hliteral, hstart]; rfl)]
    simp only [leadingWord_append_of_stop hword.2 hstop,
      afterWord_append_of_stop hword.2 hstop]
  | divide hlast => rw [List.singleton_append, next?_slash, ofSlash, hlast]
  | power hlast harg =>
    rw [List.cons_append, next?_caret]
    simp only [ofCaret, hlast, argument?_eq_some_iff.2 ⟨_, rfl, harg⟩]
  | caret hlast =>
    rw [List.singleton_append, next?_caret]
    rcases hlast with rfl | harg
    · rfl
    · cases last <;> simp only [ofCaret, harg]
  | subscript hlast harg =>
    rw [List.cons_append, next?_underscore]
    simp only [ofUnderscore, hlast, argument?_eq_some_iff.2 ⟨_, rfl, harg⟩]
  | underscore hlast =>
    rw [List.singleton_append, next?_underscore]
    rcases hlast with hbase | harg
    · simp only [ofUnderscore, hbase]
    · cases hbase : last.bind Node.literal? <;> simp only [ofUnderscore, hbase, harg]
  | root harg =>
    rw [List.cons_append, next?_radical, ofRadical, argument?_eq_some_iff.2 ⟨_, rfl, harg⟩]
  | radical harg => rw [List.singleton_append, next?_radical, ofRadical, harg]
  | group hbalanced =>
    rw [List.cons_append, List.cons_append, List.append_assoc, next?_openBracket, ofBracket,
      List.singleton_append, splitAtClosing_append rest hbalanced]
  | openBracket hclosing =>
    rw [List.singleton_append, next?_openBracket, ofBracket,
      splitAtClosing_eq_none_iff.2 (Nat.le_zero.2 hclosing)]
  | closeBracket => rfl
  | other hc hread =>
    rw [List.singleton_append, next?_cons last rest (isOther_iff.1 hc).1,
      Lexeme.first_of_isOther hc hread]
    rfl

/-- A step takes blanks and then a text that can be read, and it takes one wherever
there is one. -/
theorem next?_eq_some_iff {last : Option Node} {s rest : List Char} {piece : Piece} :
    next? last s = some (piece, rest) ↔
      ∃ blanks typed, s = blanks ++ (typed ++ rest) ∧ isBlankText blanks = true ∧
        Reads last piece typed rest := by
  constructor
  · intro h
    obtain ⟨typed, hcut, hreads⟩ := reads_of_next? h
    exact ⟨leadingBlanks s, typed, hcut, List.all_takeWhile, hreads⟩
  · rintro ⟨blanks, typed, rfl, hblanks, hreads⟩
    rw [next?_blanks_append last _ hblanks, next?_of_reads hreads]

end Piece

/-! ## The loop -/

namespace Node

/-- Where a text stands that can be read as a piece, the piece is put after the nodes so
far and reading goes on after the text. -/
theorem readOnto_of_reads {done : List Node} {piece : Piece} {typed rest : List Char}
    (h : piece.Reads done.head? typed rest) :
    readOnto done (typed ++ rest) = readOnto (piece.place done (readLine piece.inner)) rest :=
  readOnto_of_next? (Piece.next?_of_reads h)

theorem readOnto_nil (done : List Node) : readOnto done [] = done.reverse :=
  readOnto_of_blank rfl

theorem readOnto_leaf_append {done : List Node} {n : Node} {typed rest : List Char}
    (h : Piece.Reads done.head? (.leaf n) typed rest) :
    readOnto done (typed ++ rest) = readOnto (n :: done) rest :=
  readOnto_of_reads h

/-- Blanks in front of a text make no difference. -/
theorem readOnto_blanks_append (done : List Node) {blanks : List Char} (s : List Char)
    (h : isBlankText blanks = true) : readOnto done (blanks ++ s) = readOnto done s := by
  have hnext := Piece.next?_blanks_append done.head? s h
  cases hs : Piece.next? done.head? s with
  | none =>
    rw [readOnto_of_blank (Piece.next?_eq_none_iff.1 hs),
      readOnto_of_blank (Piece.next?_eq_none_iff.1 (hnext.trans hs))]
  | some taken => rw [readOnto_of_next? hs, readOnto_of_next? (hnext.trans hs)]

end Node

namespace Piece

/-- The nodes that a piece takes back when `last` is the node before it. -/
def retracted (last : Option Node) (piece : Piece) : List Node :=
  if piece.retracts then last.toList else []

/-- A step puts its own node in the place of the nodes that it takes back, and leaves
all nodes in front of them as they are. -/
theorem exists_front (done inside : List Node) (piece : Piece) :
    ∃ front, done.reverse = front ++ piece.retracted done.head? ∧
      (piece.place done inside).reverse = front ++ [piece.node inside] := by
  unfold place retracted
  cases piece.retracts with
  | false => exact ⟨done.reverse, (List.append_nil _).symm, List.reverse_cons⟩
  | true =>
    refine ⟨done.tail.reverse, ?_, List.reverse_cons⟩
    cases done with
    | nil => rfl
    | cons last done => exact List.reverse_cons

/-- A leaf is put after the nodes so far. -/
theorem reverse_place_leaf (done inside : List Node) (n : Node) :
    ((leaf n).place done inside).reverse = done.reverse ++ [n] :=
  List.reverse_cons

end Piece

/-- What is kept while a line is read.  `Row s nodes` is what a line `s` and its nodes
are to satisfy.  `Inv whole done s` is what is known of the line `whole` when the nodes
`done`, listed from the last to the first, have been read and `s` is left. -/
structure KeptByReading (Row : List Char → List Node → Prop)
    (Inv : (whole : List Char) → (done : List Node) → (s : List Char) → Prop) : Prop where
  start (s : List Char) : Inv s [] s
  skip {whole blanks s : List Char} {done : List Node} (hblanks : isBlankText blanks = true)
    (hinv : Inv whole done (blanks ++ s)) : Inv whole done s
  step {whole typed rest : List Char} {done : List Node} {piece : Piece}
    (hinv : Inv whole done (typed ++ rest)) (hreads : piece.Reads done.head? typed rest)
    (hrow : Row piece.inner (Node.readLine piece.inner)) :
    Inv whole (piece.place done (Node.readLine piece.inner)) rest
  finish {whole : List Char} {done : List Node} (hinv : Inv whole done []) :
    Row whole done.reverse

namespace KeptByReading

variable {Row : List Char → List Node → Prop}
  {Inv : (whole : List Char) → (done : List Node) → (s : List Char) → Prop}

/-- What is kept holds when reading ends, if it holds of the shorter texts inside. -/
theorem readOnto (h : KeptByReading Row Inv) {whole : List Char} {done : List Node}
    {s : List Char} (hrow : ∀ t : List Char, t.length < s.length → Row t (Node.readLine t))
    (hinv : Inv whole done s) : Row whole (Node.readOnto done s) := by
  cases hnext : Piece.next? done.head? s with
  | none =>
    have hblank := Piece.next?_eq_none_iff.1 hnext
    rw [Node.readOnto_of_blank hblank]
    exact h.finish (h.skip hblank ((List.append_nil s).symm ▸ hinv))
  | some taken =>
    obtain ⟨piece, rest⟩ := taken
    have hlength := Piece.length_of_next? hnext
    obtain ⟨blanks, typed, hcut, hblanks, hreads⟩ := Piece.next?_eq_some_iff.1 hnext
    rw [Node.readOnto_of_next? hnext]
    exact h.readOnto (fun t ht => hrow t (Nat.lt_trans ht hlength.2))
      (h.step (h.skip hblanks (hcut ▸ hinv)) hreads (hrow piece.inner hlength.1))
termination_by s.length
decreasing_by exact hlength.2

/-- What is kept while a line is read holds of every line that has been read. -/
theorem readLine (h : KeptByReading Row Inv) (s : List Char) : Row s (Node.readLine s) :=
  h.readOnto (fun t _ => h.readLine t) (h.start s)
termination_by s.length

end KeptByReading

end MathLine
