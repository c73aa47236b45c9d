import MathLine.Proofs.Steps

set_option autoImplicit false

/-!
# How far a step looks ahead

A step of reading takes a text and looks at what follows it: at the next character, at the
word that goes on, at whether an argument can be found there.  `SameAhead` says that two
texts are the same to a step in this sense, and `Piece.Reads.of_sameAhead` that a text which
is read in front of the one is read as the same piece in front of the other.

One step looks at all that follows: an opening bracket is text only where nothing closes
it.  So that is asked for apart.

`SameAhead.append_of_blank` is the case of a text that goes on behind a blank.  Nothing
behind the blank is seen, provided that no bracket is left open before it.
-/

namespace MathLine

open MathLine.Text

/-- The character that a text starts with, if it is no blank. -/
def nextChar? (s : List Char) : Option Char := s.head?.filter fun c => !isBlank c

theorem nextChar?_cons {c : Char} (s : List Char) (h : isBlank c = false) :
    nextChar? (c :: s) = some c := by
  simp [nextChar?, h]

/-- A text goes on with a character that is no blank exactly when it starts with it. -/
theorem nextChar?_eq_some_iff {c : Char} {s : List Char} (h : isBlank c = false) :
    nextChar? s = some c ↔ s.head? = some c := by
  simp [nextChar?, Option.filter_eq_some_iff, h]

theorem startsInWord_of_nextChar? {s : List Char} (h : nextChar? s = none) :
    startsInWord s = false := by
  cases s with
  | nil => rfl
  | cons c s =>
    rw [startsInWord, Bool.eq_false_iff]
    intro hc
    rw [nextChar?_cons s (isBlank_of_isWordChar hc)] at h
    exact absurd h (by simp)

/-! ## What is asked of the next character -/

/-- Whether a text goes on with a character of a class without blanks shows at its next
character. -/
theorem head?_any_congr {p : Char → Bool} (hp : ∀ c, p c = true → isBlank c = false)
    {s t : List Char} (h : nextChar? s = nextChar? t) : s.head?.any p = t.head?.any p := by
  have key (u : List Char) : u.head?.any p = (nextChar? u).any p := by
    cases u with
    | nil => rfl
    | cons c u =>
      cases hblank : isBlank c with
      | false => rw [nextChar?_cons u hblank, List.head?_cons]
      | true =>
        have hc : p c = false := by
          rw [Bool.eq_false_iff]
          intro hc
          rw [hp c hc] at hblank
          exact Bool.false_ne_true hblank
        simp [nextChar?, hblank, hc]
  rw [key s, key t, h]

namespace Numeral

theorem takeWhile_isDigit_eq_nil_iff {s : List Char} :
    s.takeWhile Char.isDigit = [] ↔ s.head?.any Char.isDigit = false := by
  cases s with
  | nil => simp
  | cons c s => cases hc : c.isDigit <;> simp [hc]

/-- Digits in front of a number make it a longer one. -/
theorem leading_digits_append {digits : List Char} (s : List Char)
    (h : ∀ c ∈ digits, c.isDigit = true) : leading (digits ++ s) = digits ++ leading s := by
  rw [leading, List.takeWhile_append_of_pos h, List.dropWhile_append_of_pos h, leading,
    List.append_assoc]

/-- After the point of a number nothing but digits is taken. -/
theorem leading_point (s : List Char) :
    leading ('.' :: s) = '.' :: s.takeWhile Char.isDigit := rfl

theorem leading_eq_nil_iff {s : List Char} :
    leading s = [] ↔ s.head?.any isStart = false := by
  cases s with
  | nil => simp [leading]
  | cons c s =>
    cases hc : isStart c with
    | true => simp [leading_ne_nil hc, hc]
    | false =>
      have hdigit : c.isDigit = false ∧ c ≠ '.' := by simpa [isStart] using hc
      simp [leading, hdigit, hc]

/-- Where a number ends shows at the next character. -/
theorem leading_append_congr {t rest rest' : List Char} (hne : t ≠ [])
    (hlead : leading (t ++ rest) = t) (h : nextChar? rest = nextChar? rest') :
    leading (t ++ rest') = t := by
  cases isNumeral_of_leading_append hne hlead with
  | whole _ hdigits =>
    rw [leading_digits_append _ hdigits, List.append_right_eq_self, leading_eq_nil_iff] at hlead ⊢
    rw [← head?_any_congr (fun _ => isBlank_of_isStart) h]
    exact hlead
  | @pointed digits decimals hdigits hdecimals =>
    have hdigit (c : Char) (hc : c.isDigit = true) : isBlank c = false :=
      isBlank_of_isWordChar (isWordChar_of_isDigit hc)
    rw [List.append_assoc, leading_digits_append _ hdigits, List.cons_append, leading_point,
      List.takeWhile_append_of_pos hdecimals, List.append_right_inj, List.cons.injEq,
      List.append_right_eq_self, takeWhile_isDigit_eq_nil_iff] at hlead ⊢
    rw [← head?_any_congr hdigit h]
    exact ⟨rfl, hlead.2⟩

end Numeral

namespace Operator

/-- The operators that go on if an equals sign follows them. -/
def opensLonger (op : Operator) : Bool := op == less || op == greater

/-- An operator other than the slash is read where no equals sign makes it a longer one. -/
theorem read?_typed_iff {op : Operator} {s : List Char} :
    read? (op.typed.toList ++ s) = some (op, s) ↔
      op ≠ divide ∧ (op.opensLonger = true → s.head? ≠ some '=') := by
  by_cases hs : s.head? = some '='
  · obtain ⟨tail, rfl⟩ := List.head?_eq_some_iff.1 hs
    cases op <;> simp [typed, read?, opensLonger]
  · cases op <;> simp [hs, opensLonger, typed, read?]
    all_goals
      split <;> simp_all

/-- No operator is read at a character that stands for itself, unless an equals sign follows
it. -/
theorem read?_other_iff {c : Char} {s : List Char} (hc : isOther c = true) :
    read? (c :: s) = none ↔ (c = '!' ∨ c = '~' → s.head? ≠ some '=') := by
  have hsign := (isOther_iff.1 hc).2.2
  simp only [List.mem_cons, List.not_mem_nil, or_false, not_or] at hsign
  constructor
  · rintro hread hmark hs
    obtain ⟨tail, rfl⟩ := List.head?_eq_some_iff.1 hs
    rcases hmark with rfl | rfl <;> simp [read?] at hread
  · intro hmark
    unfold read?
    split <;> simp_all

end Operator

/-- The function name that a text starts with is the word it starts with, if that is one. -/
theorem Lexicon.leading?_eq (s : List Char) :
    leading? s =
      if contains (String.ofList (leadingWord s)) then
        some (String.ofList (leadingWord s), afterWord s)
      else none := by
  split
  · next hname =>
    rw [leading?_eq_some_iff, String.toList_ofList]
    exact ⟨hname, (leadingWord_append_afterWord s).symm, startsInWord_afterWord s⟩
  · next hname =>
    cases hfound : leading? s with
    | none => rfl
    | some found =>
      obtain ⟨name, rest⟩ := found
      have hcontains := (of_leading?_eq_some hfound).1
      rw [← String.ofList_toList (s := name), ← leadingWord_of_leading? hfound] at hcontains
      exact absurd hcontains hname

/-! ## What a step asks of the text after it -/

/-- A step reads from the first character that is no blank. -/
theorem Piece.skipBlanks_of_next? {last : Option Node} {s rest : List Char} {piece : Piece}
    (h : next? last s = some (piece, rest)) :
    ∃ typed, skipBlanks s = typed ++ rest ∧ Reads last piece typed rest := by
  obtain ⟨typed, hcut, hreads⟩ := reads_of_next? h
  have hsplit := (leadingBlanks_append_skipBlanks s).trans hcut
  exact ⟨typed, List.append_cancel_left hsplit, hreads⟩

/-- Two texts look the same to the step in front of them: the same character follows, the
same word goes on, and where there is no argument in the one there is none in the other. -/
structure SameAhead (rest rest' : List Char) : Prop where
  next : nextChar? rest = nextChar? rest'
  word : leadingWord rest = leadingWord rest'
  argument : Piece.argument? rest = none → Piece.argument? rest' = none

namespace SameAhead

variable {rest rest' : List Char}

theorem startsInWord_eq (h : SameAhead rest rest') : startsInWord rest' = startsInWord rest := by
  rw [Bool.eq_iff_iff, startsInWord_eq_true_iff, startsInWord_eq_true_iff, h.word]

theorem head?_ne_equals (h : SameAhead rest rest') (hne : rest.head? ≠ some '=') :
    rest'.head? ≠ some '=' := by
  rw [ne_eq, ← nextChar?_eq_some_iff (by decide)] at hne ⊢
  rwa [← h.next]

end SameAhead

theorem Argument.of_stop {arg written rest rest' : List Char} (h : Argument arg written rest)
    (hstop : startsInWord rest' = startsInWord rest) : Argument arg written rest' := by
  cases h with
  | word hword hend => exact .word hword (hstop.trans hend)
  | group hbalanced hblank => exact .group hbalanced hblank

/-- What is read in front of a text is read in front of one that looks the same, provided
that a bracket which is not closed in the one is not closed in the other. -/
theorem Piece.Reads.of_sameAhead {last : Option Node} {piece : Piece}
    {typed rest rest' : List Char} (h : piece.Reads last typed rest)
    (hahead : SameAhead rest rest')
    (hopen : typed = ['('] → (loose rest).closing = 0 → (loose rest').closing = 0) :
    piece.Reads last typed rest' := by
  have hstart := hahead.startsInWord_eq
  cases h with
  | number hne hlead => exact .number hne (Numeral.leading_append_congr hne hlead hahead.next)
  | function hname hstop => exact .function hname (hstart.trans hstop)
  | letter hc hname =>
    refine .letter hc ?_
    have hword := isWordChar_of_isAlpha hc
    rw [Lexicon.leading?_eq, leadingWord, List.takeWhile_cons_of_pos hword] at hname ⊢
    change (if _ then _ else _) = none
    have hsame : rest'.takeWhile isWordChar = rest.takeWhile isWordChar := hahead.word.symm
    rw [hsame]
    simpa using hname
  | operator hread =>
    obtain ⟨hop, hlonger⟩ := Operator.read?_typed_iff.1 hread
    exact .operator (Operator.read?_typed_iff.2
      ⟨hop, fun hopens => hahead.head?_ne_equals (hlonger hopens)⟩)
  | fraction hlast hliteral hword hstop =>
    exact .fraction hlast hliteral hword (hstart.trans hstop)
  | divide hlast => exact .divide (by rwa [hstart])
  | power hlast harg => exact .power hlast (harg.of_stop hstart)
  | caret hlast => exact .caret (hlast.imp_right hahead.argument)
  | subscript hlast harg => exact .subscript hlast (harg.of_stop hstart)
  | underscore hlast => exact .underscore (hlast.imp_right hahead.argument)
  | root harg => exact .root (harg.of_stop hstart)
  | radical harg => exact .radical (hahead.argument harg)
  | group hbalanced => exact .group hbalanced
  | openBracket hclosing => exact .openBracket (hopen rfl hclosing)
  | closeBracket => exact .closeBracket
  | other hc hread =>
    exact .other hc ((Operator.read?_other_iff hc).2 fun hmark =>
      hahead.head?_ne_equals ((Operator.read?_other_iff hc).1 hread hmark))

/-! ## Behind a blank -/

theorem leadingWord_append_of_blank (s : List Char) {t : List Char} (h : nextChar? t = none) :
    leadingWord (s ++ t) = leadingWord s := by
  have hstop := startsInWord_of_nextChar? h
  induction s with
  | nil => exact leadingWord_of_stop hstop
  | cons c s ih =>
    rw [List.cons_append, leadingWord, leadingWord, List.takeWhile_cons, List.takeWhile_cons]
    exact congrArg (fun word => if isWordChar c then c :: word else []) ih

/-- Without a bracket in front there is no argument where no word goes on. -/
theorem argument?_eq_none_of_stop {s : List Char} (hstop : startsInWord s = false)
    (hopen : s.head? ≠ some '(') : Piece.argument? s = none := by
  unfold Piece.argument?
  split
  · exact absurd rfl hopen
  · rw [if_neg (by simp [hstop])]

theorem argument?_of_nextChar? {s : List Char} (h : nextChar? s = none) :
    Piece.argument? s = none := by
  refine argument?_eq_none_of_stop (startsInWord_of_nextChar? h) ?_
  rw [ne_eq, ← nextChar?_eq_some_iff (by decide), h]
  exact nofun

/-- Where every bracket is closed before a blank, no argument reaches over the blank. -/
theorem argument?_append_of_blank {s t : List Char} (hopening : (loose s).opening = 0)
    (h : nextChar? t = none) (hs : Piece.argument? s = none) :
    Piece.argument? (s ++ t) = none := by
  cases s with
  | nil => exact argument?_of_nextChar? h
  | cons c s =>
    by_cases hc : c = '('
    · subst hc
      rw [loose_open] at hopening
      simp only [Loose.beside] at hopening
      cases hcut : splitAtClosing 0 s with
      | none =>
        have := splitAtClosing_eq_none_iff.1 hcut
        omega
      | some cut =>
        obtain ⟨inner, after⟩ := cut
        obtain ⟨rfl, hloose⟩ := splitAtClosing_eq_some_iff.1 hcut
        have hcut' : splitAtClosing 0 (inner ++ ')' :: after ++ t) = some (inner, after ++ t) := by
          rw [List.append_assoc, List.cons_append, splitAtClosing_append _ hloose]
        rw [Piece.argument?, hcut, Option.filter_eq_none_iff] at hs
        rw [List.cons_append, Piece.argument?, hcut', Option.filter_eq_none_iff]
        intro cut hsome
        obtain rfl := Option.some.inj hsome
        exact hs (inner, after) rfl
    · have hstop : startsInWord (c :: s) = false := by
        rw [Bool.eq_false_iff]
        intro hstart
        have hword : IsWord (leadingWord (c :: s)) := isWord_leadingWord hstart
        rw [Piece.argument?_eq_some_iff.2 ⟨_, (leadingWord_append_afterWord _).symm,
          .word hword (startsInWord_afterWord _)⟩] at hs
        exact absurd hs (by simp)
      refine argument?_eq_none_of_stop hstop ?_
      rw [List.cons_append, List.head?_cons]
      exact fun heq => hc (Option.some.inj heq)

/-- A step in front of a text that leaves no bracket open does not see what comes behind a
blank after the text. -/
theorem SameAhead.append_of_blank {s t : List Char} (hopening : (loose s).opening = 0)
    (h : nextChar? t = none) : SameAhead s (s ++ t) where
  next := by
    cases s with
    | nil => exact h.symm
    | cons c s => rfl
  word := (leadingWord_append_of_blank s h).symm
  argument := argument?_append_of_blank hopening h

end MathLine
