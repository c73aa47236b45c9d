import MathLine.Proofs.RowPlaces

set_option autoImplicit false

/-!
# Empty text in a row

A text node may be empty, though reading makes none.  Nothing is written for it, but it is a
part of its row all the same, and the parts beside it are no longer side by side.  In an
outermost row this does not matter, as every part has its space.  Inside a construction a space
stands only between a control word and a letter after it, and that space is lost if an empty
text comes between the two: the control word runs into the letter.

`tokens_withEmptyText_iff` says that this is the one way in which an empty text shows in the
tokens of a line, at whatever place of whatever row it is put.
-/

namespace MathLine

namespace Node

/-- A place in a row of nodes: the levels that lead to the row, and the row cut at the place. -/
structure Place where
  levels : List Level
  front : List Node
  back : List Node

/-- The outermost row that the place is in. -/
def Place.whole (p : Place) : List Node := around p.levels (p.front ++ p.back)

/-- The outermost row with an empty text put at the place. -/
def Place.withEmptyText (p : Place) : List Node :=
  around p.levels (p.front ++ text "" :: p.back)

/-- The number, the letter or the base of a subscript is one that is read from lines.  Nothing is
asked of texts and of function names. -/
def HasReadForm : Node → Prop
  | number digits => Numeral.IsNumeral digits.toList
  | letter c => c.isAlpha = true
  | subscript foot _ =>
    Numeral.IsNumeral foot.toList ∨ ∃ c, foot.toList = [c] ∧ c.isAlpha = true
  | _ => True

/-- What is read has the form. -/
theorem HasShape.hasReadForm {n : Node} (h : n.HasShape) : n.HasReadForm := by
  cases n with
  | number _ | letter _ => exact h
  | subscript _ _ => exact h.1
  | _ => exact trivial

end Node

namespace Tex

open Node (Place Level around CutsCall)

/-! ## A space less -/

/-- The text `t` is `s` without a space between a control word and a letter. -/
def Unspaced (s t : List Char) : Prop :=
  ∃ before after, s = before ++ ' ' :: after ∧ t = before ++ after ∧
    endsInControlWord before = true ∧ startsWithLetter after = true

theorem endsInControlWord_append (s : List Char) {t : List Char}
    (h : endsInControlWord t = true) : endsInControlWord (s ++ t) = true := by
  obtain ⟨before, word, rfl, hword⟩ := endsInControlWord_iff.1 h
  exact endsInControlWord_iff.2 ⟨s ++ before, word, (List.append_assoc ..).symm, hword⟩

theorem startsWithLetter_append {s : List Char} (h : startsWithLetter s = true)
    (t : List Char) : startsWithLetter (s ++ t) = true := by
  cases s with
  | nil => simp [startsWithLetter] at h
  | cons c s => exact h

theorem Unspaced.append {s t : List Char} (h : Unspaced s t) (left right : List Char) :
    Unspaced (left ++ s ++ right) (left ++ t ++ right) := by
  obtain ⟨before, after, rfl, rfl, hword, hletter⟩ := h
  exact ⟨left ++ before, after ++ right, by simp, by simp,
    endsInControlWord_append left hword, startsWithLetter_append hletter right⟩

theorem Unspaced.head?_eq {s t : List Char} (h : Unspaced s t) : t.head? = s.head? := by
  obtain ⟨before, after, rfl, rfl, hword, -⟩ := h
  cases before with
  | nil => exact absurd hword (by decide)
  | cons c before => rfl

/-- Without the space the letters behind it become part of the control word. -/
theorem Unspaced.tokens_ne {s t : List Char} (h : Unspaced s t)
    (hs : ¬['\\', '\\'] <:+: s) : tokens t ≠ tokens s := by
  obtain ⟨before, after, rfl, rfl, hword, hletter⟩ := h
  obtain ⟨front, word, rfl, hne, hletters⟩ := endsInControlWord_iff.1 hword
  have hfront : front.getLast? ≠ some '\\' := by
    intro hlast
    obtain ⟨init, rfl⟩ := List.getLast?_eq_some_iff.1 hlast
    exact hs ⟨init, word ++ ' ' :: after, by simp⟩
  have hspaced : tokens (front ++ '\\' :: (word ++ ' ' :: after)) =
      tokens front ++ .control word :: tokens (' ' :: after) := by
    rw [tokens_append (joins_of_stop hfront rfl), tokens_word _ hne hletters rfl]
  have hglued : tokens (front ++ '\\' :: (word ++ after)) =
      tokens front ++ .control (word ++ after.takeWhile Char.isAlpha) ::
        tokens (after.dropWhile Char.isAlpha) := by
    rw [tokens_append (joins_of_stop hfront rfl), tokens_word_append _ hne hletters]
  intro heq
  rw [List.append_assoc, List.append_assoc, List.cons_append, List.cons_append, hspaced, hglued,
    List.append_right_inj, List.cons.injEq, Token.control.injEq, List.append_right_eq_self] at heq
  cases after with
  | nil => simp [startsWithLetter] at hletter
  | cons c after => simp [show c.isAlpha = true from hletter] at heq

/-! ## An empty part -/

theorem joinAfter_eq_append (spacing : Spacing) (previous part : List Char)
    (rest : List (List Char)) :
    joinAfter spacing previous (part :: rest) =
      separator spacing previous part ++ join spacing (part :: rest) := by
  rw [joinAfter, join_cons, List.append_assoc]

/-- An empty part at the end of a row leaves a space there, and elsewhere it does not show among
parts that stand apart. -/
theorem join_apart_empty (front back : List (List Char)) :
    join .apart (front ++ [] :: back) = join .apart (front ++ back) ∨
      join .apart (front ++ [] :: back) = join .apart (front ++ back) ++ [' '] := by
  rw [join, join, joinAfter_append, joinAfter_append]
  generalize front.getLast?.getD [] = last
  have hseparator (part : List Char) :
      separator .apart last part = if last.isEmpty then [] else [' '] := rfl
  cases back with
  | nil =>
    rw [joinAfter, joinAfter, hseparator]
    split
    · exact .inl rfl
    · exact .inr (by simp [joinAfter])
  | cons part rest =>
    rw [joinAfter, hseparator, joinAfter_eq_append .apart last, hseparator, List.append_nil]
    exact .inl rfl

theorem separator_together (previous part : List Char) :
    separator .together previous part =
      if endsInControlWord previous && startsWithLetter part then [' '] else [] := by
  cases previous <;> rfl

/-- A row ends in a control word if its last part does. -/
theorem endsInControlWord_joinAfter (spacing : Spacing) (previous : List Char)
    {front : List (List Char)} (h : endsInControlWord (front.getLast?.getD []) = true) :
    endsInControlWord (joinAfter spacing previous front) = true := by
  cases hlast : front.getLast? with
  | none =>
    rw [hlast] at h
    exact absurd h (by decide)
  | some part =>
    obtain ⟨init, rfl⟩ := List.getLast?_eq_some_iff.1 hlast
    rw [joinAfter_append, joinAfter, joinAfter, List.append_nil, ← List.append_assoc]
    rw [hlast] at h
    exact endsInControlWord_append _ h

/-- Among parts that stand together an empty part takes away the space between a control word
and a letter, and does not show elsewhere. -/
theorem join_together_empty (front back : List (List Char)) :
    if endsInControlWord (front.getLast?.getD []) && startsWithLetter (back.head?.getD []) then
      Unspaced (join .together (front ++ back)) (join .together (front ++ [] :: back))
    else join .together (front ++ [] :: back) = join .together (front ++ back) := by
  have hempty : join .together (front ++ [] :: back) =
      joinAfter .together [] front ++ join .together back := by
    have hseparator (previous : List Char) : separator .together previous [] = [] := by
      rw [separator_together, startsWithLetter, Bool.and_false]
      rfl
    rw [join, joinAfter_append, joinAfter, hseparator]
    rfl
  rw [hempty, join, joinAfter_append]
  cases back with
  | nil => simp [startsWithLetter, joinAfter]
  | cons part rest =>
    rw [joinAfter_eq_append, List.head?_cons, Option.getD_some, separator_together]
    split
    · next hguard =>
      obtain ⟨hword, hletter⟩ := Bool.and_eq_true_iff.1 hguard
      exact ⟨joinAfter .together [] front, join .together (part :: rest), rfl, rfl,
        endsInControlWord_joinAfter .together [] hword, startsWithLetter_append hletter _⟩
    · rfl

/-! ## An empty text among nodes -/

/-- The last node before a place is written with a control word at its end, and the first one
after it with a letter at its start. -/
def wordMeetsLetter (front back : List Node) : Bool :=
  (front.getLast?.any fun n => endsInControlWord (node n)) &&
    back.head?.any fun n => startsWithLetter (node n)

theorem parts_emptyText (back : List Node) : parts (.text "" :: back) = [] :: parts back := by
  rw [parts.eq_3 _ _ (by simp), node]
  rfl

/-- The last part of a row ends in a control word exactly when its last node does. -/
theorem endsInControlWord_last_part (front : List Node) :
    endsInControlWord ((parts front).getLast?.getD []) =
      front.getLast?.any fun n => endsInControlWord (node n) := by
  rcases List.eq_nil_or_concat' front with rfl | ⟨init, n, rfl⟩
  · rw [parts]
    rfl
  · rw [List.getLast?_concat, Option.any_some]
    by_cases hcut : CutsCall init [n]
    · -- the last node is the group of a call, and both end in a bracket or a brace
      obtain ⟨⟨name, hname⟩, inner, hinner⟩ := hcut
      obtain rfl : n = .parens inner := by simpa using hinner
      obtain ⟨front, rfl⟩ := List.getLast?_eq_some_iff.1 hname
      obtain ⟨before, after, hafter, hcall⟩ := exists_call name
      obtain ⟨before', after', hafter', hnode⟩ := exists_node_fill .inner
      have hfront : ¬CutsCall front [.function name, .parens inner] :=
        Node.not_cutsCall_cons (by simp) _ _
      have hgroup : node (.parens inner) = before' ++ innerRow inner ++ after' := hnode inner
      rw [List.append_assoc, List.singleton_append, parts_append hfront, parts, parts,
        List.getLast?_concat, Option.getD_some, hcall, hgroup,
        (hafter.append _).not_endsInControlWord, (hafter'.append _).not_endsInControlWord]
    · rw [parts_append hcut, parts.eq_3 _ _ (by simp), parts, List.getLast?_concat,
        Option.getD_some]

/-- The first part of a row starts with a letter exactly when its first node does. -/
theorem startsWithLetter_first_part (back : List Node) :
    startsWithLetter ((parts back).head?.getD []) =
      back.head?.any fun n => startsWithLetter (node n) := by
  unfold parts
  split
  · rfl
  · next name inner rest =>
    rw [List.head?_cons, List.head?_cons, Option.getD_some, Option.any_some, node, call]
    split
    · next hroot =>
      rw [hroot]
      rfl
    · obtain ⟨c, more, hname⟩ := List.exists_cons_of_ne_nil (functionName_ne_nil name)
      rw [hname]
      rfl
  · rfl

/-- An empty text in a row inside a construction takes away the space between a control word and
a letter, and does not show elsewhere. -/
theorem innerRow_emptyText {front back : List Node} (h : ¬CutsCall front back) :
    if wordMeetsLetter front back then
      Unspaced (innerRow (front ++ back)) (innerRow (front ++ .text "" :: back))
    else innerRow (front ++ .text "" :: back) = innerRow (front ++ back) := by
  have hempty : ¬CutsCall front (.text "" :: back) := Node.not_cutsCall_cons (by simp) _ _
  rw [innerRow, innerRow, parts_append h, parts_append hempty, parts_emptyText, wordMeetsLetter,
    ← endsInControlWord_last_part, ← startsWithLetter_first_part]
  exact join_together_empty (parts front) (parts back)

/-- An empty text in an outermost row shows as a space at the end of the row, or not at all. -/
theorem outerRow_emptyText {front back : List Node} (h : ¬CutsCall front back) :
    outerRow (front ++ .text "" :: back) = outerRow (front ++ back) ∨
      outerRow (front ++ .text "" :: back) = outerRow (front ++ back) ++ [' '] := by
  have hempty : ¬CutsCall front (.text "" :: back) := Node.not_cutsCall_cons (by simp) _ _
  rw [outerRow, outerRow, parts_append h, parts_append hempty, parts_emptyText]
  exact join_apart_empty (parts front) (parts back)

/-! ## At any place -/

theorem not_mem_verbatim_of_hasReadForm {n : Node} (h : n.HasReadForm) : '\\' ∉ verbatim n := by
  cases n with
  | number digits => exact not_mem_verbatim (n := .number digits) h
  | letter c => exact not_mem_verbatim (n := .letter c) h
  | subscript foot script =>
    -- a script is not empty in a line that is read, but what is typed is its foot alone
    exact not_mem_verbatim (n := .subscript foot [.letter 'x']) ⟨h, by simp⟩
  | _ => exact List.not_mem_nil

/-- In an outermost row an empty text leaves the tokens as they are. -/
theorem tokens_outerRow_emptyText {front back : List Node} (hcut : ¬CutsCall front back)
    (hwhole : (outerRow (front ++ back)).getLast? ≠ some '\\') :
    tokens (outerRow (front ++ .text "" :: back)) = tokens (outerRow (front ++ back)) := by
  rcases outerRow_emptyText hcut with hrow | hrow
  · rw [hrow]
  · rw [hrow, tokens_append (joins_of_stop hwhole rfl), tokens_space, tokens_nil, List.append_nil]

/-- In a row inside other rows an empty text takes away the space between a control word and a
letter, and does not show elsewhere. -/
theorem outerRow_around_emptyText (level : Level) (levels : List Level)
    {front back : List Node} (hcut : ¬CutsCall front back) :
    if wordMeetsLetter front back then
      Unspaced (outerRow (around (level :: levels) (front ++ back)))
        (outerRow (around (level :: levels) (front ++ .text "" :: back)))
    else
      outerRow (around (level :: levels) (front ++ .text "" :: back)) =
        outerRow (around (level :: levels) (front ++ back)) := by
  obtain ⟨left, right, haround⟩ := exists_around .apart level levels (front ++ back)
  have hinner := innerRow_emptyText hcut
  rw [outerRow, outerRow, haround _ rfl]
  cases hguard : wordMeetsLetter front back with
  | true =>
    rw [hguard, if_pos rfl] at hinner
    rw [if_pos rfl, haround _ hinner.head?_eq]
    exact hinner.append left right
  | false =>
    rw [hguard, if_neg Bool.false_ne_true] at hinner
    rw [if_neg Bool.false_ne_true, haround _ (congrArg List.head? hinner), hinner]

/-- An empty text, put at any place of any row that does not cut a call in two, leaves the tokens
of a line as they are, unless it comes between a control word and a letter inside a
construction. -/
theorem tokens_withEmptyText_iff (p : Place)
    (hform : ∀ m ∈ Node.inRow p.whole, m.HasReadForm) (hcut : ¬CutsCall p.front p.back) :
    tokens (line p.withEmptyText).toList = tokens (line p.whole).toList ↔
      p.levels = [] ∨ wordMeetsLetter p.front p.back = false := by
  have hleads : Leads beginsCommand (outerRow p.whole) :=
    stable_leads.outerRow fun m hm =>
      leads_of_not_mem (not_mem_verbatim_of_hasReadForm (hform m hm))
  obtain ⟨levels, front, back⟩ := p
  simp only [line, String.toList_ofList, Place.whole, Place.withEmptyText] at hleads ⊢
  cases levels with
  | nil => exact iff_of_true (tokens_outerRow_emptyText hcut hleads.2) (.inl rfl)
  | cons level levels =>
    have haround := outerRow_around_emptyText level levels hcut
    cases hguard : wordMeetsLetter front back with
    | false =>
      rw [hguard, if_neg Bool.false_ne_true] at haround
      exact iff_of_true (congrArg tokens haround) (.inr rfl)
    | true =>
      rw [hguard, if_pos rfl] at haround
      exact iff_of_false (haround.tokens_ne (hleads.absent rfl)) (by simp)

/-- A place in the exponent in `log(×x^{Γ my name}%)`, where a command stands after a control
word. -/
def inExponent : Place :=
  ⟨[⟨[.function "log"], .inner, [.text "%"]⟩, ⟨[.operator .times], .exponent [.letter 'x'], []⟩],
    [.text "", .function "gamma"], [.function "my name", .letter 'B']⟩

theorem tokens_withEmptyText_inExponent :
    (∀ m ∈ Node.inRow inExponent.whole, m.HasReadForm) ∧
      ¬CutsCall inExponent.front inExponent.back ∧
        (tokens (line inExponent.withEmptyText).toList = tokens (line inExponent.whole).toList ↔
          inExponent.levels = [] ∨ wordMeetsLetter inExponent.front inExponent.back = false) :=
  have hletters : 'x'.isAlpha = true ∧ 'B'.isAlpha = true := ⟨rfl, rfl⟩
  have hform : ∀ m ∈ Node.inRow inExponent.whole, m.HasReadForm := by
    simp [inExponent, Place.whole, around, Level.fill, Node.Slot.fill, Node.inTree,
      Node.HasReadForm, hletters]
  have hcut : ¬CutsCall inExponent.front inExponent.back := by
    simp [inExponent, CutsCall]
  ⟨hform, hcut, tokens_withEmptyText_iff inExponent hform hcut⟩

/-- The place between the name and the letter in `(log x)`. -/
def betweenLogAndLetter : Place :=
  ⟨[⟨[], .inner, []⟩], [.function "log"], [.letter 'x']⟩

/-- Put between a control word and a letter in a group, an empty text makes one control word of
the two. -/
theorem tokens_changed_after_log :
    (∀ m ∈ Node.inRow betweenLogAndLetter.whole, m.HasReadForm) ∧
      ¬CutsCall betweenLogAndLetter.front betweenLogAndLetter.back ∧
        tokens (line betweenLogAndLetter.withEmptyText).toList ≠
          tokens (line betweenLogAndLetter.whole).toList := by
  have hletter : 'x'.isAlpha = true := rfl
  refine ⟨?_, ?_, by decide +kernel⟩
  · simp [betweenLogAndLetter, Place.whole, around, Level.fill, Node.Slot.fill, Node.inTree,
      Node.HasReadForm, hletter]
  · simp [betweenLogAndLetter, CutsCall]

end Tex

end MathLine
