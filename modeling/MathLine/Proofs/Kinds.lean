import MathLine.Expression
import MathLine.Proofs.FreeRelations

set_option autoImplicit false

/-!
# The kind of a line

The kind of a line is inferred from the nodes at its top level.  `kind_ofString` says what that
means for the text: which lines are equations, which are text, and that all others are plain
expressions.

For equations the work is done by `any_isRelation_readLine`.  A line is text if all its nodes
are, and then it is plain: its characters stand for nothing but themselves, and no bracket in
it finds a partner.  An opening bracket is passed over as text only once nothing behind it
closes it, and that is what is kept while the line is read (`keptByReading_isText`).
-/

namespace MathLine

open MathLine.Text

/-! ## Plain texts -/

/-- Whether `c` never is text: letters and digits are not, nor the point, nor the signs that
are operators on their own. -/
def isNeverText (c : Char) : Bool :=
  isWordChar c || List.elem c ['.', '+', '-', '*', '/', '=', '<', '>']

/-- No character of the text means anything else than itself, and no opening bracket has a
closing one after it. -/
structure IsPlainText (s : List Char) : Prop where
  characters : ∀ c ∈ s, isNeverText c = false
  brackets : ¬List.Sublist ['(', ')'] s

theorem isPlainText_nil : IsPlainText [] := ⟨nofun, nofun⟩

theorem IsPlainText.of_append_right {s t : List Char} (h : IsPlainText (s ++ t)) :
    IsPlainText t where
  characters c hc := h.characters c (List.mem_append_right s hc)
  brackets ht := h.brackets (ht.trans (List.sublist_append_right s t))

theorem IsPlainText.of_append_left {s t : List Char} (h : IsPlainText (s ++ t)) :
    IsPlainText s where
  characters c hc := h.characters c (List.mem_append_left t hc)
  brackets hs := h.brackets (hs.trans (List.sublist_append_left s t))

theorem not_isPlainText_of_mem {c : Char} {s : List Char} (hc : isNeverText c = true)
    (hmem : c ∈ s) : ¬IsPlainText s := by
  intro h
  rw [h.characters c hmem] at hc
  exact Bool.false_ne_true hc

theorem not_isPlainText_group (inner : List Char) : ¬IsPlainText ('(' :: inner ++ [')']) := by
  intro h
  refine h.brackets (List.Sublist.cons_cons '(' ?_)
  exact List.sublist_append_right inner [')']

theorem isNeverText_of_isBlank {c : Char} (h : isBlank c = true) : isNeverText c = false := by
  rw [Bool.eq_false_iff, ne_eq, isNeverText, Bool.or_eq_true, List.elem_eq_mem, decide_eq_true_iff]
  rintro (hword | hsign)
  · rw [isBlank_of_isWordChar hword] at h
    exact Bool.false_ne_true h
  · simp only [List.mem_cons, List.not_mem_nil, or_false] at hsign
    rcases hsign with rfl | rfl | rfl | rfl | rfl | rfl | rfl | rfl <;> exact absurd h (by decide)

/-- A text stays plain with characters behind it that may be text and close no bracket. -/
theorem isPlainText_append_iff {s t : List Char} (htext : ∀ c ∈ t, isNeverText c = false)
    (hclose : ')' ∉ t) : IsPlainText (s ++ t) ↔ IsPlainText s := by
  constructor
  · exact IsPlainText.of_append_left
  · rintro ⟨hcharacters, hbrackets⟩
    refine ⟨List.forall_mem_append.2 ⟨hcharacters, htext⟩, fun hsub => hbrackets ?_⟩
    obtain ⟨front, back, hcut, hfront, hback⟩ := List.sublist_append_iff.1 hsub
    rcases List.eq_nil_or_concat back with rfl | ⟨back, c, rfl⟩
    · rwa [hcut, List.append_nil]
    · -- Then the closing bracket would be in the second text.
      rw [List.concat_eq_append, ← List.append_assoc] at hcut
      have hlast : ['('] ++ [')'] = front ++ back ++ [c] := hcut
      obtain ⟨rfl, -⟩ := List.cons.inj (List.append_inj' hlast rfl).2
      exact absurd (hback.mem (by simp)) hclose

/-- A plain text stays plain with a closing bracket behind it if it opens none. -/
theorem isPlainText_append_close_iff {s : List Char} :
    IsPlainText (s ++ [')']) ↔ IsPlainText s ∧ '(' ∉ s := by
  constructor
  · intro h
    refine ⟨h.of_append_left, fun hopen => ?_⟩
    have hpair : List.Sublist (['('] ++ [')']) (s ++ [')']) :=
      (List.singleton_sublist.2 hopen).append_right [')']
    exact h.brackets hpair
  · rintro ⟨h, hopen⟩
    constructor
    · exact List.forall_mem_append.2 ⟨h.characters, List.forall_mem_singleton.2 rfl⟩
    · intro hsub
      have hpair : List.Sublist (['('] ++ [')']) (s ++ [')']) := hsub
      exact hopen (List.singleton_sublist.1 ((List.append_sublist_append_right [')']).1 hpair))

/-! ## What a step takes -/

theorem isNeverText_of_isWordChar {c : Char} (h : isWordChar c = true) : isNeverText c = true := by
  rw [isNeverText, h, Bool.true_or]

theorem not_isPlainText_of_isWord {w : List Char} (h : IsWord w) : ¬IsPlainText w := by
  obtain ⟨hne, hword⟩ := h
  cases w with
  | nil => exact absurd rfl hne
  | cons c w =>
    have hc := isNeverText_of_isWordChar (hword c List.mem_cons_self)
    exact not_isPlainText_of_mem hc List.mem_cons_self

theorem Numeral.IsNumeral.not_isPlainText {t : List Char} (h : IsNumeral t) :
    ¬IsPlainText t := by
  obtain ⟨c, hmem⟩ := List.exists_mem_of_ne_nil t h.ne_nil
  have hstart := h.isStart_of_mem c hmem
  rw [isStart, Bool.or_eq_true, beq_iff_eq] at hstart
  rcases hstart with hdigit | rfl
  · exact not_isPlainText_of_mem (isNeverText_of_isWordChar (isWordChar_of_isDigit hdigit)) hmem
  · exact not_isPlainText_of_mem (by decide) hmem

theorem Argument.not_isPlainText {arg written rest : List Char} (h : Argument arg written rest) :
    ¬IsPlainText written := by
  cases h with
  | word hword _ => exact not_isPlainText_of_isWord hword
  | group _ _ => exact not_isPlainText_group arg

theorem not_isPlainText_cons {c : Char} {s : List Char} (h : ¬IsPlainText s) :
    ¬IsPlainText (c :: s) := by
  intro hcons
  exact h (IsPlainText.of_append_right (s := [c]) hcons)

/-- An operator is typed with a character that is never text. -/
theorem Operator.not_isPlainText_typed (op : Operator) : ¬IsPlainText op.typed.toList := by
  obtain ⟨c, hc, hmem⟩ : ∃ c, isNeverText c = true ∧ c ∈ op.typed.toList := by
    cases op <;> exact ⟨_, by decide, List.mem_of_getLast? rfl⟩
  exact not_isPlainText_of_mem hc hmem

theorem isNeverText_of_isOther {c : Char} (h : isOther c = true) : isNeverText c = false := by
  obtain ⟨-, hword, hsign⟩ := isOther_iff.1 h
  simp only [List.mem_cons, List.not_mem_nil, or_false, not_or] at hsign
  simp [isNeverText, hword, hsign]

/-- A step makes text of a single character that may be text, a bracket only if it has no
partner, or else it takes what no plain text has in it. -/
theorem Piece.Reads.isText_or_not_plain {last : Option Node} {piece : Piece}
    {typed rest : List Char} (h : piece.Reads last typed rest) :
    (∃ content c, piece = leaf (.text content) ∧ typed = [c] ∧ isNeverText c = false ∧
        (c = '(' → (loose rest).closing = 0)) ∨
      (∀ inside, (piece.node inside).isText = false) ∧ ¬IsPlainText typed := by
  cases h with
  | number hne hlead =>
    have hnumeral := Numeral.isNumeral_of_leading_append hne hlead
    exact .inr ⟨fun _ => rfl, hnumeral.not_isPlainText⟩
  | function hname _ =>
    have hword := Lexicon.isWord_of_contains hname
    exact .inr ⟨fun _ => rfl, not_isPlainText_of_isWord hword⟩
  | letter hc _ =>
    have hword := isNeverText_of_isWordChar (isWordChar_of_isAlpha hc)
    exact .inr ⟨fun _ => rfl, not_isPlainText_of_mem hword List.mem_cons_self⟩
  | @operator op _ _ => exact .inr ⟨fun _ => rfl, op.not_isPlainText_typed⟩
  | divide _ => exact .inr ⟨fun _ => rfl, Operator.divide.not_isPlainText_typed⟩
  | fraction _ _ hword _ =>
    exact .inr ⟨fun _ => rfl, not_isPlainText_cons (not_isPlainText_of_isWord hword)⟩
  | power _ harg | subscript _ harg | root harg =>
    exact .inr ⟨fun _ => rfl, not_isPlainText_cons harg.not_isPlainText⟩
  | @group inner _ _ => exact .inr ⟨fun _ => rfl, not_isPlainText_group inner⟩
  | openBracket hclosing => exact .inl ⟨"(", '(', rfl, rfl, by decide, fun _ => hclosing⟩
  | caret _ => exact .inl ⟨"^", '^', rfl, rfl, by decide, fun h => absurd h (by decide)⟩
  | underscore _ => exact .inl ⟨"_", '_', rfl, rfl, by decide, fun h => absurd h (by decide)⟩
  | radical _ => exact .inl ⟨"√", '√', rfl, rfl, by decide, fun h => absurd h (by decide)⟩
  | closeBracket => exact .inl ⟨")", ')', rfl, rfl, by decide, fun h => absurd h (by decide)⟩
  | other hc _ =>
    refine .inl ⟨_, _, rfl, rfl, isNeverText_of_isOther hc, ?_⟩
    rintro rfl
    exact absurd hc (by decide)

/-! ## A whole line -/

/-- No opening bracket of the plain text `passed` has a partner in what follows. -/
def StaysOpen (passed s : List Char) : Prop :=
  IsPlainText passed → '(' ∈ passed → (loose s).closing = 0

/-- A character that is kept as text leaves a plain text plain, and its brackets open. -/
theorem StaysOpen.append_singleton {c : Char} {passed rest : List Char}
    (h : StaysOpen passed (c :: rest)) (hc : isNeverText c = false)
    (hclosing : c = '(' → (loose rest).closing = 0) :
    (IsPlainText (passed ++ [c]) ↔ IsPlainText passed) ∧ StaysOpen (passed ++ [c]) rest := by
  by_cases hclose : c = ')'
  · subst hclose
    -- An opening bracket before it would have been its partner.
    have hopen (hpassed : IsPlainText passed) : '(' ∉ passed := by
      intro hmem
      have hzero := h hpassed hmem
      rw [loose_close] at hzero
      simp [Loose.beside] at hzero
    rw [isPlainText_append_close_iff, and_iff_left_iff_imp]
    refine ⟨hopen, fun hplain hmem => ?_⟩
    have hpassed := isPlainText_append_close_iff.1 hplain
    exact absurd hmem (by simp [hpassed.2])
  · have hplain := isPlainText_append_iff (s := passed) (t := [c]) (by simpa using hc)
      (by simpa using Ne.symm hclose)
    refine ⟨hplain, fun hpassed hmem => ?_⟩
    by_cases hopen : c = '('
    · exact hclosing hopen
    · have hzero := h (hplain.1 hpassed) (by simpa [Ne.symm hopen] using hmem)
      rwa [loose_cons_of_not_bracket (by simp [isBracket, hopen, hclose])] at hzero

/-- Blanks leave a plain text plain, and its brackets open. -/
theorem StaysOpen.append_blanks {passed blanks s : List Char}
    (h : StaysOpen passed (blanks ++ s)) (hblanks : isBlankText blanks = true) :
    (IsPlainText (passed ++ blanks) ↔ IsPlainText passed) ∧ StaysOpen (passed ++ blanks) s := by
  have hblank : ∀ c ∈ blanks, isBlank c = true := List.all_eq_true.1 hblanks
  have hbracket : ∀ c ∈ blanks, isBracket c = false := by
    intro c hc
    exact isBracket_of_isBlank (hblank c hc)
  have hplain := isPlainText_append_iff (s := passed)
    (fun c hc => isNeverText_of_isBlank (hblank c hc)) (fun hc => nomatch hbracket ')' hc)
  refine ⟨hplain, fun hpassed hmem => ?_⟩
  have hopen := (List.mem_append.1 hmem).resolve_right fun hc => nomatch hbracket '(' hc
  have hzero := h (hplain.1 hpassed) hopen
  rwa [loose_append_of_balanced s (isBalanced_of_blank hblanks)] at hzero

/-- While a line is read, all nodes are text exactly if what has been passed is plain. -/
theorem keptByReading_isText :
    KeptByReading (fun s nodes => (∀ n ∈ nodes, n.isText = true) ↔ IsPlainText s)
      (fun whole done s => ∃ passed, whole = passed ++ s ∧
        ((∀ n ∈ done.reverse, n.isText = true) ↔ IsPlainText passed) ∧ StaysOpen passed s) where
  start s := ⟨[], rfl, by simp [isPlainText_nil], fun _ => nofun⟩
  skip := by
    intro whole blanks s done hblanks hinv
    obtain ⟨passed, rfl, hdone, hopen⟩ := hinv
    obtain ⟨hplain, hopen'⟩ := hopen.append_blanks hblanks
    exact ⟨passed ++ blanks, by simp, hdone.trans hplain.symm, hopen'⟩
  step := by
    intro whole typed rest done piece hinv hreads _
    obtain ⟨passed, rfl, hdone, hopen⟩ := hinv
    refine ⟨passed ++ typed, by simp, ?_⟩
    rcases hreads.isText_or_not_plain with ⟨content, c, rfl, rfl, hc, hclosing⟩ | ⟨hnode, hnot⟩
    · obtain ⟨hplain, hopen'⟩ := hopen.append_singleton hc hclosing
      refine ⟨?_, hopen'⟩
      rw [hplain, ← hdone, Piece.reverse_place_leaf, List.forall_mem_append]
      simp [Node.isText]
    · -- Neither is so from here on.
      have hnot' : ¬IsPlainText (passed ++ typed) := mt IsPlainText.of_append_right hnot
      refine ⟨iff_of_false (fun hall => ?_) hnot', fun hplain => absurd hplain hnot'⟩
      have hnew := hall (piece.node (Node.readLine piece.inner)) (by simp [Piece.place])
      rw [hnode] at hnew
      exact Bool.false_ne_true hnew
  finish := by
    intro whole done hinv
    obtain ⟨passed, rfl, hdone, -⟩ := hinv
    rwa [List.append_nil]

/-- All nodes of a line are text exactly if the line is plain. -/
theorem all_isText_readLine (s : List Char) :
    (Node.readLine s).all Node.isText = true ↔ IsPlainText s := by
  rw [List.all_eq_true, keptByReading_isText.readLine s]

namespace Kind

theorem ofNodes_eq_equation_iff {parts : List Node} :
    ofNodes parts = equation ↔ parts.any Node.isRelation = true := by
  unfold ofNodes
  split
  · simp_all
  · split <;> simp_all

theorem ofNodes_eq_text_iff {parts : List Node} :
    ofNodes parts = text ↔ parts ≠ [] ∧ parts.all Node.isText = true := by
  have hrelation : parts.any Node.isRelation = true → ¬parts.all Node.isText = true := by
    rw [List.any_eq_true, List.all_eq_true]
    rintro ⟨n, hn, hop⟩ hall
    have htext := hall n hn
    cases n <;> simp [Node.isRelation, Node.isText] at hop htext
  unfold ofNodes
  split
  · next hany => simp [hrelation hany]
  · split <;> simp_all

end Kind

/-- The kind of a line follows from its text: it is an equation if one of its relations is
free, text if it is plain and not blank, and a plain expression otherwise. -/
theorem Expression.kind_ofString (s : String) :
    ((ofString s).kind = .equation ↔ HasFreeRelation s.toList) ∧
      ((ofString s).kind = .text ↔ isBlankText s.toList = false ∧ IsPlainText s.toList) ∧
        ((ofString s).kind = .expression ↔
          ¬HasFreeRelation s.toList ∧ ¬(isBlankText s.toList = false ∧ IsPlainText s.toList)) := by
  have hequation : (ofString s).kind = .equation ↔ HasFreeRelation s.toList :=
    Kind.ofNodes_eq_equation_iff.trans (any_isRelation_readLine s.toList)
  have htext : (ofString s).kind = .text ↔
      isBlankText s.toList = false ∧ IsPlainText s.toList := by
    refine Kind.ofNodes_eq_text_iff.trans ?_
    rw [all_isText_readLine, ne_eq, Node.readLine_eq_nil_iff, Bool.not_eq_true]
  refine ⟨hequation, htext, ?_⟩
  rw [← hequation, ← htext]
  cases (ofString s).kind <;> simp

/-- The caret takes the first equals sign away, and the second stands between brackets. -/
example : (Expression.ofString "a=^2+(b=c)").kind = .expression := by
  decide +kernel

end MathLine
