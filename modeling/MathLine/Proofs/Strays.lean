import MathLine.Proofs.Shape

set_option autoImplicit false

/-!
# Brackets without a partner

Most brackets of a line end up in its structure.  A bracket without a partner is kept as
text, and can only get to one other place: a caret after it makes it the base of a power,
and that power may be the base of another one.  `strays` lists these brackets.

`rowStrays_readLine` says that the brackets that are kept as text are just those that
have no partner in the line, in the order in which they stand there.  So what is read
from a balanced text, which is all that a construction is ever filled with, has none of
them (`rowStrays_of_balanced`).
-/

namespace MathLine

open MathLine.Text

namespace Text.Loose

/-- The loose brackets one after the other. -/
def typed (l : Loose) : List Char :=
  List.replicate l.closing ')' ++ List.replicate l.opening '('

theorem typed_closing (a : Nat) : typed ⟨a + 1, 0⟩ = typed ⟨a, 0⟩ ++ [')'] := by
  simp [typed, List.replicate_succ']

theorem typed_opening (a b : Nat) : typed ⟨a, b + 1⟩ = typed ⟨a, b⟩ ++ ['('] := by
  simp [typed, List.replicate_succ']

end Text.Loose

namespace Node

mutual

/-- The brackets that are text at the foot of a node: those of a text, or of the base of
a power. -/
def strays : Node → List Char
  | text content => content.toList.filter isBracket
  | power base _ => rowStrays base
  | number _ | letter _ | operator _ | function _ | fraction _ _ | root _ | parens _
  | subscript _ _ => []

/-- The brackets that are text at the feet of the nodes of a row. -/
def rowStrays : List Node → List Char
  | [] => []
  | n :: ns => strays n ++ rowStrays ns

end

@[simp] theorem rowStrays_nil : rowStrays [] = [] := by
  rw [rowStrays]

@[simp] theorem rowStrays_cons (n : Node) (ns : List Node) :
    rowStrays (n :: ns) = strays n ++ rowStrays ns := by
  rw [rowStrays]

@[simp] theorem rowStrays_append (ms ns : List Node) :
    rowStrays (ms ++ ns) = rowStrays ms ++ rowStrays ns := by
  induction ms with
  | nil => simp
  | cons m ms ih => simp [ih]

/-- A number or letter is no bracket. -/
theorem strays_of_literal {n : Node} (h : n.literal?.isSome = true) : strays n = [] := by
  cases n with
  | number _ | letter _ => rw [strays]
  | _ => simp [literal?] at h

end Node

/-! ## One step -/

theorem Numeral.IsNumeral.isBalanced {t : List Char} (h : IsNumeral t) : IsBalanced t := by
  apply isBalanced_of_no_bracket
  intro c hc
  have hstart := h.isStart_of_mem c hc
  rw [isStart, Bool.or_eq_true, beq_iff_eq] at hstart
  rcases hstart with hdigit | rfl
  · exact isBracket_of_isWordChar (isWordChar_of_isDigit hdigit)
  · rfl

theorem Operator.isBalanced_typed (op : Operator) : IsBalanced op.typed.toList := by
  cases op <;> decide

theorem isBracket_of_isOther {c : Char} (h : isOther c = true) : isBracket c = false := by
  obtain ⟨-, -, hsign⟩ := isOther_iff.1 h
  simp only [List.mem_cons, List.not_mem_nil, or_false, not_or] at hsign
  simp [isBracket, hsign]

theorem isBalanced_cons {c : Char} {s : List Char} (hc : isBracket c = false)
    (hs : IsBalanced s) : IsBalanced (c :: s) := by
  rw [IsBalanced, loose_cons_of_not_bracket hc]
  exact hs

namespace Piece

/-- A step takes a bracket without a partner as text, or else a balanced text, and then
its node has the brackets at its foot that were there before. -/
theorem Reads.brackets {last : Option Node} {piece : Piece} {typed rest : List Char}
    (h : piece.Reads last typed rest) :
    (typed = [')'] ∧ piece = leaf (.text ")")) ∨
      (typed = ['('] ∧ piece = leaf (.text "(") ∧ (loose rest).closing = 0) ∨
      (IsBalanced typed ∧ ∀ inside,
        (piece.node inside).strays = Node.rowStrays (piece.retracted last)) := by
  cases h with
  | closeBracket => exact .inl ⟨rfl, rfl⟩
  | openBracket hclosing => exact .inr (.inl ⟨rfl, rfl, hclosing⟩)
  | @number t _ hne hlead =>
    have hbalanced := (Numeral.isNumeral_of_leading_append hne hlead).isBalanced
    exact .inr (.inr ⟨hbalanced, fun _ => by rfl⟩)
  | function hname _ =>
    have hbalanced := (Lexicon.isWord_of_contains hname).isBalanced
    exact .inr (.inr ⟨hbalanced, fun _ => by rfl⟩)
  | letter hc _ =>
    have hbalanced := isBalanced_cons (isBracket_of_isWordChar (isWordChar_of_isAlpha hc))
      isBalanced_nil
    exact .inr (.inr ⟨hbalanced, fun _ => by rfl⟩)
  | @operator op _ _ => exact .inr (.inr ⟨op.isBalanced_typed, fun _ => by rfl⟩)
  | divide _ => exact .inr (.inr ⟨rfl, fun _ => by rfl⟩)
  | @fraction numerator w _ hlast hliteral hword _ =>
    subst hlast
    refine .inr (.inr ⟨isBalanced_cons rfl hword.isBalanced, fun inside => ?_⟩)
    simp [node, retracted, retracts, Node.strays, Node.strays_of_literal hliteral]
  | @power base _ _ _ hlast harg =>
    subst hlast
    refine .inr (.inr ⟨isBalanced_cons rfl harg.isBalanced.2, fun inside => ?_⟩)
    simp [node, retracted, retracts, Node.strays]
  | @subscript _ _ _ _ hlast harg =>
    obtain ⟨n, rfl, hbase⟩ := Option.bind_eq_some_iff.1 hlast
    refine .inr (.inr ⟨isBalanced_cons rfl harg.isBalanced.2, fun inside => ?_⟩)
    have hliteral : n.literal?.isSome = true := by rw [hbase]; rfl
    simp [node, retracted, retracts, Node.strays, Node.strays_of_literal hliteral]
  | root harg => exact .inr (.inr ⟨isBalanced_cons rfl harg.isBalanced.2, fun _ => by rfl⟩)
  | group hbalanced => exact .inr (.inr ⟨isBalanced_group hbalanced, fun _ => by rfl⟩)
  | caret _ | underscore _ | radical _ => exact .inr (.inr ⟨rfl, fun _ => by rfl⟩)
  | @other c _ hc _ =>
    have hbracket := isBracket_of_isOther hc
    refine .inr (.inr ⟨isBalanced_cons hbracket isBalanced_nil, fun inside => ?_⟩)
    simp [node, retracted, retracts, Node.strays, hbracket]

end Piece

/-! ## A whole line -/

/-- While a line is read, the brackets kept as text are the loose ones of what has been
passed.  Once an opening bracket is kept, nothing that is left closes it. -/
theorem keptByReading_strays :
    KeptByReading (fun s nodes => Node.rowStrays nodes = (loose s).typed)
      (fun whole done s => ∃ l : Loose, Node.rowStrays done.reverse = l.typed ∧
        loose whole = l.beside (loose s) ∧ (l.opening = 0 ∨ (loose s).closing = 0)) where
  start s := ⟨Loose.none, rfl, (Loose.none_beside _).symm, .inl rfl⟩
  skip := by
    intro whole blanks s done hblanks hinv
    obtain ⟨l, hdone, hwhole, hopen⟩ := hinv
    rw [loose_append_of_balanced s (isBalanced_of_blank hblanks)] at hwhole hopen
    exact ⟨l, hdone, hwhole, hopen⟩
  step := by
    intro whole typed rest done piece hinv hreads _
    obtain ⟨l, hdone, hwhole, hopen⟩ := hinv
    rcases hreads.brackets with ⟨rfl, rfl⟩ | ⟨rfl, rfl, hclosing⟩ | ⟨hbalanced, hstrays⟩
    · -- A closing bracket is kept only while no opening one has been.
      rw [List.singleton_append, loose_close] at hwhole hopen
      obtain ⟨a, b⟩ := l
      obtain rfl : b = 0 := by
        simp only [Loose.beside] at hopen
        omega
      refine ⟨⟨a + 1, 0⟩, ?_, ?_, .inl rfl⟩
      · rw [Piece.reverse_place_leaf, Node.rowStrays_append, hdone, Loose.typed_closing]
        rfl
      · rw [hwhole, ← Loose.beside_assoc]
        rfl
    · -- An opening bracket is kept only where the rest of the line closes none.
      rw [List.singleton_append, loose_open] at hwhole hopen
      obtain ⟨a, b⟩ := l
      refine ⟨⟨a, b + 1⟩, ?_, ?_, .inr hclosing⟩
      · rw [Piece.reverse_place_leaf, Node.rowStrays_append, hdone, Loose.typed_opening]
        rfl
      · rw [hwhole, ← Loose.beside_assoc]
        simp [Loose.beside, Nat.add_comm]
    · obtain ⟨front, hfront, hplace⟩ := piece.exists_front done (Node.readLine piece.inner)
      rw [loose_append_of_balanced rest hbalanced] at hwhole hopen
      refine ⟨l, ?_, hwhole, hopen⟩
      rw [hplace, ← hdone, hfront, Node.rowStrays_append, Node.rowStrays_append,
        Node.rowStrays_cons, hstrays, Node.rowStrays_nil, List.append_nil]
  finish := by
    intro whole done hinv
    obtain ⟨l, hdone, hwhole, -⟩ := hinv
    rw [hdone, hwhole, loose_nil, Loose.beside_none]

/-- The brackets that are kept as text are those that have no partner in the line. -/
theorem rowStrays_readLine (s : List Char) :
    Node.rowStrays (Node.readLine s) = (loose s).typed :=
  keptByReading_strays.readLine s

/-- No bracket of a balanced text is kept as text. -/
theorem rowStrays_of_balanced {s : List Char} (h : IsBalanced s) :
    Node.rowStrays (Node.readLine s) = [] := by
  rw [rowStrays_readLine, show loose s = Loose.none from h]
  rfl

end MathLine
