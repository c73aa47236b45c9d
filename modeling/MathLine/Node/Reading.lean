import MathLine.Lexicon
import MathLine.Node
import MathLine.Token

set_option autoImplicit false

/-!
# Reading a line

A line is read from left to right, one piece at a time.  Most pieces add a node after
those read so far.  Three signs reach back instead: `/`, `^` and `_` take the last
node as their numerator or base and put the construction in its place, which is why
a step is given the last node (`Piece.next?`) and may retract it (`Piece.place`).

A sign that finds nothing to work on is kept: `/` as a division sign, `^`, `_`, `√`
and a bracket without a partner as text.  So every text can be read, and nothing is
an error.

The argument of `^`, `_` or `√` is a bracketed group that is not blank, or else the
word directly after the sign; the denominator of a fraction is a word.  Text inside a
piece is read in the same way, as a line of its own.  Reading ends because both that
text and what follows the piece are shorter than the text the piece was taken from
(`Piece.length_of_next?`).
-/

namespace MathLine

open MathLine.Text

/-- One step of reading: a leaf, or a construction whose inside is still text. -/
inductive Piece where
  | leaf (node : Node)
  | fraction (numerator : Node) (denominator : List Char)
  | power (base : Node) (exponent : List Char)
  | subscript (base : String) (script : List Char)
  | root (radicand : List Char)
  | group (inner : List Char)
  deriving Repr, Inhabited

namespace Piece

/-- The text inside a piece that is still to be read. -/
def inner : Piece → List Char
  | leaf _ => []
  | fraction _ s | power _ s | subscript _ s | root s | group s => s

/-- The node that a piece becomes once its inside is read. -/
def node (inside : List Node) : Piece → Node
  | leaf n => n
  | fraction numerator _ => .fraction [numerator] inside
  | power base _ => .power [base] inside
  | subscript base _ => .subscript base inside
  | root _ => .root inside
  | group _ => .parens inside

/-- Whether a piece takes the place of the node before it. -/
def retracts : Piece → Bool
  | fraction .. | power .. | subscript .. => true
  | leaf _ | root _ | group _ => false

/-- Puts a piece with the given inside after the nodes `done`, which are listed from
the last to the first. -/
def place (done inside : List Node) (piece : Piece) : List Node :=
  piece.node inside :: if piece.retracts then done.tail else done

/-! ## The signs -/

/-- The argument that a script or root sign finds in the text after it, and what
follows the argument: a bracketed group that is not blank, or a word. -/
def argument? : List Char → Option (List Char × List Char)
  | '(' :: rest => (splitAtClosing 0 rest).filter fun cut => !isBlankText cut.1
  | s => if startsInWord s then some (leadingWord s, afterWord s) else none

/-- A letter starts a function name or stands for a variable. -/
def ofLetter (c : Char) (rest : List Char) : Piece × List Char :=
  match Lexicon.leading? (c :: rest) with
  | some (name, after) => (leaf (.function name), after)
  | none => (leaf (.letter c), rest)

/-- A slash between a number or letter and a word is a fraction bar, and any other
slash divides. -/
def ofSlash (last : Option Node) (rest : List Char) : Piece × List Char :=
  match last.filter fun node => node.literal?.isSome && startsInWord rest with
  | some numerator => (fraction numerator (leadingWord rest), afterWord rest)
  | none => (leaf (.operator .divide), rest)

/-- A caret between a node and an argument is a power. -/
def ofCaret (last : Option Node) (rest : List Char) : Piece × List Char :=
  match last, argument? rest with
  | some base, some (exponent, after) => (power base exponent, after)
  | _, _ => (leaf (.text "^"), rest)

/-- An underscore between a number or letter and an argument is a subscript. -/
def ofUnderscore (last : Option Node) (rest : List Char) : Piece × List Char :=
  match last.bind Node.literal?, argument? rest with
  | some base, some (script, after) => (subscript base script, after)
  | _, _ => (leaf (.text "_"), rest)

/-- A root sign before an argument is a root. -/
def ofRadical (rest : List Char) : Piece × List Char :=
  match argument? rest with
  | some (radicand, after) => (root radicand, after)
  | none => (leaf (.text "√"), rest)

/-- An opening bracket with a partner is a group. -/
def ofBracket (rest : List Char) : Piece × List Char :=
  match splitAtClosing 0 rest with
  | some (inner, after) => (group inner, after)
  | none => (leaf (.text "("), rest)

/-- The piece that a lexeme makes of the text `rest` after it, and what follows the
piece. -/
def ofLexeme (last : Option Node) (lexeme : Lexeme) (rest : List Char) : Piece × List Char :=
  match lexeme.token with
  | .number => (leaf (.number (String.ofList lexeme.text)), rest)
  | .letter c => ofLetter c rest
  | .operator op => (leaf (.operator op), rest)
  | .slash => ofSlash last rest
  | .caret => ofCaret last rest
  | .underscore => ofUnderscore last rest
  | .radical => ofRadical rest
  | .openBracket => ofBracket rest
  | .closeBracket | .other => (leaf (.text (String.ofList lexeme.text)), rest)

/-- The next piece of `s` and what follows it, `last` being the node before it.
There is none when `s` is blank. -/
def next? (last : Option Node) (s : List Char) : Option (Piece × List Char) :=
  (Lexeme.next? s).map fun taken => ofLexeme last taken.1 taken.2

/-! ## Every step leaves shorter texts -/

/-- Both the inside of the piece `step.1` and what follows it are no longer than
`rest`. -/
def Within (rest : List Char) (step : Piece × List Char) : Prop :=
  step.1.inner.length ≤ rest.length ∧ step.2.length ≤ rest.length

theorem within_leaf (n : Node) (rest : List Char) : Within rest (leaf n, rest) :=
  ⟨Nat.zero_le _, Nat.le_refl _⟩

theorem length_of_argument? {s argument after : List Char}
    (h : argument? s = some (argument, after)) :
    argument.length ≤ s.length ∧ after.length ≤ s.length := by
  unfold argument? at h
  split at h
  · next rest =>
    have := length_of_splitAtClosing (Option.filter_eq_some_iff.1 h).1
    simp only [List.length_cons]
    omega
  · split at h
    · obtain ⟨rfl, rfl⟩ : leadingWord s = argument ∧ afterWord s = after := by simpa using h
      exact ⟨length_leadingWord_le s, length_afterWord_le s⟩
    · simp at h

theorem within_ofLetter (c : Char) (rest : List Char) : Within rest (ofLetter c rest) := by
  unfold ofLetter
  split
  · next name after h =>
    obtain ⟨hname, heq, -⟩ := Lexicon.of_leading?_eq_some h
    have hpos := List.length_pos_iff.2 (Lexicon.ne_nil_of_contains hname)
    have hlength := congrArg List.length heq
    rw [List.length_cons, List.length_append] at hlength
    exact ⟨Nat.zero_le _, by simp only; omega⟩
  · exact within_leaf _ _

theorem within_ofSlash (last : Option Node) (rest : List Char) :
    Within rest (ofSlash last rest) := by
  unfold ofSlash
  split
  · exact ⟨length_leadingWord_le rest, length_afterWord_le rest⟩
  · exact within_leaf _ _

theorem within_ofCaret (last : Option Node) (rest : List Char) :
    Within rest (ofCaret last rest) := by
  unfold ofCaret
  split
  · next h => exact length_of_argument? h
  · exact within_leaf _ _

theorem within_ofUnderscore (last : Option Node) (rest : List Char) :
    Within rest (ofUnderscore last rest) := by
  unfold ofUnderscore
  split
  · next h => exact length_of_argument? h
  · exact within_leaf _ _

theorem within_ofRadical (rest : List Char) : Within rest (ofRadical rest) := by
  unfold ofRadical
  split
  · next h => exact length_of_argument? h
  · exact within_leaf _ _

theorem within_ofBracket (rest : List Char) : Within rest (ofBracket rest) := by
  unfold ofBracket
  split
  · next h =>
    have := length_of_splitAtClosing h
    exact ⟨by simp only [inner]; omega, by simp only; omega⟩
  · exact within_leaf _ _

theorem within_ofLexeme (last : Option Node) (lexeme : Lexeme) (rest : List Char) :
    Within rest (ofLexeme last lexeme rest) := by
  unfold ofLexeme
  split
  · exact within_leaf _ _
  · exact within_ofLetter _ _
  · exact within_leaf _ _
  · exact within_ofSlash _ _
  · exact within_ofCaret _ _
  · exact within_ofUnderscore _ _
  · exact within_ofRadical _
  · exact within_ofBracket _
  · exact within_leaf _ _
  · exact within_leaf _ _

/-- The inside of a piece and what follows it are both shorter than the text that the
piece was taken from. -/
theorem length_of_next? {last : Option Node} {s rest : List Char} {piece : Piece}
    (h : next? last s = some (piece, rest)) :
    piece.inner.length < s.length ∧ rest.length < s.length := by
  obtain ⟨⟨lexeme, tail⟩, hlexeme, heq⟩ := Option.map_eq_some_iff.1 h
  have hwithin := within_ofLexeme last lexeme tail
  have hlength := Lexeme.length_of_next? hlexeme
  rw [heq] at hwithin
  exact ⟨Nat.lt_of_le_of_lt hwithin.1 hlength, Nat.lt_of_le_of_lt hwithin.2 hlength⟩

/-- There is no next piece exactly when the text is blank. -/
theorem next?_eq_none_iff {last : Option Node} {s : List Char} :
    next? last s = none ↔ isBlankText s = true := by
  rw [next?, Option.map_eq_none_iff, Lexeme.next?_eq_none_iff]

end Piece

namespace Node

/-- Reads the text `s` after the nodes `done`, which are listed from the last to the
first. -/
def readOnto (done : List Node) (s : List Char) : List Node :=
  match _h : Piece.next? done.head? s with
  | none => done.reverse
  | some (piece, rest) => readOnto (piece.place done (readOnto [] piece.inner)) rest
termination_by s.length
decreasing_by
  · exact (Piece.length_of_next? ‹_›).1
  · exact (Piece.length_of_next? ‹_›).2

/-- The nodes of a line of math. -/
def readLine (s : List Char) : List Node := readOnto [] s

/-! ## One step at a time -/

/-- A blank text adds nothing. -/
theorem readOnto_of_blank {done : List Node} {s : List Char} (h : isBlankText s = true) :
    readOnto done s = done.reverse := by
  unfold readOnto
  split
  · rfl
  · next hnext =>
    rw [Piece.next?_eq_none_iff.2 h] at hnext
    exact absurd hnext (by simp)

/-- The next piece is put after the nodes read so far, and reading goes on after it. -/
theorem readOnto_of_next? {done : List Node} {s rest : List Char} {piece : Piece}
    (h : Piece.next? done.head? s = some (piece, rest)) :
    readOnto done s = readOnto (piece.place done (readLine piece.inner)) rest := by
  rw [readOnto]
  split
  · next hnext => exact absurd (hnext.symm.trans h) (by simp)
  · next hnext =>
    obtain ⟨rfl, rfl⟩ : _ = piece ∧ _ = rest := by simpa using hnext.symm.trans h
    rfl

/-- A node that has been read may be built upon, but does not vanish. -/
theorem readOnto_ne_nil {done : List Node} {s : List Char} (h : done ≠ []) :
    readOnto done s ≠ [] := by
  cases hnext : Piece.next? done.head? s with
  | none =>
    rw [readOnto_of_blank (Piece.next?_eq_none_iff.1 hnext)]
    simpa using h
  | some step =>
    have hlength := (Piece.length_of_next? hnext).2
    rw [readOnto_of_next? hnext]
    exact readOnto_ne_nil (by simp [Piece.place])
termination_by s.length

/-- A line has no nodes exactly when it is blank. -/
theorem readLine_eq_nil_iff {s : List Char} : readLine s = [] ↔ isBlankText s = true := by
  constructor
  · intro h
    cases hnext : Piece.next? ([] : List Node).head? s with
    | none => exact Piece.next?_eq_none_iff.1 hnext
    | some step =>
      rw [readLine, readOnto_of_next? hnext] at h
      exact absurd h (readOnto_ne_nil (by simp [Piece.place]))
  · intro h
    rw [readLine, readOnto_of_blank h, List.reverse_nil]

@[simp] theorem readLine_nil : readLine [] = [] := readLine_eq_nil_iff.2 rfl

end Node

end MathLine
