import MathLine.Operator
import MathLine.Text.Blank
import MathLine.Text.Bracket

set_option autoImplicit false

/-!
# Tokens

A line of math is read one lexeme at a time: a number, a single letter, an operator
sign, one of the signs that build something (`/ ^ _ √` and the brackets), or any
other character on its own.  Blanks separate lexemes and belong to none.

A number is a run of digits with at most one point in it, and the point may lead or
trail: `1.2.3` is the two numbers `1.2` and `.3`.  Every character that is not blank
starts a lexeme, so reading never fails.  `Lexeme.next?` takes one lexeme from a
text; `skipBlanks_eq_append_of_next?` says that it takes just the characters of the
lexeme, and `length_of_next?` that it takes at least one.
-/

namespace MathLine

open MathLine.Text

/-- What a lexeme is. -/
inductive Token where
  | number
  | letter (c : Char)
  | operator (op : Operator)
  | slash
  | caret
  | underscore
  | radical
  | openBracket
  | closeBracket
  | other
  deriving DecidableEq, Repr, Inhabited

/-! ## Numbers -/

namespace Numeral

/-- The number that `s` starts with: digits, or digits around one point. -/
def leading (s : List Char) : List Char :=
  s.takeWhile Char.isDigit ++
    match s.dropWhile Char.isDigit with
    | '.' :: rest => '.' :: rest.takeWhile Char.isDigit
    | _ => []

/-- What follows the number that `s` starts with. -/
def after (s : List Char) : List Char :=
  match s.dropWhile Char.isDigit with
  | '.' :: rest => rest.dropWhile Char.isDigit
  | rest => rest

/-- Whether `c` starts a number. -/
def isStart (c : Char) : Bool := c.isDigit || c == '.'

@[simp] theorem leading_append_after (s : List Char) : leading s ++ after s = s := by
  unfold leading after
  have whole := List.takeWhile_append_dropWhile (p := Char.isDigit) (l := s)
  split
  · next rest h =>
    rw [List.append_assoc, List.cons_append, List.takeWhile_append_dropWhile, ← h, whole]
  · rw [List.append_nil, whole]

theorem leading_ne_nil {c : Char} {s : List Char} (h : isStart c = true) :
    leading (c :: s) ≠ [] := by
  cases hd : c.isDigit
  · obtain rfl : c = '.' := by simpa [isStart, hd] using h
    simp [leading, hd]
  · simp [leading, hd]

end Numeral

/-! ## Lexemes -/

/-- A token together with the text it was read from. -/
structure Lexeme where
  token : Token
  text : List Char
  deriving DecidableEq, Repr, Inhabited

namespace Lexeme

/-- The token that the single character `c` is when no number and no operator
starts with it. -/
def ofChar (c : Char) : Token :=
  if c.isAlpha then .letter c
  else
    match c with
    | '/' => .slash
    | '^' => .caret
    | '_' => .underscore
    | '√' => .radical
    | '(' => .openBracket
    | ')' => .closeBracket
    | _ => .other

/-- The lexeme that the text `c :: s` starts with, and what follows it.  The
character `c` is not blank. -/
def first (c : Char) (s : List Char) : Lexeme × List Char :=
  if Numeral.isStart c then
    (⟨.number, Numeral.leading (c :: s)⟩, Numeral.after (c :: s))
  else
    match Operator.read? (c :: s) with
    | some (op, rest) => (⟨.operator op, op.typed.toList⟩, rest)
    | none => (⟨ofChar c, [c]⟩, s)

/-- The next lexeme of `s` and what follows it, blanks before it passed over.  There
is none when `s` is blank. -/
def next? (s : List Char) : Option (Lexeme × List Char) :=
  match skipBlanks s with
  | [] => none
  | c :: rest => some (first c rest)

/-! ## What is taken -/

/-- A lexeme is a piece of the text that it was taken from. -/
theorem text_append_first (c : Char) (s : List Char) :
    (first c s).1.text ++ (first c s).2 = c :: s := by
  unfold first
  split
  · exact Numeral.leading_append_after (c :: s)
  · split
    · next op rest h => exact (Operator.eq_typed_append_of_read? h).symm
    · rfl

theorem text_first_ne_nil (c : Char) (s : List Char) : (first c s).1.text ≠ [] := by
  unfold first
  split
  · next h => exact Numeral.leading_ne_nil h
  · split
    · next op _ _ => exact op.typed_ne_nil
    · simp

/-- Nothing but blanks and the lexeme is taken from a text. -/
theorem skipBlanks_eq_append_of_next? {s rest : List Char} {lexeme : Lexeme}
    (h : next? s = some (lexeme, rest)) : skipBlanks s = lexeme.text ++ rest := by
  unfold next? at h
  split at h
  · simp at h
  · next c tail heq =>
    rw [heq, ← text_append_first c tail, Option.some.inj h]

theorem text_ne_nil_of_next? {s rest : List Char} {lexeme : Lexeme}
    (h : next? s = some (lexeme, rest)) : lexeme.text ≠ [] := by
  unfold next? at h
  split at h
  · simp at h
  · next c tail _ =>
    have := text_first_ne_nil c tail
    rwa [Option.some.inj h] at this

/-- Taking a lexeme makes a text shorter. -/
theorem length_of_next? {s rest : List Char} {lexeme : Lexeme}
    (h : next? s = some (lexeme, rest)) : rest.length < s.length := by
  have hskip := congrArg List.length (skipBlanks_eq_append_of_next? h)
  have hle := length_skipBlanks_le s
  have hpos := List.length_pos_iff.2 (text_ne_nil_of_next? h)
  rw [List.length_append] at hskip
  omega

/-- There is no next lexeme exactly when the text is blank. -/
theorem next?_eq_none_iff {s : List Char} : next? s = none ↔ isBlankText s = true := by
  rw [← skipBlanks_eq_nil_iff, next?]
  split <;> simp_all

end Lexeme

/-! ## A whole line -/

/-- A lexeme with the place where it starts, in bytes from the start of its line. -/
structure PlacedLexeme where
  lexeme : Lexeme
  start : Nat
  deriving DecidableEq, Repr, Inhabited

namespace PlacedLexeme

/-- Where the lexeme ends. -/
def stop (p : PlacedLexeme) : Nat := p.start + byteLength p.lexeme.text

/-- The lexemes of `s`, which starts `offset` bytes into its line. -/
def scanFrom (offset : Nat) (s : List Char) : List PlacedLexeme :=
  match _h : Lexeme.next? s with
  | none => []
  | some (lexeme, rest) =>
    let start := offset + byteLength (leadingBlanks s)
    ⟨lexeme, start⟩ :: scanFrom (start + byteLength lexeme.text) rest
termination_by s.length
decreasing_by exact Lexeme.length_of_next? ‹_›

/-- The lexemes of a line. -/
def scan (s : List Char) : List PlacedLexeme := scanFrom 0 s

end PlacedLexeme

end MathLine
