set_option autoImplicit false

/-!
# Operators

The operator signs of a line of math.  Each has a typed form, made of keys that a
keyboard has, and a glyph that is drawn for it.  The signs that are not one of the
four arithmetic operations are relations, and make an equation of the line they
stand in.

`read?` finds the operator that a text starts with, the longer typed form winning.
The slash is not among the operators it reads: whether a slash divides or draws a
fraction bar depends on what stands around it.
-/

namespace MathLine

/-- An operator sign. -/
inductive Operator where
  | plus
  | minus
  | times
  | divide
  | equal
  | less
  | greater
  | lessEqual
  | greaterEqual
  | notEqual
  | approx
  deriving DecidableEq, Repr, Inhabited

namespace Operator

/-- The operators in the order in which they are listed. -/
def all : List Operator :=
  [plus, minus, times, divide, equal, less, greater, lessEqual, greaterEqual, notEqual, approx]

/-- How an operator is typed. -/
def typed : Operator → String
  | plus => "+"
  | minus => "-"
  | times => "*"
  | divide => "/"
  | equal => "="
  | less => "<"
  | greater => ">"
  | lessEqual => "<="
  | greaterEqual => ">="
  | notEqual => "!="
  | approx => "~="

/-- The character that is drawn for an operator. -/
def glyph : Operator → Char
  | plus => '+'
  | minus => '−'
  | times => '×'
  | divide => '÷'
  | equal => '='
  | less => '<'
  | greater => '>'
  | lessEqual => '≤'
  | greaterEqual => '≥'
  | notEqual => '≠'
  | approx => '≈'

/-- Whether `c` is drawn for an operator. -/
def isGlyph (c : Char) : Bool := all.any fun op => op.glyph == c

/-- Whether `c` is drawn for a sign that may also stand before a single operand: a plus
or a minus. -/
def isSignGlyph (c : Char) : Bool := c == plus.glyph || c == minus.glyph

/-- Whether an operator relates two sides rather than computing. -/
def isRelation : Operator → Bool
  | plus | minus | times | divide => false
  | equal | less | greater | lessEqual | greaterEqual | notEqual | approx => true

/-- The operator that a text starts with and what follows it.  The longer typed
form wins, and a slash is not read here. -/
def read? : List Char → Option (Operator × List Char)
  | '<' :: '=' :: rest => some (lessEqual, rest)
  | '>' :: '=' :: rest => some (greaterEqual, rest)
  | '!' :: '=' :: rest => some (notEqual, rest)
  | '~' :: '=' :: rest => some (approx, rest)
  | '+' :: rest => some (plus, rest)
  | '-' :: rest => some (minus, rest)
  | '*' :: rest => some (times, rest)
  | '=' :: rest => some (equal, rest)
  | '<' :: rest => some (less, rest)
  | '>' :: rest => some (greater, rest)
  | _ => none

/-! ## What is read -/

/-- Every operator is listed. -/
theorem mem_all (op : Operator) : op ∈ all := by
  cases op <;> decide

/-- A text from which an operator is read starts with its typed form. -/
theorem eq_typed_append_of_read? {s rest : List Char} {op : Operator}
    (h : read? s = some (op, rest)) : s = op.typed.toList ++ rest := by
  unfold read? at h
  split at h <;> simp at h <;> obtain ⟨rfl, rfl⟩ := h <;> rfl

theorem typed_ne_nil (op : Operator) : op.typed.toList ≠ [] := by
  cases op <;> decide

/-- Two operators are typed the same only if they are the same. -/
theorem typed_injective {a b : Operator} (h : a.typed = b.typed) : a = b := by
  revert h
  cases a <;> cases b <;> decide

/-- Two operators are drawn the same only if they are the same. -/
theorem glyph_injective {a b : Operator} (h : a.glyph = b.glyph) : a = b := by
  revert h
  cases a <;> cases b <;> decide

end Operator

end MathLine
