import MathLine.Node.Reading

set_option autoImplicit false

/-!
# Expressions

An expression is one line of math: its nodes from left to right, and its kind, which
says how it is best shown.  The kind is inferred from the nodes that stand at top
level when an expression is made of nodes (`Expression.ofNodes`): a relation sign
makes an equation, a line of nothing but text is text, and all else, the empty line
included, is a plain expression.

An expression can also be put together by hand, and its kind is then whatever it is
given.  All that is read is made of nodes.
-/

namespace MathLine

/-- What sort of line an expression is. -/
inductive Kind where
  | equation
  | expression
  | text
  deriving DecidableEq, Repr, Inhabited

namespace Kind

/-- The name of a kind. -/
def name : Kind → String
  | equation => "equation"
  | expression => "expression"
  | text => "text"

/-- The kind of a line with the nodes `parts` at top level. -/
def ofNodes (parts : List Node) : Kind :=
  if parts.any Node.isRelation then equation
  else if !parts.isEmpty && parts.all Node.isText then text
  else expression

@[simp] theorem ofNodes_nil : ofNodes [] = expression := rfl

end Kind

/-- A line of math. -/
structure Expression where
  kind : Kind
  parts : List Node
  deriving DecidableEq, Repr, Inhabited

namespace Expression

/-- The expression with the nodes `parts` and the kind that they suggest. -/
def ofNodes (parts : List Node) : Expression := ⟨.ofNodes parts, parts⟩

/-- The expression without nodes. -/
def empty : Expression := ofNodes []

/-- The expression that the text `s` is read as. -/
def ofString (s : String) : Expression := ofNodes (Node.readLine s.toList)

/-- Whether an expression has no nodes. -/
def isEmpty (e : Expression) : Bool := e.parts.isEmpty

@[simp] theorem isEmpty_empty : empty.isEmpty = true := rfl

/-- The empty text is the empty expression. -/
@[simp] theorem ofString_empty : ofString "" = empty := by
  simp [ofString, empty]

/-- An expression has no nodes exactly when its text is blank. -/
theorem isEmpty_ofString {s : String} :
    (ofString s).isEmpty = true ↔ Text.isBlankText s.toList = true := by
  rw [isEmpty, List.isEmpty_iff, ofString, ofNodes, Node.readLine_eq_nil_iff]

end Expression

end MathLine
