import MathLine.Operator

set_option autoImplicit false

/-!
# Nodes

A line of math, once it is read, is a list of nodes.  A node is a leaf (a number, a
letter that stands for a variable, an operator sign, a function name, or text that
means nothing else) or a construction over further lists of nodes: a fraction, a
power, a root, a parenthesised group, a subscript.

The arguments of a function are not part of its node: they are the group that
follows the name, if one does.  A subscript hangs on the text of a single number or
letter, and `literal?` gives that text.

Nodes are compared by `Node.beq`, and `beq_eq_true_iff` says that this is equality.
-/

namespace MathLine

/-- A piece of a line of math. -/
inductive Node where
  | number (digits : String)
  | letter (c : Char)
  | text (content : String)
  | operator (op : Operator)
  | function (name : String)
  | fraction (numerator denominator : List Node)
  | power (base exponent : List Node)
  | root (radicand : List Node)
  | parens (inner : List Node)
  | subscript (base : String) (script : List Node)
  deriving Repr, Inhabited

namespace Node

/-- The text of a number or a letter, on which a subscript may hang. -/
def literal? : Node → Option String
  | number digits => some digits
  | letter c => some (String.ofList [c])
  | _ => none

/-- Whether a node is a relation sign. -/
def isRelation : Node → Bool
  | operator op => op.isRelation
  | _ => false

/-- Whether a node is text that means nothing else. -/
def isText : Node → Bool
  | text _ => true
  | _ => false

/-! ## Equality -/

mutual

/-- Whether two nodes are the same. -/
def beq : Node → Node → Bool
  | number s, number t => s == t
  | letter c, letter d => c == d
  | text s, text t => s == t
  | operator a, operator b => a == b
  | function s, function t => s == t
  | fraction n d, fraction n' d' => beqRow n n' && beqRow d d'
  | power b e, power b' e' => beqRow b b' && beqRow e e'
  | root r, root r' => beqRow r r'
  | parens r, parens r' => beqRow r r'
  | subscript s r, subscript t r' => s == t && beqRow r r'
  | _, _ => false

/-- Whether two rows of nodes are the same. -/
def beqRow : List Node → List Node → Bool
  | [], [] => true
  | m :: ms, n :: ns => beq m n && beqRow ms ns
  | _, _ => false

end

mutual

/-- The comparison of two nodes is equality. -/
theorem beq_eq_true_iff : (m n : Node) → (beq m n = true ↔ m = n)
  | number _, n | letter _, n | text _, n | operator _, n | function _, n => by
    cases n <;> simp [beq]
  | fraction a b, n => by
    cases n <;> simp [beq, beqRow_eq_true_iff a, beqRow_eq_true_iff b]
  | power a b, n => by
    cases n <;> simp [beq, beqRow_eq_true_iff a, beqRow_eq_true_iff b]
  | root a, n => by cases n <;> simp [beq, beqRow_eq_true_iff a]
  | parens a, n => by cases n <;> simp [beq, beqRow_eq_true_iff a]
  | subscript _ a, n => by cases n <;> simp [beq, beqRow_eq_true_iff a]

/-- The comparison of two rows is equality. -/
theorem beqRow_eq_true_iff : (ms ns : List Node) → (beqRow ms ns = true ↔ ms = ns)
  | [], ns => by cases ns <;> simp [beqRow]
  | m :: ms, ns => by
    cases ns <;> simp [beqRow, beq_eq_true_iff m, beqRow_eq_true_iff ms]

end

instance : DecidableEq Node := fun m n =>
  decidable_of_iff (beq m n = true) (beq_eq_true_iff m n)

end Node

end MathLine
