set_option autoImplicit false

/-!
# Fragments

What is drawn for a line of math is a row of fragments.  A fragment is a glyph, that
is a run of characters in one style, an operator sign, or a construction over further
rows.  Unlike a node, a fragment says how something looks and not what it means: a
root and the function `sqrt` look the same, and so do a number and a text.

A function with its arguments is one fragment, the call.  A function name without
arguments is drawn with an opening bracket that is not closed.
-/

namespace MathLine

/-- How the characters of a glyph are slanted. -/
inductive Style where
  | upright
  | italic
  deriving DecidableEq, Repr, Inhabited

/-- A piece of a drawn row. -/
inductive Fragment where
  | glyph (text : String) (style : Style)
  | operator (sign : Char)
  | functionName (name : String)
  | call (name : String) (arguments : List Fragment)
  | fraction (numerator denominator : List Fragment)
  | power (base exponent : List Fragment)
  | subscript (base script : List Fragment)
  | radical (radicand : List Fragment)
  | group (inner : List Fragment)
  deriving Repr, Inhabited

namespace Fragment

/-- Whether a fragment is an operator sign. -/
def isOperator : Fragment → Bool
  | operator _ => true
  | _ => false

/-- Whether a fragment is a glyph or a group, which need no brackets around them
when they stand alone. -/
def isClosed : Fragment → Bool
  | glyph .. | group _ => true
  | _ => false

end Fragment

end MathLine
