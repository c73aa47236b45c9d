import MathLine.Fragment
import MathLine.Lexicon
import MathLine.Node

set_option autoImplicit false

/-!
# The fragments of a line

Each node becomes one fragment, except that a function name directly followed by a
group takes the group as its arguments, so that the two become one call.  The call of
`sqrt` is drawn as a radical.

Variables are italic and so is the base of a subscript that is made of letters; all
other characters are upright.
-/

namespace MathLine

namespace Fragment

/-- The call of a function on the given arguments. -/
def ofCall (name : String) (arguments : List Fragment) : Fragment :=
  if name = Lexicon.squareRoot then radical arguments else call name arguments

/-- The base of a subscript: italic when it has letters only. -/
def ofBase (base : String) : Fragment :=
  glyph base (if base.toList.all Char.isAlpha then .italic else .upright)

mutual

/-- The fragment of a node that stands alone. -/
def ofNode : Node → Fragment
  | .number digits => glyph digits .upright
  | .letter c => glyph (String.ofList [c]) .italic
  | .text content => glyph content .upright
  | .operator op => operator op.glyph
  | .function name => functionName name
  | .fraction numerator denominator => fraction (ofNodes numerator) (ofNodes denominator)
  | .power base exponent => power (ofNodes base) (ofNodes exponent)
  | .root radicand => radical (ofNodes radicand)
  | .parens inner => group (ofNodes inner)
  | .subscript base script => subscript [ofBase base] (ofNodes script)

/-- The fragments of a row of nodes. -/
def ofNodes : List Node → List Fragment
  | [] => []
  | .function name :: .parens inner :: rest => ofCall name (ofNodes inner) :: ofNodes rest
  | node :: rest => ofNode node :: ofNodes rest

end

end Fragment

end MathLine
