import MathLine.Fragment
import MathLine.Operator

set_option autoImplicit false

/-!
# Geometry: marks

What a row of fragments puts on the page, before anything is measured, is a row of
marks.  Each character is a mark of its own.  A script is a mark that follows its
base, so that the base of a power or subscript is written into the row around it; and
a function name is followed by the bracket of its arguments, or by an opening bracket
character when it has none.
-/

namespace MathLine.Geometry

/-- Something that is drawn in a row. -/
inductive Mark where
  | char (c : Char) (style : Style)
  | bracket (inner : List Mark)
  | lowered (script : List Mark)
  | raised (script : List Mark)
  | radical (radicand : List Mark)
  | fraction (numerator denominator : List Mark)
  deriving Repr, Inhabited

namespace Mark

/-- Whether a mark is an operator sign, and so no operand of the mark after it. -/
def isOperator : Mark → Bool
  | char c .upright => Operator.isGlyph c
  | _ => false

/-- The marks of a text. -/
def ofText (text : String) (style : Style) : List Mark :=
  text.toList.map fun c => char c style

mutual

/-- The marks of one fragment. -/
def ofFragment : Fragment → List Mark
  | .glyph text style => ofText text style
  | .operator sign => [char sign .upright]
  | .functionName name => ofText name .upright ++ [char '(' .upright]
  | .call name arguments => ofText name .upright ++ [bracket (ofFragments arguments)]
  | .fraction numerator denominator =>
    [fraction (ofFragments numerator) (ofFragments denominator)]
  | .power base exponent => ofFragments base ++ [raised (ofFragments exponent)]
  | .subscript base script => ofFragments base ++ [lowered (ofFragments script)]
  | .radical radicand => [radical (ofFragments radicand)]
  | .group inner => [bracket (ofFragments inner)]

/-- The marks of a row of fragments. -/
def ofFragments : List Fragment → List Mark
  | [] => []
  | fragment :: rest => ofFragment fragment ++ ofFragments rest

end

end Mark

end MathLine.Geometry
