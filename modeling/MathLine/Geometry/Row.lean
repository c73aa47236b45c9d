import MathLine.Fragment
import MathLine.Geometry.Box

set_option autoImplicit false

/-!
# Geometry: rows

A row that has been measured is a box with cells in it, from left to right.  A cell
is a box with a shape in it: a character, or further rows with the bracket, root sign
or bar that goes with them.
-/

namespace MathLine.Geometry

mutual

/-- A row of cells and the box around them. -/
structure Row (K : Type) where
  box : Box K
  cells : List (Cell K)

/-- A shape and the box around it. -/
structure Cell (K : Type) where
  box : Box K
  shape : Shape K

/-- What is drawn in a cell. -/
inductive Shape (K : Type) where
  | char (c : Char) (style : Style)
  | bracket (inner : Row K)
  | lowered (script : Row K)
  | raised (script : Row K)
  | radical (radicand : Row K) (overbar : Rule K)
  | fraction (numerator denominator : Row K) (bar : Rule K)

end

end MathLine.Geometry
