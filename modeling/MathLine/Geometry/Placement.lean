import MathLine.Geometry.Arrangement

set_option autoImplicit false

/-!
# Geometry: placing a row on the page

An arranged row is measured piecewise: every box and rule in the frame of what it
stands in.  Placing a row puts all of them into one frame, that of the page, by going
down from the outermost row and composing frames on the way.

`layout` arranges and places a row of fragments.  The baseline of the outermost row
lies at height zero of the page.
-/

namespace MathLine.Geometry

variable {K : Type} [Scalar K]

mutual

/-- The row with everything in it as it is measured outside the frame `f`. -/
def Row.inFrame (f : Frame K) : Row K → Row K
  | ⟨box, cells⟩ => ⟨box.inFrame f, cellsInFrame (box.inFrame f).frame cells⟩

/-- The cells as they are measured outside the frame `f`. -/
def cellsInFrame (f : Frame K) : List (Cell K) → List (Cell K)
  | [] => []
  | cell :: rest => cell.inFrame f :: cellsInFrame f rest

/-- The cell with everything in it as it is measured outside the frame `f`. -/
def Cell.inFrame (f : Frame K) : Cell K → Cell K
  | ⟨box, shape⟩ => ⟨box.inFrame f, shape.inFrame (box.inFrame f).frame⟩

/-- The shape as it is measured outside the frame `f`. -/
def Shape.inFrame (f : Frame K) : Shape K → Shape K
  | .char c style => .char c style
  | .bracket inner => .bracket (inner.inFrame f)
  | .lowered script => .lowered (script.inFrame f)
  | .raised script => .raised (script.inFrame f)
  | .radical radicand overbar => .radical (radicand.inFrame f) (overbar.inFrame f)
  | .fraction numerator denominator bar =>
    .fraction (numerator.inFrame f) (denominator.inFrame f) (bar.inFrame f)

end

/-- The row of fragments as it is drawn on the page. -/
def layout (m : Metrics K) (fragments : List Fragment) : Row K :=
  (arrange m (Mark.ofFragments fragments)).inFrame Frame.origin

end MathLine.Geometry
