set_option autoImplicit false

/-!
# Geometry: metrics

The lengths and factors by which a row is arranged.  Lengths are in em, the size of
the font, and factors have no unit.

Characters all have one width, height and depth.  A jut is how far a bracket or rule
reaches beyond what it encloses, and a padding is room that is kept free around it.
-/

namespace MathLine.Geometry

/-- Lengths, in em, and scaling factors. -/
structure Metrics (K : Type) where
  charWidth : K
  charHeight : K
  charDepth : K
  /-- the width of a row with nothing in it -/
  emptyWidth : K
  /-- the room on each side of an operator sign between operands -/
  operatorSpace : K
  bracketWidth : K
  bracketJut : K
  bracketPadding : K
  /-- the factor of a subscript -/
  loweredScale : K
  /-- the factor of a superscript -/
  raisedScale : K
  /-- how far below the baseline the middle line between scripts lies -/
  scriptMiddle : K
  /-- the width of the root sign without its overbar -/
  radicalWidth : K
  /-- the gap between an overbar and what stands under it -/
  radicalGap : K
  radicalJut : K
  radicalTopPadding : K
  radicalRightPadding : K
  /-- the factor of numerators and denominators -/
  fractionScale : K
  /-- the gap between a numerator and its bar -/
  numeratorGap : K
  /-- the gap between a bar and its denominator -/
  denominatorGap : K
  fractionJut : K
  fractionSidePadding : K
  fractionTopPadding : K
  fractionBottomPadding : K
  deriving Repr, Inhabited

/-- The metrics that are used unless others are asked for. -/
def Metrics.standard {K : Type} [OfScientific K] : Metrics K where
  charWidth := 0.5
  charHeight := 0.526
  charDepth := 0.462
  emptyWidth := 0.5
  operatorSpace := 0.2
  bracketWidth := 0.389
  bracketJut := 0.072
  bracketPadding := 0.072
  loweredScale := 0.73
  raisedScale := 0.91
  scriptMiddle := 0.02
  radicalWidth := 0.833
  radicalGap := 0.073
  radicalJut := 0.15
  radicalTopPadding := 0.073
  radicalRightPadding := 0.098
  fractionScale := 0.91
  numeratorGap := 0.0
  denominatorGap := 0.079
  fractionJut := 0.09
  fractionSidePadding := 0.18
  fractionTopPadding := 0.0
  fractionBottomPadding := 0.09

end MathLine.Geometry
