import MathLine.Geometry.Mark
import MathLine.Geometry.Row

set_option autoImplicit false

/-!
# Geometry: arranging a row

Marks are arranged from left to right, each cell starting where the cells before it
end, and the box of the row grows to hold every cell.  At this stage a row is
measured in its own frame, with its baseline at height zero, and it is told by its
box where it stands in the cell around it.

The cell of a construction is measured from the rows in it, which are arranged first:
a bracket reaches around its row, a script hangs below or above the middle line, a
root sign has its row under an overbar, and the rows of a fraction are centred above
and below a bar.  An operator sign has room on both sides, but a plus or minus without
an operand before it does not.

A row's box, and the box of a cell while it is being measured, stand at the origin
with scale one.
-/

namespace MathLine.Geometry

variable {K : Type} [Scalar K]

/-! ## Cells -/

/-- The room on each side of the character `c`. -/
def sideSpace (m : Metrics K) (afterOperand : Bool) (c : Char) : K :=
  if Operator.isSignGlyph c && !afterOperand then Scalar.zero
  else if Operator.isGlyph c then m.operatorSpace
  else Scalar.zero

/-- The cell of a character. -/
def charCell (m : Metrics K) (afterOperand : Bool) (c : Char) (style : Style) : Cell K where
  box := { Box.line m with
    width := m.charWidth + Scalar.two * sideSpace m afterOperand c }
  shape := .char c style

/-- The cell of a bracketed row. -/
def bracketCell (m : Metrics K) (inner : Row K) : Cell K :=
  let box := { inner.box with x := m.bracketWidth }
  let top := box.top - m.bracketJut
  let bottom := box.bottom + m.bracketJut
  { box := { Box.line m with
      width := box.right + m.bracketWidth
      height := -top + m.bracketPadding
      depth := bottom + m.bracketPadding }
    shape := .bracket { inner with box := box } }

/-- The cell of a subscript. -/
def loweredCell (m : Metrics K) (script : Row K) : Cell K :=
  let scaled := script.box.scaleBy m.loweredScale
  let box := { scaled with y := m.scriptMiddle + scaled.height }
  { box := (Box.line m).union box
    shape := .lowered { script with box := box } }

/-- The cell of a superscript. -/
def raisedCell (m : Metrics K) (script : Row K) : Cell K :=
  let scaled := script.box.scaleBy m.raisedScale
  let box := { scaled with y := m.scriptMiddle - scaled.depth }
  { box := (Box.line m).union box
    shape := .raised { script with box := box } }

/-- The cell of a root. -/
def radicalCell (m : Metrics K) (radicand : Row K) : Cell K :=
  let box := { radicand.box with x := m.radicalWidth + m.radicalJut }
  let overbar : Rule K :=
    { left := m.radicalWidth
      right := box.right + m.radicalJut
      y := box.top - m.radicalGap }
  let extent := Box.ofExtent (overbar.right + m.radicalRightPadding)
    (-overbar.y + m.radicalTopPadding) box.bottom
  { box := (Box.line m).union extent
    shape := .radical { radicand with box := box } overbar }

/-- The cell of a fraction. -/
def fractionCell (m : Metrics K) (numerator denominator : Row K) : Cell K :=
  let num := numerator.box.scaleBy m.fractionScale
  let den := denominator.box.scaleBy m.fractionScale
  let inside := Scalar.larger num.width den.width
  let width := inside + (m.fractionSidePadding + m.fractionJut) * Scalar.two
  let bar : Rule K :=
    { left := m.fractionSidePadding
      right := m.fractionSidePadding + Scalar.two * m.fractionJut + inside
      y := Scalar.zero }
  { box := { Box.line m with
      width := width
      height := num.height + num.depth + m.numeratorGap + m.fractionTopPadding
      depth := den.height + den.depth + m.denominatorGap + m.fractionBottomPadding }
    shape := .fraction
      { numerator with
        box := { num with
          x := (width - num.width) / Scalar.two
          y := -num.depth - m.numeratorGap } }
      { denominator with
        box := { den with
          x := (width - den.width) / Scalar.two
          y := den.height + m.denominatorGap } }
      bar }

/-- The cell moved to the right by `distance`. -/
def Cell.shift (distance : K) (cell : Cell K) : Cell K :=
  { cell with box := { cell.box with x := cell.box.x + distance } }

/-! ## Rows -/

/-- Gives a row without cells the width of an empty row. -/
def Row.close (m : Metrics K) (row : Row K) : Row K :=
  { row with box := if row.cells.isEmpty then { row.box with width := m.emptyWidth } else row.box }

mutual

/-- The cell of a mark; `afterOperand` says whether an operand stands before it. -/
def arrangeMark (m : Metrics K) (afterOperand : Bool) : Mark → Cell K
  | .char c style => charCell m afterOperand c style
  | .bracket inner => bracketCell m ((arrangeFrom m false (Box.line m) inner).close m)
  | .lowered script => loweredCell m ((arrangeFrom m false (Box.line m) script).close m)
  | .raised script => raisedCell m ((arrangeFrom m false (Box.line m) script).close m)
  | .radical radicand => radicalCell m ((arrangeFrom m false (Box.line m) radicand).close m)
  | .fraction numerator denominator =>
    fractionCell m ((arrangeFrom m false (Box.line m) numerator).close m)
      ((arrangeFrom m false (Box.line m) denominator).close m)

/-- The cells of the rest of a row, after cells that fill `box`, and the box of the
whole row. -/
def arrangeFrom (m : Metrics K) (afterOperand : Bool) (box : Box K) : List Mark → Row K
  | [] => ⟨box, []⟩
  | mark :: rest =>
    let cell := (arrangeMark m afterOperand mark).shift box.width
    let row := arrangeFrom m (!mark.isOperator) (box.union cell.box) rest
    { row with cells := cell :: row.cells }

end

/-- The row of the given marks, measured in its own frame. -/
def arrange (m : Metrics K) (marks : List Mark) : Row K :=
  (arrangeFrom m false (Box.line m) marks).close m

/-! ## Where things stand -/

omit [Scalar K] in
@[simp] theorem Row.cells_close (m : Metrics K) (row : Row K) :
    (row.close m).cells = row.cells := rfl

/-- Every mark has its cell. -/
theorem length_cells_arrangeFrom (m : Metrics K) (afterOperand : Bool) (box : Box K)
    (marks : List Mark) :
    (arrangeFrom m afterOperand box marks).cells.length = marks.length := by
  induction marks generalizing afterOperand box with
  | nil => simp [arrangeFrom]
  | cons mark rest ih => simp [arrangeFrom, ih]

/-- A row that grows does not move. -/
theorem frame_arrangeFrom (m : Metrics K) (afterOperand : Bool) (box : Box K)
    (marks : List Mark) : (arrangeFrom m afterOperand box marks).box.frame = box.frame := by
  induction marks generalizing afterOperand box with
  | nil => simp [arrangeFrom]
  | cons mark rest ih => simp [arrangeFrom, ih]

/-- An arranged row stands at the origin with scale one. -/
theorem isUnplaced_arrange (m : Metrics K) (marks : List Mark) :
    (arrange m marks).box.IsUnplaced := by
  have hframe := frame_arrangeFrom m false (Box.line m) marks
  unfold arrange Row.close
  split
  · exact hframe
  · exact hframe

end MathLine.Geometry
