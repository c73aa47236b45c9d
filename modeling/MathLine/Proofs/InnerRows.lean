import Mathlib.Algebra.Order.BigOperators.GroupWithZero.List
import Mathlib.Data.List.Forall2
import MathLine.Geometry.Placement
import MathLine.Proofs.Areas

set_option autoImplicit false

/-!
# The rows of a layout

A layout is a tree of rows, and `Row.rows` lists all of them.  They are the rows of its marks,
which `rowsInMarks` lists in the same order with the places through which each is reached
(`Place`).  Each is drawn as it would be drawn alone, in a frame of its own that is as large as
its place (`standsFor_rows_layout`).  So what holds of all arranged rows, and is kept when a
row is put into a frame, holds of the rows of a layout at every depth
(`stands_of_mem_layout`).

The reason is that cells do not look into the rows inside them.  They only tell them where
to stand and how large to be (`Row.placed`), and frames that stand in each other make one
frame.
-/

namespace MathLine.Geometry

/-! ## Rows at every depth -/

section Depth

variable {K : Type}

mutual

/-- The row and all rows inside it, a row before those inside it. -/
def Row.rows : Row K → List (Row K)
  | ⟨box, cells⟩ => ⟨box, cells⟩ :: rowsInCells cells

/-- The rows inside a list of cells. -/
def rowsInCells : List (Cell K) → List (Row K)
  | [] => []
  | cell :: rest => cell.rows ++ rowsInCells rest

/-- The rows inside a cell. -/
def Cell.rows : Cell K → List (Row K)
  | ⟨_, shape⟩ => shape.rows

/-- The rows inside a shape. -/
def Shape.rows : Shape K → List (Row K)
  | .char _ _ => []
  | .bracket inner => inner.rows
  | .lowered script => script.rows
  | .raised script => script.rows
  | .radical radicand _ => radicand.rows
  | .fraction numerator denominator _ => numerator.rows ++ denominator.rows

end

theorem rowsInCells_eq (cells : List (Cell K)) : rowsInCells cells = cells.flatMap Cell.rows := by
  induction cells with
  | nil => rw [rowsInCells, List.flatMap_nil]
  | cons cell rest ih => rw [rowsInCells, ih, List.flatMap_cons]

theorem Row.rows_eq (row : Row K) : row.rows = row :: rowsInCells row.cells := by
  cases row
  rw [rows]

/-- The rows right inside a shape. -/
def Shape.childRows : Shape K → List (Row K)
  | .char _ _ => []
  | .bracket row | .lowered row | .raised row | .radical row _ => [row]
  | .fraction numerator denominator _ => [numerator, denominator]

/-- The rules of a shape. -/
def Shape.rules : Shape K → List (Rule K)
  | .char _ _ | .bracket _ | .lowered _ | .raised _ => []
  | .radical _ overbar => [overbar]
  | .fraction _ _ bar => [bar]

/-- The rows inside a shape are those of the rows right inside it. -/
theorem Shape.rows_eq (shape : Shape K) : shape.rows = shape.childRows.flatMap Row.rows := by
  cases shape <;> simp [rows, childRows]

end Depth

/-! ## Rows and cells in frames -/

section Frames

variable (f : Frame ℚ)

theorem cellsInFrame_eq (cells : List (Cell ℚ)) :
    cellsInFrame f cells = cells.map (Cell.inFrame f) := by
  induction cells with
  | nil => rw [cellsInFrame, List.map_nil]
  | cons cell rest ih => rw [cellsInFrame, ih, List.map_cons]

theorem Row.inFrame_eq (row : Row ℚ) :
    row.inFrame f =
      ⟨row.box.inFrame f, row.cells.map (Cell.inFrame (row.box.inFrame f).frame)⟩ := by
  cases row
  rw [Row.inFrame, cellsInFrame_eq]

theorem Cell.inFrame_eq (cell : Cell ℚ) :
    cell.inFrame f = ⟨cell.box.inFrame f, cell.shape.inFrame (cell.box.inFrame f).frame⟩ := by
  cases cell
  rw [Cell.inFrame]

/-- A cell that is moved to the right stands in a frame that is moved to the right. -/
theorem Cell.inFrame_shift (distance : ℚ) (cell : Cell ℚ) :
    (cell.shift distance).inFrame f = cell.inFrame (f.comp ⟨distance, 0, 1⟩) := by
  have hbox : (cell.shift distance).box.inFrame f = cell.box.inFrame (f.comp ⟨distance, 0, 1⟩) := by
    simp only [shift, Box.inFrame, Box.scaleBy, Frame.comp, Box.mk.injEq]
    refine ⟨?_, ?_, ?_, ?_, ?_, ?_⟩ <;> ring
  rw [inFrame_eq, inFrame_eq, hbox]
  rfl

/-- The row, told by its box that it stands in the frame `f`.  Its cells are still measured
in the row's own frame. -/
def Row.placed (row : Row ℚ) : Row ℚ := { row with box := row.box.inFrame f }

theorem Row.inFrame_placed (g : Frame ℚ) (row : Row ℚ) :
    (row.placed g).inFrame f = row.inFrame (f.comp g) := by
  rw [inFrame_eq, inFrame_eq, placed, Box.inFrame_comp]

end Frames

/-! ## Cells tell their rows where to stand -/

section Cells

variable (m : Metrics ℚ) {row : Row ℚ} (h : row.box.IsUnplaced)
include h

theorem shape_bracketCell :
    (bracketCell m row).shape = .bracket (row.placed ⟨m.bracketWidth, 0, 1⟩) := by
  simp [bracketCell, Row.placed, Box.inFrame, Box.scaleBy, h.x, h.y, h.scale]

theorem shape_loweredCell :
    (loweredCell m row).shape = .lowered
      (row.placed ⟨0, m.scriptMiddle + row.box.height * m.loweredScale, m.loweredScale⟩) := by
  simp [loweredCell, Row.placed, Box.inFrame, Box.scaleBy, h.x, h.y]

theorem shape_raisedCell :
    (raisedCell m row).shape = .raised
      (row.placed ⟨0, m.scriptMiddle - row.box.depth * m.raisedScale, m.raisedScale⟩) := by
  simp [raisedCell, Row.placed, Box.inFrame, Box.scaleBy, h.x, h.y]

theorem shape_radicalCell :
    ∃ overbar, (radicalCell m row).shape =
      .radical (row.placed ⟨m.radicalWidth + m.radicalJut, 0, 1⟩) overbar := by
  simp [radicalCell, Row.placed, Box.inFrame, Box.scaleBy, h.x, h.y, h.scale]

theorem shape_fractionCell {denominator : Row ℚ} (hden : denominator.box.IsUnplaced) :
    ∃ x y x' y' bar, (fractionCell m row denominator).shape =
      .fraction (row.placed ⟨x, y, m.fractionScale⟩)
        (denominator.placed ⟨x', y', m.fractionScale⟩) bar := by
  simp [fractionCell, Row.placed, Box.inFrame, Box.scaleBy, h.x, h.y, hden.x, hden.y]

end Cells

theorem isUnplaced_arrangeMark (m : Metrics ℚ) (afterOperand : Bool) (mark : Mark) :
    (arrangeMark m afterOperand mark).box.IsUnplaced := by
  cases mark <;> rfl

/-! ## Places -/

/-- Where in a construction a row stands.  The brackets are those of a group or those around
arguments. -/
inductive Place where
  | brackets
  | subscript
  | exponent
  | radicand
  | numerator
  | denominator
  deriving DecidableEq, Repr, Inhabited

namespace Place

/-- How large a row is drawn in a place, when what stands around it has size one. -/
def factor (m : Metrics ℚ) : Place → ℚ
  | brackets | radicand => 1
  | subscript => m.loweredScale
  | exponent => m.raisedScale
  | numerator | denominator => m.fractionScale

/-- How large a row is drawn that is reached through the places of `path`, from the outside to
the inside. -/
def scale (m : Metrics ℚ) (path : List Place) : ℚ := (path.map (factor m)).prod

theorem scale_nil (m : Metrics ℚ) : scale m [] = 1 := rfl

theorem scale_concat (m : Metrics ℚ) (path : List Place) (place : Place) :
    scale m (path ++ [place]) = place.factor m * scale m path := by
  simp [scale, mul_comm]

theorem scale_nonneg {m : Metrics ℚ} (hm : m.Nonneg) (path : List Place) :
    0 ≤ scale m path := by
  apply List.prod_nonneg
  rw [List.forall_mem_map]
  intro place _
  cases place with
  | brackets | radicand => exact zero_le_one
  | subscript => exact hm.loweredScale
  | exponent => exact hm.raisedScale
  | numerator | denominator => exact hm.fractionScale

end Place

mutual

/-- The rows inside a mark that is reached through `path`, each with the places through which
it is reached. -/
def Mark.rows (path : List Place) : Mark → List (List Place × List Mark)
  | .char _ _ => []
  | .bracket inner => (path ++ [.brackets], inner) :: rowsInMarks (path ++ [.brackets]) inner
  | .lowered script =>
    (path ++ [.subscript], script) :: rowsInMarks (path ++ [.subscript]) script
  | .raised script => (path ++ [.exponent], script) :: rowsInMarks (path ++ [.exponent]) script
  | .radical radicand =>
    (path ++ [.radicand], radicand) :: rowsInMarks (path ++ [.radicand]) radicand
  | .fraction numerator denominator =>
    (path ++ [.numerator], numerator) :: rowsInMarks (path ++ [.numerator]) numerator ++
      (path ++ [.denominator], denominator) :: rowsInMarks (path ++ [.denominator]) denominator

/-- The rows inside a list of marks. -/
def rowsInMarks (path : List Place) : List Mark → List (List Place × List Mark)
  | [] => []
  | mark :: rest => mark.rows path ++ rowsInMarks path rest

end

/-! ## Rows inside stand like rows alone -/

/-- The row is drawn as the marks of `inner` would be drawn alone, in some frame that is as
large as their place. -/
def StandsFor (m : Metrics ℚ) (inner : List Place × List Mark) (row : Row ℚ) : Prop :=
  ∃ f : Frame ℚ, f.scale = Place.scale m inner.1 ∧ row = (arrange m inner.2).inFrame f

section Arranged

variable {m : Metrics ℚ} {marks : List Mark}
  (h : ∀ path (f : Frame ℚ), f.scale = Place.scale m path →
    List.Forall₂ (StandsFor m) (rowsInMarks path marks)
      (rowsInCells ((arrangeFrom m false (Box.line m) marks).cells.map (Cell.inFrame f))))
  {path : List Place} {f : Frame ℚ} (hf : f.scale = Place.scale m path)
include h hf

theorem standsFor_rows :
    List.Forall₂ (StandsFor m) ((path, marks) :: rowsInMarks path marks)
      ((arrange m marks).inFrame f).rows := by
  rw [Row.rows_eq, Row.inFrame_eq, (isUnplaced_arrange m marks).frame_inFrame]
  refine .cons ⟨f, hf, ?_⟩ (h path f hf)
  rw [Row.inFrame_eq, (isUnplaced_arrange m marks).frame_inFrame]

/-- A row that a cell tells where to stand. -/
theorem standsFor_placed_rows (place : Place) (x y : ℚ) :
    List.Forall₂ (StandsFor m)
      ((path ++ [place], marks) :: rowsInMarks (path ++ [place]) marks)
      (((arrange m marks).placed ⟨x, y, place.factor m⟩).inFrame f).rows := by
  rw [Row.inFrame_placed]
  apply standsFor_rows h
  rw [Place.scale_concat, ← hf]
  rfl

end Arranged

theorem standsFor_arranged (m : Metrics ℚ) :
    (∀ afterOperand mark path (f : Frame ℚ), f.scale = Place.scale m path →
      List.Forall₂ (StandsFor m) (Mark.rows path mark)
        ((arrangeMark m afterOperand mark).shape.inFrame f).rows) ∧
      ∀ afterOperand box marks path (f : Frame ℚ), f.scale = Place.scale m path →
        List.Forall₂ (StandsFor m) (rowsInMarks path marks)
          (rowsInCells ((arrangeFrom m afterOperand box marks).cells.map (Cell.inFrame f))) := by
  refine arrangeMark.mutual_induct m
    (fun afterOperand mark => ∀ path (f : Frame ℚ), f.scale = Place.scale m path →
      List.Forall₂ (StandsFor m) (Mark.rows path mark)
        ((arrangeMark m afterOperand mark).shape.inFrame f).rows)
    (fun afterOperand box marks => ∀ path (f : Frame ℚ), f.scale = Place.scale m path →
      List.Forall₂ (StandsFor m) (rowsInMarks path marks)
        (rowsInCells ((arrangeFrom m afterOperand box marks).cells.map (Cell.inFrame f))))
    ?char ?bracket ?lowered ?raised ?radical ?fraction ?nil ?cons
  case char =>
    intro _ c style path f _
    rw [Mark.rows, arrangeMark, charCell, Shape.inFrame, Shape.rows]
    exact .nil
  case bracket =>
    intro _ inner hinner path f hf
    rw [Mark.rows, arrangeMark, ← arrange, shape_bracketCell m (isUnplaced_arrange m inner),
      Shape.inFrame, Shape.rows]
    exact standsFor_placed_rows hinner hf .brackets _ _
  case lowered =>
    intro _ script hscript path f hf
    rw [Mark.rows, arrangeMark, ← arrange, shape_loweredCell m (isUnplaced_arrange m script),
      Shape.inFrame, Shape.rows]
    exact standsFor_placed_rows hscript hf .subscript _ _
  case raised =>
    intro _ script hscript path f hf
    rw [Mark.rows, arrangeMark, ← arrange, shape_raisedCell m (isUnplaced_arrange m script),
      Shape.inFrame, Shape.rows]
    exact standsFor_placed_rows hscript hf .exponent _ _
  case radical =>
    intro _ radicand hradicand path f hf
    obtain ⟨overbar, hshape⟩ := shape_radicalCell m (isUnplaced_arrange m radicand)
    rw [Mark.rows, arrangeMark, ← arrange, hshape, Shape.inFrame, Shape.rows]
    exact standsFor_placed_rows hradicand hf .radicand _ _
  case fraction =>
    intro _ numerator denominator hnumerator hdenominator path f hf
    obtain ⟨x, y, x', y', bar, hshape⟩ := shape_fractionCell m (isUnplaced_arrange m numerator)
      (isUnplaced_arrange m denominator)
    rw [Mark.rows, arrangeMark, ← arrange, ← arrange, hshape, Shape.inFrame, Shape.rows]
    exact List.rel_append (standsFor_placed_rows hnumerator hf .numerator x y)
      (standsFor_placed_rows hdenominator hf .denominator x' y')
  case nil =>
    intro _ box path f _
    rw [rowsInMarks, arrangeFrom, List.map_nil, rowsInCells]
    exact .nil
  case cons =>
    intro _ box mark rest _ hmark hrest path f hf
    rw [rowsInMarks, arrangeFrom, List.map_cons, rowsInCells]
    refine List.rel_append ?_ (hrest path f hf)
    rw [Cell.inFrame_shift, Cell.inFrame_eq, Cell.rows,
      (isUnplaced_arrangeMark m _ mark).frame_inFrame]
    exact hmark path _ ((f.scale_comp_shift _).trans hf)

/-- The rows of a layout are, one by one, the rows of its marks, each drawn as it would be
drawn alone. -/
theorem standsFor_rows_layout (m : Metrics ℚ) (fragments : List Fragment) :
    List.Forall₂ (StandsFor m)
      (([], Mark.ofFragments fragments) :: rowsInMarks [] (Mark.ofFragments fragments))
      (layout m fragments).rows :=
  standsFor_rows ((standsFor_arranged m).2 _ _ _) (Place.scale_nil m).symm

/-- The row is drawn as it would be drawn alone, in some frame. -/
def Row.Stands (m : Metrics ℚ) (row : Row ℚ) : Prop :=
  ∃ marks g, 0 ≤ g.scale ∧ row = (arrange m marks).inFrame g

/-- If no factor is negative, no row of a layout is scaled by a negative one. -/
theorem stands_of_mem_layout {m : Metrics ℚ} (hm : m.Nonneg) (fragments : List Fragment) :
    ∀ row ∈ (layout m fragments).rows, row.Stands m := by
  have hstands : ∀ {inner : List Place × List Mark} {row : Row ℚ},
      StandsFor m inner row → row.Stands m ∧ StandsFor m inner row := by
    rintro inner row ⟨f, hscale, hrow⟩
    exact ⟨⟨inner.2, f, hscale ▸ Place.scale_nonneg hm inner.1, hrow⟩, f, hscale, hrow⟩
  have hrows := (standsFor_rows_layout m fragments).imp fun _ _ => hstands
  exact ((List.forall₂_and_left _ _).1 hrows.flip).1

end MathLine.Geometry
