import MathLine.Proofs.InnerRows

set_option autoImplicit false

/-!
# Layouts are composed of layouts

Every row inside a construction is drawn just as it would be drawn on a page of its own, but
moved to its place and scaled.  `Row.redraw` moves and scales a finished drawing as a whole,
each box and rule of it alike, and so knows nothing of the frames in which rows are measured
(`redraw_inFrame` says that they give the same drawing).

`composed_layout` says that the rows of a layout are, one by one, the layouts of the rows inside
its fragments, redrawn in the frame that the box of the row gives.  The scale of that frame is
the product of the factors of the places through which the row is reached, so each factor
counts once.
-/

namespace MathLine.Geometry

/-! ## Drawings as a whole -/

section Redraw

variable (f : Frame ℚ)

mutual

/-- The drawing of a row, moved and scaled as a whole into the frame `f`. -/
def Row.redraw : Row ℚ → Row ℚ
  | ⟨box, cells⟩ => ⟨box.inFrame f, redrawCells cells⟩

/-- The drawings of a list of cells, moved and scaled. -/
def redrawCells : List (Cell ℚ) → List (Cell ℚ)
  | [] => []
  | cell :: rest => cell.redraw :: redrawCells rest

/-- The drawing of a cell, moved and scaled. -/
def Cell.redraw : Cell ℚ → Cell ℚ
  | ⟨box, shape⟩ => ⟨box.inFrame f, shape.redraw⟩

/-- The drawing of a shape, moved and scaled. -/
def Shape.redraw : Shape ℚ → Shape ℚ
  | .char c style => .char c style
  | .bracket inner => .bracket inner.redraw
  | .lowered script => .lowered script.redraw
  | .raised script => .raised script.redraw
  | .radical radicand overbar => .radical radicand.redraw (overbar.inFrame f)
  | .fraction numerator denominator bar =>
    .fraction numerator.redraw denominator.redraw (bar.inFrame f)

end

end Redraw

theorem Rule.inFrame_comp (f g : Frame ℚ) (r : Rule ℚ) :
    r.inFrame (f.comp g) = (r.inFrame g).inFrame f := by
  simp only [inFrame, Frame.comp, mk.injEq]
  refine ⟨?_, ?_, ?_⟩ <;> ring

/-- A drawing that is moved and scaled as a whole is the drawing that is made in the moved and
scaled frame. -/
theorem redraw_inFrame (f : Frame ℚ) :
    (∀ g (row : Row ℚ), (row.inFrame g).redraw f = row.inFrame (f.comp g)) ∧
      (∀ g (cells : List (Cell ℚ)),
        redrawCells f (cellsInFrame g cells) = cellsInFrame (f.comp g) cells) ∧
        (∀ g (cell : Cell ℚ), (cell.inFrame g).redraw f = cell.inFrame (f.comp g)) ∧
          ∀ g (shape : Shape ℚ), (shape.inFrame g).redraw f = shape.inFrame (f.comp g) := by
  refine Row.inFrame.mutual_induct
    (fun g row => (row.inFrame g).redraw f = row.inFrame (f.comp g))
    (fun g cells => redrawCells f (cellsInFrame g cells) = cellsInFrame (f.comp g) cells)
    (fun g cell => (cell.inFrame g).redraw f = cell.inFrame (f.comp g))
    (fun g shape => (shape.inFrame g).redraw f = shape.inFrame (f.comp g))
    ?row ?cell ?char ?bracket ?lowered ?raised ?radical ?fraction ?nil ?cons
  case row =>
    intro g box cells ih
    rw [Row.inFrame, Row.redraw, ih, Row.inFrame, Box.inFrame_comp]
    rfl
  case cell =>
    intro g box shape ih
    rw [Cell.inFrame, Cell.redraw, ih, Cell.inFrame, Box.inFrame_comp]
    rfl
  case char =>
    intro g c style
    rw [Shape.inFrame, Shape.redraw, Shape.inFrame]
  case bracket | lowered | raised =>
    intro g row ih
    rw [Shape.inFrame, Shape.redraw, ih, Shape.inFrame]
  case radical =>
    intro g radicand overbar ih
    rw [Shape.inFrame, Shape.redraw, ih, Shape.inFrame, Rule.inFrame_comp]
  case fraction =>
    intro g numerator denominator bar hnumerator hdenominator
    rw [Shape.inFrame, Shape.redraw, hnumerator, hdenominator, Shape.inFrame, Rule.inFrame_comp]
  case nil =>
    intro g
    rw [cellsInFrame, redrawCells, cellsInFrame]
  case cons =>
    intro g cell rest hcell hrest
    rw [cellsInFrame, redrawCells, hcell, hrest, cellsInFrame]

theorem redraw_layout (m : Metrics ℚ) (fragments : List Fragment) (f : Frame ℚ) :
    (layout m fragments).redraw f = (arrange m (Mark.ofFragments fragments)).inFrame f := by
  rw [layout, (redraw_inFrame f).1, Frame.comp_origin]

/-! ## The rows inside fragments -/

mutual

/-- The rows inside a fragment that is reached through `path`, each with the places through
which it is reached.  The base of a power or subscript is written into the row around it, and
so is not among them, but the rows inside it are. -/
def fragmentRows (path : List Place) : Fragment → List (List Place × List Fragment)
  | .glyph _ _ | .operator _ | .functionName _ => []
  | .call _ inner | .group inner =>
    (path ++ [.brackets], inner) :: rowsInFragments (path ++ [.brackets]) inner
  | .fraction numerator denominator =>
    (path ++ [.numerator], numerator) :: rowsInFragments (path ++ [.numerator]) numerator ++
      (path ++ [.denominator], denominator) ::
        rowsInFragments (path ++ [.denominator]) denominator
  | .power base exponent =>
    rowsInFragments path base ++
      (path ++ [.exponent], exponent) :: rowsInFragments (path ++ [.exponent]) exponent
  | .subscript base script =>
    rowsInFragments path base ++
      (path ++ [.subscript], script) :: rowsInFragments (path ++ [.subscript]) script
  | .radical radicand =>
    (path ++ [.radicand], radicand) :: rowsInFragments (path ++ [.radicand]) radicand

/-- The rows inside a list of fragments. -/
def rowsInFragments (path : List Place) : List Fragment → List (List Place × List Fragment)
  | [] => []
  | fragment :: rest => fragmentRows path fragment ++ rowsInFragments path rest

end

theorem rowsInMarks_eq (path : List Place) (marks : List Mark) :
    rowsInMarks path marks = marks.flatMap (Mark.rows path) := by
  induction marks with
  | nil => rw [rowsInMarks, List.flatMap_nil]
  | cons mark rest ih => rw [rowsInMarks, ih, List.flatMap_cons]

theorem rowsInMarks_append (path : List Place) (marks marks' : List Mark) :
    rowsInMarks path (marks ++ marks') = rowsInMarks path marks ++ rowsInMarks path marks' := by
  simp only [rowsInMarks_eq, List.flatMap_append]

theorem rowsInMarks_singleton (path : List Place) (mark : Mark) :
    rowsInMarks path [mark] = mark.rows path := by
  rw [rowsInMarks_eq, List.flatMap_singleton]

/-- There are no rows inside a text. -/
theorem rowsInMarks_ofText (path : List Place) (text : String) (style : Style) :
    rowsInMarks path (Mark.ofText text style) = [] := by
  simp [rowsInMarks_eq, Mark.ofText, Mark.rows]

mutual

/-- The rows inside the marks of a fragment are the marks of the rows inside the fragment. -/
theorem rowsInMarks_ofFragment : (path : List Place) → (fragment : Fragment) →
    rowsInMarks path (Mark.ofFragment fragment) =
      (fragmentRows path fragment).map (Prod.map id Mark.ofFragments)
  | path, .glyph text style => by
    rw [Mark.ofFragment, rowsInMarks_ofText, fragmentRows, List.map_nil]
  | path, .operator sign => by
    rw [Mark.ofFragment, rowsInMarks_singleton, Mark.rows, fragmentRows, List.map_nil]
  | path, .functionName name => by
    rw [Mark.ofFragment, rowsInMarks_append, rowsInMarks_ofText, rowsInMarks_singleton, Mark.rows,
      fragmentRows, List.map_nil, List.append_nil]
  | path, .call name arguments => by
    rw [Mark.ofFragment, rowsInMarks_append, rowsInMarks_ofText, rowsInMarks_singleton, Mark.rows,
      rowsInMarks_ofFragments, fragmentRows, List.nil_append, List.map_cons]
    rfl
  | path, .group inner => by
    rw [Mark.ofFragment, rowsInMarks_singleton, Mark.rows, rowsInMarks_ofFragments, fragmentRows,
      List.map_cons]
    rfl
  | path, .radical radicand => by
    rw [Mark.ofFragment, rowsInMarks_singleton, Mark.rows, rowsInMarks_ofFragments, fragmentRows,
      List.map_cons]
    rfl
  | path, .fraction numerator denominator => by
    rw [Mark.ofFragment, rowsInMarks_singleton, Mark.rows, rowsInMarks_ofFragments,
      rowsInMarks_ofFragments, fragmentRows, List.map_append, List.map_cons, List.map_cons]
    rfl
  | path, .power base exponent => by
    rw [Mark.ofFragment, rowsInMarks_append, rowsInMarks_singleton, Mark.rows,
      rowsInMarks_ofFragments, rowsInMarks_ofFragments, fragmentRows, List.map_append,
      List.map_cons]
    rfl
  | path, .subscript base script => by
    rw [Mark.ofFragment, rowsInMarks_append, rowsInMarks_singleton, Mark.rows,
      rowsInMarks_ofFragments, rowsInMarks_ofFragments, fragmentRows, List.map_append,
      List.map_cons]
    rfl

/-- The rows inside the marks of a row are the marks of the rows inside the row. -/
theorem rowsInMarks_ofFragments : (path : List Place) → (row : List Fragment) →
    rowsInMarks path (Mark.ofFragments row) =
      (rowsInFragments path row).map (Prod.map id Mark.ofFragments)
  | path, [] => by rw [Mark.ofFragments, rowsInMarks, rowsInFragments, List.map_nil]
  | path, fragment :: rest => by
    rw [Mark.ofFragments, rowsInMarks_append, rowsInMarks_ofFragment, rowsInMarks_ofFragments,
      rowsInFragments, List.map_append]

end

/-! ## The rows of a layout -/

/-- The rows of a layout are, one by one, the rows inside its fragments.  Each is the layout of
its fragments alone, moved and scaled as a whole to where its box says, and its scale is the
product of the factors of the places through which it is reached. -/
theorem composed_layout (m : Metrics ℚ) (fragments : List Fragment) :
    List.Forall₂
      (fun inner row => row = (layout m inner.2).redraw row.box.frame ∧
        row.box.scale = (inner.1.map (Place.factor m)).prod)
      (([], fragments) :: rowsInFragments [] fragments) (layout m fragments).rows := by
  have hstands := standsFor_rows_layout m fragments
  rw [rowsInMarks_ofFragments] at hstands
  have hrows : List.Forall₂
      (fun inner row => StandsFor m (Prod.map id Mark.ofFragments inner) row)
      (([], fragments) :: rowsInFragments [] fragments) (layout m fragments).rows :=
    List.forall₂_map_left_iff.1 hstands
  refine hrows.imp fun inner row hrow => ?_
  obtain ⟨f, hscale, rfl⟩ := hrow
  have hframe : ((arrange m (Mark.ofFragments inner.2)).inFrame f).box.frame = f := by
    rw [Row.inFrame_eq, (isUnplaced_arrange m _).frame_inFrame]
  constructor
  · rw [Prod.map_snd, hframe, redraw_layout]
  · exact (congrArg Frame.scale hframe).trans hscale

end MathLine.Geometry
