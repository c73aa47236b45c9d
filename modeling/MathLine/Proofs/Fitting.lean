import MathLine.Proofs.InnerRows

set_option autoImplicit false

/-!
# Rows and cells fit

In a row that is arranged the cells stand in order, none of them beginning before the one to
its left ends, and all lie within the row.  In a cell, its rows and rules lie within it: the
overbar of a root above the radicand, and the bar of a fraction between numerator and
denominator.  `Row.Fits` says all this of a row, and `fits_of_mem_layout` says it of all rows
of a layout, as long as no length and no factor is negative.

How a row grows is an induction over its marks, with the box that it has filled so far
(`Row.GrownFrom`).  For a cell there is nothing but arithmetic, from the lengths that the
rows in it have.
-/

namespace MathLine.Geometry

/-- The box of a row in its own frame: it stands at the origin and has no negative extent. -/
structure Box.IsRowBox (b : Box ℚ) : Prop where
  unplaced : b.IsUnplaced
  width : 0 ≤ b.width
  height : 0 ≤ b.height
  depth : 0 ≤ b.depth

/-- What is drawn in the area `outer` lies within it, and rules keep clear of rows. -/
def Shape.FitsIn (outer : Area) : Shape ℚ → Prop
  | .char _ _ => True
  | .bracket row | .lowered row | .raised row => row.box.area.Within outer
  | .radical radicand overbar =>
    radicand.box.area.Within outer ∧ overbar.area.Within outer ∧
      overbar.area.Above radicand.box.area
  | .fraction numerator denominator bar =>
    numerator.box.area.Within outer ∧ denominator.box.area.Within outer ∧
      bar.area.Within outer ∧ numerator.box.area.Above bar.area ∧
        bar.area.Above denominator.box.area

/-- The cells of a row stand in order within it, and what is drawn in them fits. -/
structure Row.Fits (row : Row ℚ) : Prop where
  within : ∀ cell ∈ row.cells, cell.box.area.Within row.box.area
  inOrder : row.cells.Pairwise fun a b => a.box.area.Before b.box.area
  shapes : ∀ cell ∈ row.cells, cell.shape.FitsIn cell.box.area

/-! ## Rows grow to the right -/

/-- The row is the box with cells added to its right. -/
structure Row.GrownFrom (box : Box ℚ) (row : Row ℚ) : Prop where
  start : box.area.Within row.box.area
  after : ∀ cell ∈ row.cells, box.area.Before cell.box.area
  within : ∀ cell ∈ row.cells, cell.box.area.Within row.box.area
  inOrder : row.cells.Pairwise fun a b => a.box.area.Before b.box.area

theorem grownFrom_arrangeFrom (m : Metrics ℚ) (afterOperand : Bool) {box : Box ℚ}
    (hbox : box.IsUnplaced) (hwidth : 0 ≤ box.width) (marks : List Mark) :
    (arrangeFrom m afterOperand box marks).GrownFrom box := by
  induction marks generalizing afterOperand box with
  | nil =>
    rw [arrangeFrom]
    exact ⟨.refl _, by simp, by simp, .nil⟩
  | cons mark rest ih =>
    have hcell := isUnplaced_arrangeMark m afterOperand mark
    rw [arrangeFrom]
    set cell := (arrangeMark m afterOperand mark).shift box.width with hshift
    have hleft : cell.box.x = box.width := by rw [hshift, Cell.shift, hcell.x, zero_add]
    have hbefore : box.area.Before cell.box.area := by
      change box.x + box.width ≤ cell.box.x
      rw [hbox.x, hleft, zero_add]
    have hfirst : box.area.Within (box.union cell.box).area := box.within_union_left cell.box
    have hsecond : cell.box.area.Within (box.union cell.box).area :=
      Box.within_union_right hbox (hwidth.trans hleft.ge)
    -- the rest of the row grows from what is filled with this cell
    have hbox' : (box.union cell.box).IsUnplaced := hbox
    have hwidth' : 0 ≤ (box.union cell.box).width := hwidth.trans (le_max_right _ _)
    obtain ⟨hstart, hafter, hwithin, hinOrder⟩ := ih (!mark.isOperator) hbox' hwidth'
    refine ⟨hfirst.trans hstart, ?_, ?_, ?_⟩
    · rw [List.forall_mem_cons]
      exact ⟨hbefore, fun other hother => (hafter other hother).mono hfirst (.refl _)⟩
    · rw [List.forall_mem_cons]
      exact ⟨hsecond.trans hstart, hwithin⟩
    · rw [List.pairwise_cons]
      exact ⟨fun other hother => (hafter other hother).mono hsecond (.refl _), hinOrder⟩

theorem exists_mark_of_mem_cells {m : Metrics ℚ} {afterOperand : Bool} {box : Box ℚ}
    {marks : List Mark} {cell : Cell ℚ}
    (h : cell ∈ (arrangeFrom m afterOperand box marks).cells) :
    ∃ before mark distance, cell = (arrangeMark m before mark).shift distance := by
  induction marks generalizing afterOperand box with
  | nil => simp [arrangeFrom] at h
  | cons mark rest ih =>
    rw [arrangeFrom, List.mem_cons] at h
    rcases h with rfl | h
    · exact ⟨afterOperand, mark, box.width, rfl⟩
    · exact ih h

theorem Box.IsRowBox.of_within {a b : Box ℚ} (ha : a.IsRowBox) (hb : b.IsUnplaced)
    (h : a.area.Within b.area) : b.IsRowBox := by
  obtain ⟨-, htop, hright, hbottom⟩ := h
  simp only [area, top, right, bottom, ha.unplaced.x, ha.unplaced.y, hb.x, hb.y]
    at htop hright hbottom
  exact ⟨hb, by linarith [ha.width], by linarith [ha.height], by linarith [ha.depth]⟩

theorem isRowBox_line {m : Metrics ℚ} (hm : m.Nonneg) : (Box.line m).IsRowBox :=
  ⟨Box.isUnplaced_line m, le_rfl, hm.charHeight, hm.charDepth⟩

theorem grownFrom_line (m : Metrics ℚ) (marks : List Mark) :
    (arrangeFrom m false (Box.line m) marks).GrownFrom (Box.line m) :=
  grownFrom_arrangeFrom m false (Box.isUnplaced_line m) le_rfl marks

theorem isRowBox_arrange {m : Metrics ℚ} (hm : m.Nonneg) (marks : List Mark) :
    (arrange m marks).box.IsRowBox := by
  have hrow : (arrangeFrom m false (Box.line m) marks).box.IsRowBox :=
    (isRowBox_line hm).of_within (frame_arrangeFrom m false (Box.line m) marks)
      (grownFrom_line m marks).start
  unfold arrange Row.close
  split
  · exact ⟨hrow.unplaced, hm.emptyWidth, hrow.height, hrow.depth⟩
  · exact hrow

/-- An arranged row holds its cells. -/
theorem within_arrange (m : Metrics ℚ) (marks : List Mark) :
    ∀ cell ∈ (arrange m marks).cells, cell.box.area.Within (arrange m marks).box.area := by
  intro cell hcell
  have hne : (arrangeFrom m false (Box.line m) marks).cells.isEmpty = false :=
    List.isEmpty_eq_false_iff.2 (List.ne_nil_of_mem hcell)
  have hbox : (arrange m marks).box = (arrangeFrom m false (Box.line m) marks).box := by
    rw [arrange, Row.close, if_neg (Bool.eq_false_iff.1 hne)]
  rw [hbox]
  exact (grownFrom_line m marks).within cell hcell

/-! ## Cells -/

section Cells

variable {m : Metrics ℚ} {row : Row ℚ}

theorem fitsIn_bracketCell (hm : m.Nonneg) (h : row.box.IsUnplaced) :
    (bracketCell m row).shape.FitsIn (bracketCell m row).box.area := by
  have hy := h.y
  have hjut := hm.bracketJut
  have hpadding := hm.bracketPadding
  have hwidth := hm.bracketWidth
  constructor <;>
    simp only [bracketCell, Box.area, Box.left, Box.top, Box.right, Box.bottom, Box.line,
      Box.ofExtent, scalar_zero] <;>
    linarith

theorem fitsIn_loweredCell (h : row.box.IsUnplaced) :
    (loweredCell m row).shape.FitsIn (loweredCell m row).box.area :=
  Box.within_union_right (Box.isUnplaced_line m) h.x.ge

theorem fitsIn_raisedCell (h : row.box.IsUnplaced) :
    (raisedCell m row).shape.FitsIn (raisedCell m row).box.area :=
  Box.within_union_right (Box.isUnplaced_line m) h.x.ge

/-- The cell of a root is as large as root sign, overbar and radicand, and no smaller than a
character. -/
theorem fitsIn_radicalCell (hm : m.Nonneg) (h : row.box.IsRowBox) :
    (radicalCell m row).shape.FitsIn (radicalCell m row).box.area := by
  have hy := h.unplaced.y
  have hwidth := h.width
  have hheight := h.height
  have hdepth := h.depth
  have hsign := hm.radicalWidth
  have hjut := hm.radicalJut
  have hgap := hm.radicalGap
  have htop := hm.radicalTopPadding
  have hright := hm.radicalRightPadding
  refine ⟨?radicand, ?overbar, ?above⟩
  case above =>
    simp only [Area.Above, Rule.area, Box.area, Box.top]
    linarith
  all_goals
    refine Area.Within.trans ?_ (Box.within_union_right (Box.isUnplaced_line m) le_rfl)
    constructor <;>
      simp only [Rule.area, Box.area, Box.left, Box.top, Box.right, Box.bottom, Box.ofExtent,
        scalar_zero] <;>
      linarith

/-- The cell of a fraction is as wide as its bar with room on both sides, and the wider of
numerator and denominator is as wide as the bar but for its juts. -/
theorem fitsIn_fractionCell (hm : m.Nonneg) (h : row.box.IsRowBox) {denominator : Row ℚ}
    (hden : denominator.box.IsRowBox) :
    (fractionCell m row denominator).shape.FitsIn (fractionCell m row denominator).box.area := by
  have hscale := hm.fractionScale
  set num := row.box.scaleBy m.fractionScale with hnum
  set den := denominator.box.scaleBy m.fractionScale with hden'
  have hnumHeight : 0 ≤ num.height := mul_nonneg h.height hscale
  have hnumDepth : 0 ≤ num.depth := mul_nonneg h.depth hscale
  have hdenHeight : 0 ≤ den.height := mul_nonneg hden.height hscale
  have hdenDepth : 0 ≤ den.depth := mul_nonneg hden.depth hscale
  have hnumWidth : num.width ≤ max num.width den.width := le_max_left _ _
  have hdenWidth : den.width ≤ max num.width den.width := le_max_right _ _
  have hside := hm.fractionSidePadding
  have hjut := hm.fractionJut
  have hover := hm.numeratorGap
  have hunder := hm.denominatorGap
  have htop := hm.fractionTopPadding
  have hbottom := hm.fractionBottomPadding
  refine ⟨?numerator, ?denominator, ?bar, ?above, ?below⟩
  case above | below =>
    simp only [Area.Above, Rule.area, Box.area, Box.top, Box.bottom, scalar_zero, ← hnum, ← hden']
    linarith
  all_goals
    constructor <;>
      simp only [fractionCell, Rule.area, Box.area, Box.left, Box.top, Box.right, Box.bottom,
        Box.line, Box.ofExtent, scalar_zero, scalar_two, scalar_larger, ← hnum, ← hden'] <;>
      linarith

theorem fitsIn_arrangeMark (hm : m.Nonneg) (afterOperand : Bool) (mark : Mark) :
    (arrangeMark m afterOperand mark).shape.FitsIn (arrangeMark m afterOperand mark).box.area := by
  cases mark with
  | char c style => exact trivial
  | bracket inner => exact fitsIn_bracketCell hm (isUnplaced_arrange m inner)
  | lowered script => exact fitsIn_loweredCell (isUnplaced_arrange m script)
  | raised script => exact fitsIn_raisedCell (isUnplaced_arrange m script)
  | radical radicand => exact fitsIn_radicalCell hm (isRowBox_arrange hm radicand)
  | fraction numerator denominator =>
    exact fitsIn_fractionCell hm (isRowBox_arrange hm numerator) (isRowBox_arrange hm denominator)

end Cells

/-! ## In frames -/

theorem Row.area_inFrame (f : Frame ℚ) (row : Row ℚ) :
    (row.inFrame f).box.area = row.box.area.inFrame f := by
  rw [inFrame_eq, Box.area_inFrame]

theorem Cell.area_inFrame (f : Frame ℚ) (cell : Cell ℚ) :
    (cell.inFrame f).box.area = cell.box.area.inFrame f := by
  rw [inFrame_eq, Box.area_inFrame]

theorem Shape.FitsIn.inFrame {shape : Shape ℚ} {outer : Area} {f : Frame ℚ}
    (h : shape.FitsIn outer) (hf : 0 ≤ f.scale) : (shape.inFrame f).FitsIn (outer.inFrame f) := by
  cases shape with
  | char c style => exact trivial
  | bracket row | lowered row | raised row =>
    simp only [Shape.inFrame, FitsIn, Row.area_inFrame]
    exact Area.Within.inFrame hf h
  | radical radicand overbar =>
    obtain ⟨hradicand, hoverbar, habove⟩ := h
    simp only [Shape.inFrame, FitsIn, Row.area_inFrame, Rule.area_inFrame]
    exact ⟨hradicand.inFrame hf, hoverbar.inFrame hf, habove.inFrame hf⟩
  | fraction numerator denominator bar =>
    obtain ⟨hnumerator, hdenominator, hbar, habove, hbelow⟩ := h
    simp only [Shape.inFrame, FitsIn, Row.area_inFrame, Rule.area_inFrame]
    exact ⟨hnumerator.inFrame hf, hdenominator.inFrame hf, hbar.inFrame hf, habove.inFrame hf,
      hbelow.inFrame hf⟩

theorem Cell.inFrame_of_isUnplaced {cell : Cell ℚ} (h : cell.box.IsUnplaced) (f : Frame ℚ) :
    cell.inFrame f = ⟨cell.box.inFrame f, cell.shape.inFrame f⟩ := by
  rw [inFrame_eq, h.frame_inFrame]

/-- What holds of the cell of every mark, and is kept when a cell that stands at the origin is
put into a frame, holds of all cells of an arranged row, wherever the row stands. -/
theorem forall_cells_inFrame_arrange {m : Metrics ℚ} {P : Cell ℚ → Prop}
    (hmark : ∀ afterOperand mark, P (arrangeMark m afterOperand mark))
    (hframe : ∀ {cell : Cell ℚ} {f : Frame ℚ}, cell.box.IsUnplaced → 0 ≤ f.scale → P cell →
      P (cell.inFrame f))
    (marks : List Mark) {f : Frame ℚ} (hf : 0 ≤ f.scale) :
    ∀ cell ∈ ((arrange m marks).inFrame f).cells, P cell := by
  have hcells : ((arrange m marks).inFrame f).cells =
      (arrange m marks).cells.map (Cell.inFrame f) := by
    rw [Row.inFrame_eq, (isUnplaced_arrange m marks).frame_inFrame]
  rw [hcells, List.forall_mem_map]
  intro cell hcell
  obtain ⟨before, mark, distance, rfl⟩ := exists_mark_of_mem_cells hcell
  rw [Cell.inFrame_shift]
  exact hframe (isUnplaced_arrangeMark m before mark) (f.scale_comp_shift distance ▸ hf)
    (hmark before mark)

theorem fitsIn_inFrame {cell : Cell ℚ} {f : Frame ℚ} (hcell : cell.box.IsUnplaced)
    (hf : 0 ≤ f.scale) (h : cell.shape.FitsIn cell.box.area) :
    (cell.inFrame f).shape.FitsIn (cell.inFrame f).box.area := by
  rw [Cell.area_inFrame, Cell.inFrame_of_isUnplaced hcell]
  exact h.inFrame hf

/-- An arranged row fits, wherever it stands. -/
theorem fits_inFrame_arrange {m : Metrics ℚ} (hm : m.Nonneg) (marks : List Mark) {f : Frame ℚ}
    (hf : 0 ≤ f.scale) : ((arrange m marks).inFrame f).Fits := by
  have hcells : ((arrange m marks).inFrame f).cells =
      (arrange m marks).cells.map (Cell.inFrame f) := by
    rw [Row.inFrame_eq, (isUnplaced_arrange m marks).frame_inFrame]
  constructor
  case within =>
    rw [hcells, List.forall_mem_map]
    intro cell hcell
    rw [Cell.area_inFrame, Row.area_inFrame]
    exact (within_arrange m marks cell hcell).inFrame hf
  case inOrder =>
    rw [hcells, List.pairwise_map]
    refine (grownFrom_line m marks).inOrder.imp fun hbefore => ?_
    rw [Cell.area_inFrame, Cell.area_inFrame]
    exact hbefore.inFrame hf
  case shapes =>
    exact forall_cells_inFrame_arrange (fitsIn_arrangeMark hm) fitsIn_inFrame marks hf

/-- Every row of a layout fits. -/
theorem fits_of_mem_layout {m : Metrics ℚ} (hm : m.Nonneg) (fragments : List Fragment) :
    ∀ row ∈ (layout m fragments).rows, row.Fits := by
  intro row hrow
  obtain ⟨marks, f, hf, rfl⟩ := stands_of_mem_layout hm fragments row hrow
  exact fits_inFrame_arrange hm marks hf

/-! ## Where all rows fit -/

/-- Where rows fit at every depth, a statement about rows follows from the same statement about
the rows in their cells, by way of a statement about cells. -/
theorem induction_of_fits {P : Row ℚ → Prop} {Q : Cell ℚ → Prop}
    (hrow : ∀ row : Row ℚ, row.Fits → (∀ cell ∈ row.cells, Q cell) → P row)
    (hcell : ∀ cell : Cell ℚ, cell.shape.FitsIn cell.box.area →
      (∀ row ∈ cell.shape.childRows, P row) → Q cell) :
    (∀ row : Row ℚ, (∀ r ∈ row.rows, r.Fits) → P row) ∧
      ∀ cell : Cell ℚ, (∀ r ∈ cell.rows, r.Fits) → cell.shape.FitsIn cell.box.area → Q cell := by
  have hall := Row.rows.mutual_induct
    (fun row : Row ℚ => (∀ r ∈ row.rows, r.Fits) → P row)
    (fun cells => (∀ r ∈ rowsInCells cells, r.Fits) →
      ∀ cell ∈ cells, cell.shape.FitsIn cell.box.area → Q cell)
    (fun cell => (∀ r ∈ cell.rows, r.Fits) → cell.shape.FitsIn cell.box.area → Q cell)
    (fun shape => (∀ r ∈ shape.rows, r.Fits) → ∀ row ∈ shape.childRows, P row)
    ?row ?cell ?char ?bracket ?lowered ?raised ?radical ?fraction ?nil ?cons
  case row =>
    intro box cells ih hrows
    rw [Row.rows, List.forall_mem_cons] at hrows
    exact hrow _ hrows.1 fun cell hmem => ih hrows.2 cell hmem (hrows.1.shapes cell hmem)
  case cell =>
    intro box shape ih hrows hfits
    rw [Cell.rows] at hrows
    exact hcell _ hfits (ih hrows)
  case char =>
    intro c style _
    exact List.forall_mem_nil _
  case bracket | lowered | raised =>
    intro inner ih hrows
    rw [Shape.rows] at hrows
    exact List.forall_mem_singleton.2 (ih hrows)
  case radical =>
    intro radicand overbar ih hrows
    rw [Shape.rows] at hrows
    exact List.forall_mem_singleton.2 (ih hrows)
  case fraction =>
    intro numerator denominator bar hnumerator hdenominator hrows
    rw [Shape.rows, List.forall_mem_append] at hrows
    rw [Shape.childRows, List.forall_mem_cons, List.forall_mem_singleton]
    exact ⟨hnumerator hrows.1, hdenominator hrows.2⟩
  case nil => exact fun _ => List.forall_mem_nil _
  case cons =>
    intro cell rest ih hrest hrows
    rw [rowsInCells, List.forall_mem_append] at hrows
    rw [List.forall_mem_cons]
    exact ⟨ih hrows.1, hrest hrows.2⟩
  exact ⟨hall.1, hall.2.2.1⟩

end MathLine.Geometry
