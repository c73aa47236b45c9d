import MathLine.Proofs.Fitting

set_option autoImplicit false

/-!
# Cells tile their row

The cells of a row stand on its baseline, are as large as it, and fill it from edge to edge: the
first begins where the row begins, each of the others where the one to its left ends, and the last
ends where the row ends.  The row is as high and as deep as the largest of its cells, and never
lower than a character.  `Row.Tiled` says all this of a row, and what an empty row is like.
`tiled_of_mem_layout` says it of all rows of a layout, as long as no length and no factor is
negative.

A row grows by one cell at a time, and its box is widened by a maximum.  That the cell is put
where the row ends, and that no cell has a negative width, makes the maximum a sum
(`width_union_shift`).  So what is filled so far is the invariant of the row, `Row.TiledFrom`.
-/

namespace MathLine.Geometry

/-- The cells fill the stretch from `left` to `right`, each beginning where the one before it
ends. -/
def Tiles (left right : ℚ) : List (Cell ℚ) → Prop
  | [] => left = right
  | cell :: rest => cell.box.left = left ∧ Tiles cell.box.right right rest

/-- The largest of `least` and the given extents of the cells. -/
def largest (least : ℚ) (extent : Box ℚ → ℚ) (cells : List (Cell ℚ)) : ℚ :=
  (cells.map fun cell => extent cell.box).foldl max least

/-- A row is filled by its cells, and no larger than they make it. -/
structure Row.Tiled (m : Metrics ℚ) (row : Row ℚ) : Prop where
  /-- all cells stand on the baseline of the row -/
  baseline : ∀ cell ∈ row.cells, cell.box.y = row.box.y
  /-- all cells are drawn in the size of the row -/
  size : ∀ cell ∈ row.cells, cell.box.scale = row.box.scale
  /-- from the left edge of the row to its right edge there are cells without gaps -/
  edges : row.cells ≠ [] → Tiles row.box.left row.box.right row.cells
  height : row.box.height = largest (row.box.scale * m.charHeight) Box.height row.cells
  depth : row.box.depth = largest (row.box.scale * m.charDepth) Box.depth row.cells
  /-- a row without cells has a width of its own, and is as high and deep as a character -/
  empty : row.cells = [] →
    row.box.width = row.box.scale * m.emptyWidth ∧
      row.box.height = row.box.scale * m.charHeight ∧ row.box.depth = row.box.scale * m.charDepth

/-! ## In frames -/

section Frames

variable {f : Frame ℚ}

theorem Cell.left_inFrame (f : Frame ℚ) (cell : Cell ℚ) :
    (cell.inFrame f).box.left = f.x + f.scale * cell.box.left :=
  congrArg Area.left (cell.area_inFrame f)

theorem Cell.right_inFrame (f : Frame ℚ) (cell : Cell ℚ) :
    (cell.inFrame f).box.right = f.x + f.scale * cell.box.right :=
  congrArg Area.right (cell.area_inFrame f)

/-- Cells that fill a stretch fill it wherever they are drawn. -/
theorem Tiles.inFrame {left right : ℚ} {cells : List (Cell ℚ)} (h : Tiles left right cells) :
    Tiles (f.x + f.scale * left) (f.x + f.scale * right) (cells.map (Cell.inFrame f)) := by
  induction cells generalizing left with
  | nil => exact congrArg (f.x + f.scale * ·) h
  | cons cell rest ih =>
    obtain ⟨hleft, hrest⟩ := h
    rw [List.map_cons, Tiles, cell.left_inFrame, cell.right_inFrame, hleft]
    exact ⟨rfl, ih hrest⟩

/-- The largest extent is scaled as the cells are. -/
theorem largest_inFrame (hf : 0 ≤ f.scale) {extent : Box ℚ → ℚ}
    (hextent : ∀ b, extent (b.inFrame f) = extent b * f.scale) (least : ℚ)
    (cells : List (Cell ℚ)) :
    largest (least * f.scale) extent (cells.map (Cell.inFrame f)) =
      largest least extent cells * f.scale := by
  induction cells generalizing least with
  | nil => rfl
  | cons cell rest ih =>
    have hmax : max (least * f.scale) (extent (cell.inFrame f).box) =
        max least (extent cell.box) * f.scale := by
      rw [Cell.inFrame_eq, hextent, max_mul_of_nonneg _ _ hf]
    calc largest (least * f.scale) extent ((cell :: rest).map (Cell.inFrame f))
        = largest (max (least * f.scale) (extent (cell.inFrame f).box)) extent
            (rest.map (Cell.inFrame f)) := rfl
      _ = largest (max least (extent cell.box) * f.scale) extent
            (rest.map (Cell.inFrame f)) := by rw [hmax]
      _ = largest (max least (extent cell.box)) extent rest * f.scale := ih _

end Frames

/-! ## Rows grow by their cells -/

section Growing

variable {m : Metrics ℚ}

/-- No cell has a negative width. -/
theorem width_arrangeMark_nonneg (hm : m.Nonneg) (afterOperand : Bool) (mark : Mark) :
    0 ≤ (arrangeMark m afterOperand mark).box.width := by
  cases mark with
  | char c style =>
    have hside : 0 ≤ sideSpace m afterOperand c := by
      unfold sideSpace
      split
      · exact le_rfl
      · split
        · exact hm.operatorSpace
        · exact le_rfl
    have hwidth := hm.charWidth
    change 0 ≤ m.charWidth + 2 * sideSpace m afterOperand c
    linarith
  | bracket inner =>
    have hinner := (isRowBox_arrange hm inner).width
    have hbracket := hm.bracketWidth
    change 0 ≤ m.bracketWidth + (arrange m inner).box.width + m.bracketWidth
    linarith
  | lowered script | raised script | radical radicand => exact le_max_right _ _
  | fraction numerator denominator =>
    have hnumerator : 0 ≤ (arrange m numerator).box.width * m.fractionScale :=
      mul_nonneg (isRowBox_arrange hm numerator).width hm.fractionScale
    have hinside : 0 ≤ max ((arrange m numerator).box.width * m.fractionScale)
        ((arrange m denominator).box.width * m.fractionScale) := le_max_of_le_left hnumerator
    have hside := hm.fractionSidePadding
    have hjut := hm.fractionJut
    change 0 ≤ max ((arrange m numerator).box.width * m.fractionScale)
      ((arrange m denominator).box.width * m.fractionScale) +
        (m.fractionSidePadding + m.fractionJut) * 2
    linarith

/-- The row is the box with cells added to its right, in a frame where the box stands at the
origin. -/
structure Row.TiledFrom (box : Box ℚ) (row : Row ℚ) : Prop where
  baseline : ∀ cell ∈ row.cells, cell.box.y = 0
  size : ∀ cell ∈ row.cells, cell.box.scale = 1
  edges : Tiles box.width row.box.width row.cells
  height : row.box.height = largest box.height Box.height row.cells
  depth : row.box.depth = largest box.depth Box.depth row.cells

/-- A cell that is put where the row ends makes it longer by its width. -/
theorem width_union_shift (box : Box ℚ) {cell : Cell ℚ} (hx : cell.box.x = 0)
    (hwidth : 0 ≤ cell.box.width) :
    (box.union (cell.shift box.width).box).width = (cell.shift box.width).box.right := by
  change max (cell.box.width + (cell.box.x + box.width)) box.width =
    cell.box.x + box.width + cell.box.width
  rw [hx, zero_add, add_comm box.width]
  exact max_eq_left (le_add_of_nonneg_left hwidth)

theorem tiledFrom_arrangeFrom (hm : m.Nonneg) (afterOperand : Bool) (box : Box ℚ)
    (marks : List Mark) : (arrangeFrom m afterOperand box marks).TiledFrom box := by
  induction marks generalizing afterOperand box with
  | nil =>
    rw [arrangeFrom]
    exact ⟨List.forall_mem_nil _, List.forall_mem_nil _, rfl, rfl, rfl⟩
  | cons mark rest ih =>
    have hcell := isUnplaced_arrangeMark m afterOperand mark
    have hwidth := width_union_shift box hcell.x
      (width_arrangeMark_nonneg hm afterOperand mark)
    rw [arrangeFrom]
    set cell := (arrangeMark m afterOperand mark).shift box.width with hshift
    have hy : cell.box.y = 0 := hcell.y
    -- the row goes on from the box that this cell is added to
    obtain ⟨hbaseline, hsize, hedges, hheight, hdepth⟩ := ih (!mark.isOperator) (box.union cell.box)
    constructor
    case baseline => exact List.forall_mem_cons.2 ⟨hy, hbaseline⟩
    case size => exact List.forall_mem_cons.2 ⟨hcell.scale, hsize⟩
    case edges =>
      rw [hwidth] at hedges
      have hleft : cell.box.left = box.width := by
        rw [Box.left, hshift, Cell.shift, hcell.x, zero_add]
      exact ⟨hleft, hedges⟩
    case height =>
      have hunion : (box.union cell.box).height = max box.height cell.box.height := by
        rw [max_comm, ← sub_zero cell.box.height, ← hy]
        rfl
      rw [hunion] at hheight
      exact hheight
    case depth =>
      have hunion : (box.union cell.box).depth = max box.depth cell.box.depth := by
        rw [max_comm, ← add_zero cell.box.depth, ← hy]
        rfl
      rw [hunion] at hdepth
      exact hdepth

/-- A row that has grown from an empty line is tiled once it is closed: closing it gives a width
to a row without cells, and does nothing to another. -/
theorem Row.TiledFrom.tiled_close {row : Row ℚ} (h : row.TiledFrom (Box.line m))
    (hrow : row.box.IsUnplaced) : (row.close m).Tiled m := by
  obtain ⟨box, cells⟩ := row
  obtain ⟨hbaseline, hsize, hedges, hheight, hdepth⟩ := h
  have hlineHeight : box.scale * m.charHeight = (Box.line m).height := by
    rw [hrow.scale, one_mul]
    rfl
  have hlineDepth : box.scale * m.charDepth = (Box.line m).depth := by
    rw [hrow.scale, one_mul]
    rfl
  cases cells with
  | nil =>
    have hheight' : box.height = box.scale * m.charHeight := hheight.trans hlineHeight.symm
    have hdepth' : box.depth = box.scale * m.charDepth := hdepth.trans hlineDepth.symm
    have hwidth : m.emptyWidth = box.scale * m.emptyWidth := by rw [hrow.scale, one_mul]
    exact ⟨List.forall_mem_nil _, List.forall_mem_nil _, fun hne => absurd rfl hne, hheight',
      hdepth', fun _ => ⟨hwidth, hheight', hdepth'⟩⟩
  | cons cell rest =>
    constructor
    case baseline =>
      intro other hother
      exact (hbaseline other hother).trans hrow.y.symm
    case size =>
      intro other hother
      exact (hsize other hother).trans hrow.scale.symm
    case edges =>
      intro _
      have hright : box.right = box.width := by rw [Box.right, hrow.x, zero_add]
      have hleft : box.left = 0 := hrow.x
      change Tiles box.left box.right (cell :: rest)
      rw [hleft, hright]
      exact hedges
    case height =>
      change box.height = largest (box.scale * m.charHeight) Box.height (cell :: rest)
      rw [hlineHeight]
      exact hheight
    case depth =>
      change box.depth = largest (box.scale * m.charDepth) Box.depth (cell :: rest)
      rw [hlineDepth]
      exact hdepth
    case empty => exact fun hnil => absurd hnil (List.cons_ne_nil cell rest)

theorem tiled_arrange (hm : m.Nonneg) (marks : List Mark) : (arrange m marks).Tiled m :=
  (tiledFrom_arrangeFrom hm false (Box.line m) marks).tiled_close
    (frame_arrangeFrom m false (Box.line m) marks)

end Growing

/-! ## The rows of a layout -/

/-- A tiled row is tiled wherever it is drawn. -/
theorem Row.Tiled.inFrame {m : Metrics ℚ} {row : Row ℚ} (h : row.Tiled m)
    (hrow : row.box.IsUnplaced) {f : Frame ℚ} (hf : 0 ≤ f.scale) : (row.inFrame f).Tiled m := by
  have hdrawn : row.inFrame f = ⟨row.box.inFrame f, row.cells.map (Cell.inFrame f)⟩ := by
    rw [Row.inFrame_eq, hrow.frame_inFrame]
  have hline (length : ℚ) : (row.box.inFrame f).scale * length =
      row.box.scale * length * f.scale := by
    change row.box.scale * f.scale * length = _
    ring
  rw [hdrawn]
  constructor
  case baseline =>
    rw [List.forall_mem_map]
    intro cell hcell
    rw [Cell.inFrame_eq]
    exact congrArg (f.y + f.scale * ·) (h.baseline cell hcell)
  case size =>
    rw [List.forall_mem_map]
    intro cell hcell
    rw [Cell.inFrame_eq]
    exact congrArg (· * f.scale) (h.size cell hcell)
  case edges =>
    intro hne
    have hcells : row.cells ≠ [] := mt List.map_eq_nil_iff.2 hne
    have hleft : (row.box.inFrame f).left = f.x + f.scale * row.box.left :=
      congrArg Area.left (Box.area_inFrame f row.box)
    have hright : (row.box.inFrame f).right = f.x + f.scale * row.box.right :=
      congrArg Area.right (Box.area_inFrame f row.box)
    rw [hleft, hright]
    exact (h.edges hcells).inFrame
  case height =>
    rw [hline, largest_inFrame hf fun _ => rfl, ← h.height]
    rfl
  case depth =>
    rw [hline, largest_inFrame hf fun _ => rfl, ← h.depth]
    rfl
  case empty =>
    intro hnil
    obtain ⟨hwidth, hheight, hdepth⟩ := h.empty (List.map_eq_nil_iff.1 hnil)
    rw [hline, hline, hline, ← hwidth, ← hheight, ← hdepth]
    exact ⟨rfl, rfl, rfl⟩

/-- In a layout every row, at any depth, is tiled by its cells. -/
theorem tiled_of_mem_layout {m : Metrics ℚ} (hm : m.Nonneg) (fragments : List Fragment) :
    ∀ row ∈ (layout m fragments).rows, row.Tiled m := by
  intro row hrow
  obtain ⟨marks, f, hf, rfl⟩ := stands_of_mem_layout hm fragments row hrow
  exact (tiled_arrange hm marks).inFrame (isUnplaced_arrange m marks) hf

/-- The denominator of one over `2+y^3`: three characters and a script. -/
theorem tiled_denominator :
    (Metrics.standard : Metrics ℚ).Nonneg ∧
      ∃ row ∈ (layout (Metrics.standard : Metrics ℚ)
        [.fraction [.glyph "1" .upright]
          [.glyph "2" .upright, .operator '+',
            .power [.glyph "y" .italic] [.glyph "3" .upright]]]).rows,
        row.cells.length = 4 ∧ row.Tiled Metrics.standard := by
  have hlength : ((layout (Metrics.standard : Metrics ℚ)
      [.fraction [.glyph "1" .upright]
        [.glyph "2" .upright, .operator '+',
          .power [.glyph "y" .italic] [.glyph "3" .upright]]]).rows[2]?).map
      (fun row => row.cells.length) = some 4 := by decide +kernel
  obtain ⟨row, hrow, hcells⟩ := Option.map_eq_some_iff.1 hlength
  have hmem := List.mem_of_getElem? hrow
  exact ⟨Metrics.nonneg_standard, row, hmem, hcells,
    tiled_of_mem_layout Metrics.nonneg_standard _ row hmem⟩

end MathLine.Geometry
