import MathLine.Proofs.Fitting

set_option autoImplicit false

/-!
# Bars reach over their operands

The bar of a fraction lies on the baseline of its cell, between numerator and denominator, and
reaches over both to the left and to the right.  Numerator, denominator and bar have their
middle where the cell has its own.  The overbar of a root lies above the radicand, reaches over
it on both sides, and ends within the cell.  `Cell.BarsFit` says all this of a cell, and
`barsFit_of_mem_layout` says it of all cells of a layout, as long as no length and no factor is
negative.

For a cell that is still at the origin all this is arithmetic, on the widths that the operands
have after they are scaled.  A frame keeps it.
-/

namespace MathLine.Geometry

namespace Area

/-- The area `a` reaches at least as far to the left and to the right as `b`. -/
structure Spans (a b : Area) : Prop where
  left : a.left ≤ b.left
  right : b.right ≤ a.right

/-- The place halfway between the left edge and the right edge. -/
def middle (a : Area) : ℚ := (a.left + a.right) / 2

variable {a b : Area} {f : Frame ℚ}

theorem Spans.inFrame (hscale : 0 ≤ f.scale) (h : a.Spans b) :
    (a.inFrame f).Spans (b.inFrame f) where
  left := add_le_add_right (mul_le_mul_of_nonneg_left h.left hscale) _
  right := add_le_add_right (mul_le_mul_of_nonneg_left h.right hscale) _

theorem middle_inFrame (f : Frame ℚ) (a : Area) :
    (a.inFrame f).middle = f.x + f.scale * a.middle := by
  simp only [middle, inFrame]
  ring

end Area

/-- The bar of a fraction lies between its operands, reaches over them, and all three are
centred in the box of the cell. -/
structure BarFits (box : Box ℚ) (numerator denominator : Row ℚ) (bar : Rule ℚ) : Prop where
  /-- the bar lies on the baseline of the cell -/
  baseline : bar.y = box.y
  belowNumerator : numerator.box.area.Above bar.area
  aboveDenominator : bar.area.Above denominator.box.area
  spansNumerator : bar.area.Spans numerator.box.area
  spansDenominator : bar.area.Spans denominator.box.area
  within : bar.area.Within box.area
  numeratorMiddle : numerator.box.area.middle = box.area.middle
  denominatorMiddle : denominator.box.area.middle = box.area.middle
  barMiddle : bar.area.middle = box.area.middle

/-- The overbar of a root lies above the radicand, reaches over it and ends in the box of the
cell. -/
structure OverbarFits (box : Box ℚ) (radicand : Row ℚ) (overbar : Rule ℚ) : Prop where
  aboveRadicand : overbar.area.Above radicand.box.area
  spansRadicand : overbar.area.Spans radicand.box.area
  right : overbar.right ≤ box.right

/-- The bar of the cell, if it has one, fits what it belongs to. -/
def Cell.BarsFit : Cell ℚ → Prop
  | ⟨box, .fraction numerator denominator bar⟩ => BarFits box numerator denominator bar
  | ⟨box, .radical radicand overbar⟩ => OverbarFits box radicand overbar
  | _ => True

/-! ## Cells at the origin -/

section Arranged

variable {m : Metrics ℚ} (hm : m.Nonneg)
include hm

/-- The wider of numerator and denominator leaves the juts of the bar free on both sides, and
the other one leaves more. -/
theorem barsFit_fractionCell {numerator denominator : Row ℚ} (hnum : numerator.box.IsRowBox)
    (hden : denominator.box.IsRowBox) : (fractionCell m numerator denominator).BarsFit := by
  obtain ⟨-, -, hwithin, hbelow, habove⟩ := fitsIn_fractionCell hm hnum hden
  have hnumWidth : numerator.box.width * m.fractionScale ≤
      max (numerator.box.width * m.fractionScale) (denominator.box.width * m.fractionScale) :=
    le_max_left _ _
  have hdenWidth : denominator.box.width * m.fractionScale ≤
      max (numerator.box.width * m.fractionScale) (denominator.box.width * m.fractionScale) :=
    le_max_right _ _
  have hjut := hm.fractionJut
  refine ⟨rfl, hbelow, habove, ?spansNumerator, ?spansDenominator, hwithin, ?numerator,
    ?denominator, ?bar⟩
  case spansNumerator | spansDenominator =>
    constructor <;>
      simp only [Rule.area, Box.area, Box.left, Box.right, Box.scaleBy, scalar_two,
        scalar_larger] <;>
      linarith
  case numerator | denominator | bar =>
    simp only [Area.middle, Rule.area, Box.area, Box.left, Box.right, Box.scaleBy, Box.line,
      Box.ofExtent, scalar_zero, scalar_two, scalar_larger]
    ring

/-- The overbar begins where the root sign ends, and juts out to the right as it does to the
left. -/
theorem barsFit_radicalCell {radicand : Row ℚ} (h : radicand.box.IsRowBox) :
    (radicalCell m radicand).BarsFit := by
  obtain ⟨-, hwithin, habove⟩ := fitsIn_radicalCell hm h
  have hjut := hm.radicalJut
  refine ⟨habove, ?_, hwithin.right⟩
  constructor <;> simp only [Rule.area, Box.area, Box.left, Box.right] <;> linarith

theorem barsFit_arrangeMark (afterOperand : Bool) (mark : Mark) :
    (arrangeMark m afterOperand mark).BarsFit := by
  cases mark with
  | char _ _ | bracket _ | lowered _ | raised _ => exact trivial
  | radical radicand => exact barsFit_radicalCell hm (isRowBox_arrange hm radicand)
  | fraction numerator denominator =>
    exact barsFit_fractionCell hm (isRowBox_arrange hm numerator)
      (isRowBox_arrange hm denominator)

end Arranged

/-! ## In frames -/

section Frames

variable {f : Frame ℚ} (hf : 0 ≤ f.scale)
include hf

theorem BarFits.inFrame {box : Box ℚ} {numerator denominator : Row ℚ} {bar : Rule ℚ}
    (h : BarFits box numerator denominator bar) :
    BarFits (box.inFrame f) (numerator.inFrame f) (denominator.inFrame f) (bar.inFrame f) := by
  refine ⟨congrArg (f.y + f.scale * ·) h.baseline, ?belowNumerator, ?aboveDenominator,
    ?spansNumerator, ?spansDenominator, ?within, ?numeratorMiddle, ?denominatorMiddle,
    ?barMiddle⟩ <;>
    simp only [Row.area_inFrame, Box.area_inFrame, Rule.area_inFrame]
  case belowNumerator => exact h.belowNumerator.inFrame hf
  case aboveDenominator => exact h.aboveDenominator.inFrame hf
  case spansNumerator => exact h.spansNumerator.inFrame hf
  case spansDenominator => exact h.spansDenominator.inFrame hf
  case within => exact h.within.inFrame hf
  case numeratorMiddle => rw [Area.middle_inFrame, Area.middle_inFrame, h.numeratorMiddle]
  case denominatorMiddle => rw [Area.middle_inFrame, Area.middle_inFrame, h.denominatorMiddle]
  case barMiddle => rw [Area.middle_inFrame, Area.middle_inFrame, h.barMiddle]

theorem OverbarFits.inFrame {box : Box ℚ} {radicand : Row ℚ} {overbar : Rule ℚ}
    (h : OverbarFits box radicand overbar) :
    OverbarFits (box.inFrame f) (radicand.inFrame f) (overbar.inFrame f) := by
  constructor
  case aboveRadicand =>
    rw [Row.area_inFrame, Rule.area_inFrame]
    exact h.aboveRadicand.inFrame hf
  case spansRadicand =>
    rw [Row.area_inFrame, Rule.area_inFrame]
    exact h.spansRadicand.inFrame hf
  case right =>
    have hright : (box.inFrame f).right = f.x + f.scale * box.right :=
      congrArg Area.right (Box.area_inFrame f box)
    rw [hright]
    exact add_le_add_right (mul_le_mul_of_nonneg_left h.right hf) _

theorem Cell.BarsFit.inFrame {cell : Cell ℚ} (hcell : cell.box.IsUnplaced) (h : cell.BarsFit) :
    (cell.inFrame f).BarsFit := by
  rw [Cell.inFrame_of_isUnplaced hcell]
  obtain ⟨box, shape⟩ := cell
  cases shape with
  | char _ _ | bracket _ | lowered _ | raised _ => exact trivial
  | radical radicand overbar => exact OverbarFits.inFrame hf h
  | fraction numerator denominator bar => exact BarFits.inFrame hf h

end Frames

/-! ## The cells of a layout -/

/-- In a layout every bar and every overbar, at any depth, fits what it belongs to. -/
theorem barsFit_of_mem_layout {m : Metrics ℚ} (hm : m.Nonneg) (fragments : List Fragment) :
    ∀ row ∈ (layout m fragments).rows, ∀ cell ∈ row.cells, cell.BarsFit := by
  intro row hrow
  obtain ⟨marks, f, hf, rfl⟩ := stands_of_mem_layout hm fragments row hrow
  exact forall_cells_inFrame_arrange (barsFit_arrangeMark hm)
    (fun hcell hscale h => h.inFrame hscale hcell) marks hf

/-- A fraction under a root, of `a` over `b+1`. -/
def fractionUnderRoot : List Fragment :=
  [.radical [.fraction [.glyph "a" .italic]
    [.glyph "b" .italic, .operator '+', .glyph "1" .upright]]]

/-- The radicand has the fraction as its only cell, and the bar of it fits. -/
theorem barsFit_fractionUnderRoot :
    (Metrics.standard : Metrics ℚ).Nonneg ∧
      ∃ row ∈ (layout (Metrics.standard : Metrics ℚ) fractionUnderRoot).rows,
        ∃ box numerator denominator bar,
          row.cells = [⟨box, .fraction numerator denominator bar⟩] ∧
            BarFits box numerator denominator bar := by
  have hrow : (layout (Metrics.standard : Metrics ℚ) fractionUnderRoot).rows[1]? = some _ := rfl
  have hmem := List.mem_of_getElem? hrow
  exact ⟨Metrics.nonneg_standard, _, hmem, _, _, _, _, rfl,
    barsFit_of_mem_layout Metrics.nonneg_standard _ _ hmem _ List.mem_cons_self⟩

end MathLine.Geometry
