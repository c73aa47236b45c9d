import MathLine.Proofs.Ink

set_option autoImplicit false

/-!
# Every box holds what is drawn in it

In a layout the box of a row holds the boxes of its cells, and the box of a cell holds the rows
and rules right inside it.  So the outermost box holds the rows at every depth, and everything
that is drawn.  `Row.Holds` says all this, and `holds_layout` that it is so in every layout, as
long as no length and no factor is negative.

Each step of the way down is a row that fits, and the way down is the induction over rows that
fit at every depth (`induction_of_fits`).
-/

namespace MathLine.Geometry

/-- Every box in the drawing of a row holds what is drawn in it. -/
structure Row.Holds (outermost : Row ℚ) : Prop where
  /-- a row holds its cells -/
  cells : ∀ row ∈ outermost.rows, ∀ cell ∈ row.cells, cell.box.area.Within row.box.area
  /-- a cell holds the rows right inside it -/
  innerRows : ∀ row ∈ outermost.rows, ∀ cell ∈ row.cells, ∀ inner ∈ cell.shape.childRows,
    inner.box.area.Within cell.box.area
  /-- a cell holds its rules -/
  rules : ∀ row ∈ outermost.rows, ∀ cell ∈ row.cells, ∀ rule ∈ cell.shape.rules,
    rule.area.Within cell.box.area
  /-- the outermost row holds the rows at every depth -/
  rows : ∀ row ∈ outermost.rows, row.box.area.Within outermost.box.area
  /-- the outermost row holds all characters and rules -/
  ink : ∀ ink ∈ outermost.ink, ink.area.Within outermost.box.area

theorem Shape.FitsIn.childRows {shape : Shape ℚ} {outer : Area} (h : shape.FitsIn outer) :
    ∀ row ∈ shape.childRows, row.box.area.Within outer := by
  cases shape with
  | char c style => exact List.forall_mem_nil _
  | bracket row | lowered row | raised row => exact List.forall_mem_singleton.2 h
  | radical radicand overbar => exact List.forall_mem_singleton.2 h.1
  | fraction numerator denominator bar =>
    obtain ⟨hnumerator, hdenominator, -⟩ := h
    exact List.forall_mem_cons.2 ⟨hnumerator, List.forall_mem_singleton.2 hdenominator⟩

theorem Shape.FitsIn.rules {shape : Shape ℚ} {outer : Area} (h : shape.FitsIn outer) :
    ∀ rule ∈ shape.rules, rule.area.Within outer := by
  cases shape with
  | char c style => exact List.forall_mem_nil _
  | bracket row | lowered row | raised row => exact List.forall_mem_nil _
  | radical radicand overbar => exact List.forall_mem_singleton.2 h.2.1
  | fraction numerator denominator bar => exact List.forall_mem_singleton.2 h.2.2.1

/-- If rows fit at every depth, a row holds all rows inside it, and so does a cell. -/
theorem within_of_fits :
    (∀ row : Row ℚ, (∀ r ∈ row.rows, r.Fits) →
      ∀ inner ∈ row.rows, inner.box.area.Within row.box.area) ∧
      ∀ cell : Cell ℚ, (∀ r ∈ cell.rows, r.Fits) → cell.shape.FitsIn cell.box.area →
        ∀ inner ∈ cell.rows, inner.box.area.Within cell.box.area := by
  refine induction_of_fits ?row ?cell
  case row =>
    intro row hfits hcells
    rw [Row.rows_eq, rowsInCells_eq, List.forall_mem_cons]
    refine ⟨.refl _, ?_⟩
    intro inner hinner
    obtain ⟨cell, hcell, hinner⟩ := List.mem_flatMap.1 hinner
    exact (hcells cell hcell inner hinner).trans (hfits.within cell hcell)
  case cell =>
    rintro ⟨box, shape⟩ hfits hrows inner hinner
    rw [Cell.rows, Shape.rows_eq] at hinner
    obtain ⟨row, hrow, hinner⟩ := List.mem_flatMap.1 hinner
    exact (hrows row hrow inner hinner).trans (hfits.childRows row hrow)

/-- Every box of a layout holds what is drawn in it. -/
theorem holds_layout {m : Metrics ℚ} (hm : m.Nonneg) (fragments : List Fragment) :
    (layout m fragments).Holds := by
  have hfits := fits_of_mem_layout hm fragments
  constructor
  case cells =>
    intro row hrow cell hcell
    exact (hfits row hrow).within cell hcell
  case innerRows =>
    intro row hrow cell hcell
    exact ((hfits row hrow).shapes cell hcell).childRows
  case rules =>
    intro row hrow cell hcell
    exact ((hfits row hrow).shapes cell hcell).rules
  case rows => exact within_of_fits.1 _ hfits
  case ink => exact (tidy_ink.1 _ hfits).within

/-- A fraction of a root over a power, in the metrics that are used. -/
theorem holds_nested_layout :
    (Metrics.standard : Metrics ℚ).Nonneg ∧
      (layout (Metrics.standard : Metrics ℚ)
        [.fraction [.radical [.glyph "x" .italic]]
          [.power [.glyph "y" .italic] [.glyph "2" .upright]]]).rows.length = 5 ∧
      (layout (Metrics.standard : Metrics ℚ)
        [.fraction [.radical [.glyph "x" .italic]]
          [.power [.glyph "y" .italic] [.glyph "2" .upright]]]).Holds :=
  ⟨Metrics.nonneg_standard, by decide +kernel, holds_layout Metrics.nonneg_standard _⟩

end MathLine.Geometry
