import MathLine.Proofs.Fitting

set_option autoImplicit false

/-!
# Ink

What is drawn of a layout in the end are characters and rules, and `Row.ink` lists them in
reading order.  `clear_layout` says that none is drawn over another: the boxes of two
characters have no point inside both, and no rule runs through the inside of a box.

Since rows fit, what is drawn of a row lies within it, and any two things in it are apart
(`Tidy`).  The induction is over rows at every depth: cells of one row stand beside each
other, and the rows and rules in one cell above each other.
-/

namespace MathLine.Geometry

/-! ## What is drawn -/

/-- A character in its box, or a rule. -/
inductive Ink (K : Type) where
  | glyph (c : Char) (style : Style) (box : Box K)
  | rule (line : Rule K)

section Drawn

variable {K : Type}

mutual

/-- What is drawn of a row, in reading order. -/
def Row.ink : Row K → List (Ink K)
  | ⟨_, cells⟩ => inkInCells cells

/-- What is drawn of a list of cells. -/
def inkInCells : List (Cell K) → List (Ink K)
  | [] => []
  | cell :: rest => cell.ink ++ inkInCells rest

/-- What is drawn of a cell. -/
def Cell.ink : Cell K → List (Ink K)
  | ⟨box, shape⟩ => shape.ink box

/-- What is drawn of a shape in the box of its cell. -/
def Shape.ink (box : Box K) : Shape K → List (Ink K)
  | .char c style => [.glyph c style box]
  | .bracket inner => inner.ink
  | .lowered script => script.ink
  | .raised script => script.ink
  | .radical radicand overbar => .rule overbar :: radicand.ink
  | .fraction numerator denominator bar => numerator.ink ++ .rule bar :: denominator.ink

end

theorem inkInCells_eq (cells : List (Cell K)) : inkInCells cells = cells.flatMap Cell.ink := by
  induction cells with
  | nil => rw [inkInCells, List.flatMap_nil]
  | cons cell rest ih => rw [inkInCells, ih, List.flatMap_cons]

theorem Row.ink_eq (row : Row K) : row.ink = row.cells.flatMap Cell.ink := by
  cases row
  rw [ink, inkInCells_eq]

end Drawn

namespace Ink

/-- The area that is drawn on. -/
def area : Ink ℚ → Area
  | glyph _ _ box => box.area
  | rule line => line.area

/-- Neither is drawn over the other: two boxes have no point inside both, and no point of a
rule is inside a box. -/
def Clear : Ink ℚ → Ink ℚ → Prop
  | glyph _ _ a, glyph _ _ b => ∀ x y, ¬(a.area.HasInside x y ∧ b.area.HasInside x y)
  | glyph _ _ a, rule line | rule line, glyph _ _ a =>
    ∀ x, line.left ≤ x → x ≤ line.right → ¬a.area.HasInside x line.y
  | rule _, rule _ => True

/-- Things on areas that are apart are not drawn over each other. -/
theorem clear_of_apart {a b : Ink ℚ} (h : a.area.Apart b.area) : a.Clear b := by
  cases a with
  | glyph _ _ box =>
    cases b with
    | glyph _ _ other =>
      rintro x y ⟨hbox, hother⟩
      exact h.not_hasInside hbox hother.left.le hother.right.le hother.top.le hother.bottom.le
    | rule line =>
      intro x hleft hright hbox
      exact h.not_hasInside hbox hleft hright le_rfl le_rfl
  | rule line =>
    cases b with
    | glyph _ _ box =>
      intro x hleft hright hbox
      exact h.symm.not_hasInside hbox hleft hright le_rfl le_rfl
    | rule _ => exact trivial

end Ink

/-! ## Tidy drawings -/

/-- What is drawn lies within the area `outer`, and any two things in it are apart. -/
structure Tidy (outer : Area) (ink : List (Ink ℚ)) : Prop where
  within : ∀ i ∈ ink, i.area.Within outer
  apart : ink.Pairwise fun i j => i.area.Apart j.area

namespace Tidy

variable {a b outer : Area} {s t : List (Ink ℚ)}

theorem mono (h : Tidy a s) (ha : a.Within outer) : Tidy outer s :=
  ⟨fun i hi => (h.within i hi).trans ha, h.apart⟩

theorem singleton (i : Ink ℚ) : Tidy i.area [i] :=
  ⟨by simp [Area.Within.refl], List.pairwise_singleton _ _⟩

/-- Drawings on areas that are apart, within one. -/
theorem append (hs : Tidy a s) (ht : Tidy b t) (hapart : a.Apart b) (ha : a.Within outer)
    (hb : b.Within outer) : Tidy outer (s ++ t) where
  within := by
    rw [List.forall_mem_append]
    exact ⟨(hs.mono ha).within, (ht.mono hb).within⟩
  apart := by
    rw [List.pairwise_append]
    refine ⟨hs.apart, ht.apart, ?_⟩
    intro i hi j hj
    exact hapart.mono (hs.within i hi) (ht.within j hj)

end Tidy

/-- A row is drawn tidily if all cells in it are. -/
theorem Row.Fits.tidy {row : Row ℚ} (h : row.Fits)
    (hcells : ∀ cell ∈ row.cells, Tidy cell.box.area cell.ink) :
    Tidy row.box.area (row.cells.flatMap Cell.ink) where
  within := by
    intro i hi
    obtain ⟨cell, hcell, hi⟩ := List.mem_flatMap.1 hi
    exact ((hcells cell hcell).within i hi).trans (h.within cell hcell)
  apart := by
    rw [List.pairwise_flatMap]
    refine ⟨fun cell hcell => (hcells cell hcell).apart, ?_⟩
    refine h.inOrder.imp_of_mem fun {a b} ha hb hbefore i hi j hj => ?_
    exact Area.Apart.mono (.inl hbefore) ((hcells a ha).within i hi) ((hcells b hb).within j hj)

/-- A shape is drawn tidily if all rows right inside it are. -/
theorem Shape.FitsIn.tidy {box : Box ℚ} {shape : Shape ℚ} (h : shape.FitsIn box.area)
    (hrows : ∀ row ∈ shape.childRows, Tidy row.box.area row.ink) :
    Tidy box.area (shape.ink box) := by
  cases shape with
  | char c style => exact .singleton (.glyph c style box)
  | bracket row | lowered row | raised row =>
    rw [Shape.childRows, List.forall_mem_singleton] at hrows
    rw [Shape.ink]
    exact hrows.mono h
  | radical radicand overbar =>
    obtain ⟨hradicand, hoverbar, habove⟩ := h
    rw [Shape.childRows, List.forall_mem_singleton] at hrows
    rw [Shape.ink]
    exact (Tidy.singleton (.rule overbar)).append hrows (.inr (.inr (.inl habove))) hoverbar
      hradicand
  | fraction numerator denominator bar =>
    obtain ⟨hnumerator, hdenominator, hbar, habove, hbelow⟩ := h
    rw [Shape.childRows, List.forall_mem_cons, List.forall_mem_singleton] at hrows
    obtain ⟨hnum, hden⟩ := hrows
    -- the part of the cell from the bar down
    let lower : Area := { box.area with top := bar.y }
    have hlower : Tidy lower (.rule bar :: denominator.ink) :=
      (Tidy.singleton (.rule bar)).append hden (.inr (.inr (.inl hbelow)))
        ⟨hbar.left, le_rfl, hbar.right, hbar.bottom⟩
        ⟨hdenominator.left, hbelow, hdenominator.right, hdenominator.bottom⟩
    rw [Shape.ink]
    exact hnum.append hlower (.inr (.inr (.inl habove))) hnumerator
      ⟨le_rfl, hbar.top, le_rfl, le_rfl⟩

/-- If rows fit at every depth, they are drawn tidily, and so are their cells. -/
theorem tidy_ink :
    (∀ row : Row ℚ, (∀ r ∈ row.rows, r.Fits) → Tidy row.box.area row.ink) ∧
      ∀ cell : Cell ℚ, (∀ r ∈ cell.rows, r.Fits) → cell.shape.FitsIn cell.box.area →
        Tidy cell.box.area cell.ink := by
  refine induction_of_fits ?row ?cell
  case row =>
    intro row hfits hcells
    rw [Row.ink_eq]
    exact hfits.tidy hcells
  case cell =>
    rintro ⟨box, shape⟩ hfits hrows
    rw [Cell.ink]
    exact hfits.tidy hrows

/-- No two things in a layout are drawn over each other. -/
theorem clear_layout {m : Metrics ℚ} (hm : m.Nonneg) (fragments : List Fragment) :
    (layout m fragments).ink.Pairwise Ink.Clear :=
  (tidy_ink.1 _ (fits_of_mem_layout hm fragments)).apart.imp Ink.clear_of_apart

/-- A fraction of a root over a power, in the metrics that are used. -/
theorem clear_nested_layout :
    (Metrics.standard : Metrics ℚ).Nonneg ∧
      (layout (Metrics.standard : Metrics ℚ)
        [.fraction [.radical [.glyph "x" .italic]]
          [.power [.glyph "y" .italic] [.glyph "2" .upright]]]).ink.Pairwise Ink.Clear :=
  ⟨Metrics.nonneg_standard, clear_layout Metrics.nonneg_standard _⟩

end MathLine.Geometry
