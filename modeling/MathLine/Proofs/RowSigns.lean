import MathLine.Fragment.Transcript
import MathLine.Proofs.Composition

set_option autoImplicit false

/-!
# Signs in rows

A plus or minus may stand between two operands or before a single one.  A transcript tells the
two apart by spaces, and a layout by the room that the sign gets.  The transcript looks at the
fragment before the sign, and the layout at the mark before it, and these need not be alike: a
glyph that looks like an operator sign is no operator to the transcript.

Both pass a flag along the row (`operandAfter`).  The flags are the same where the last mark of
each fragment is an operator just when the fragment is one (`Fragment.EndsAlike`), and then a
sign has room just when it has spaces (`RowSign.hasRoom_of_endsAlike`).

A layout is looked at here before its rows are placed and scaled.  Its rows are, one by one,
the rows inside its fragments, and each has the cells that it has alone (`hasCellsOf_arrange`).
-/

namespace MathLine

/-! ## Whether an operand stands before -/

/-- Whether an operand stands before what follows the parts of `row`, when `before` says whether
one stands before them. -/
def operandAfter {α : Type} (isOperator : α → Bool) (before : Bool) (row : List α) : Bool :=
  row.foldl (fun _ part => !isOperator part) before

section OperandAfter

variable {α : Type} (isOperator : α → Bool) (before : Bool)

@[simp] theorem operandAfter_nil : operandAfter isOperator before [] = before := rfl

@[simp] theorem operandAfter_cons (part : α) (row : List α) :
    operandAfter isOperator before (part :: row) =
      operandAfter isOperator (!isOperator part) row := rfl

/-- Only the last part counts. -/
@[simp] theorem operandAfter_concat (row : List α) (part : α) :
    operandAfter isOperator before (row ++ [part]) = !isOperator part := by
  rw [operandAfter, List.foldl_concat]

theorem operandAfter_append (row row' : List α) :
    operandAfter isOperator before (row ++ row') =
      operandAfter isOperator (operandAfter isOperator before row) row' :=
  List.foldl_append

end OperandAfter

namespace Fragment

theorem rowFrom_append (before : Bool) (front back : List Fragment) :
    rowFrom before (front ++ back) =
      rowFrom before front ++ rowFrom (operandAfter isOperator before front) back := by
  induction front generalizing before with
  | nil => rw [rowFrom, operandAfter_nil, List.nil_append, List.nil_append]
  | cons fragment front ih =>
    rw [List.cons_append, rowFrom, ih, rowFrom, operandAfter_cons, List.append_assoc]

end Fragment

namespace Geometry

theorem Mark.ofFragments_append (front back : List Fragment) :
    ofFragments (front ++ back) = ofFragments front ++ ofFragments back := by
  induction front with
  | nil => rw [ofFragments, List.nil_append, List.nil_append]
  | cons fragment front ih =>
    rw [List.cons_append, ofFragments, ih, ofFragments, List.append_assoc]

theorem cells_arrangeFrom_append {K : Type} [Scalar K] (m : Metrics K) (before : Bool)
    (box : Box K) (front back : List Mark) :
    (arrangeFrom m before box (front ++ back)).cells =
      (arrangeFrom m before box front).cells ++
        (arrangeFrom m (operandAfter Mark.isOperator before front)
          (arrangeFrom m before box front).box back).cells := by
  induction front generalizing before box with
  | nil => simp [arrangeFrom]
  | cons mark front ih => simp [arrangeFrom, ih]

end Geometry

/-! ## Signs in a row -/

/-- A plus or minus in a row of fragments. -/
structure RowSign (row : List Fragment) where
  front : List Fragment
  sign : Char
  back : List Fragment
  row_eq : row = front ++ .operator sign :: back
  isSignGlyph : Operator.isSignGlyph sign = true

namespace RowSign

open MathLine.Geometry

variable {row : List Fragment} (p : RowSign row)

/-- The row has the sign with a space on each side. -/
def IsSpaced : Prop :=
  Fragment.rowFrom false row =
    Fragment.rowFrom false p.front ++ [' ', p.sign, ' '] ++ Fragment.rowFrom false p.back

/-- The row has the sign without spaces. -/
def IsBare : Prop :=
  Fragment.rowFrom false row =
    Fragment.rowFrom false p.front ++ [p.sign] ++ Fragment.rowFrom false p.back

/-- How many marks stand before the sign. -/
def index : Nat := (Mark.ofFragments p.front).length

theorem not_isSpaced_of_isBare (h : p.IsBare) : ¬p.IsSpaced := by
  intro hspaced
  have hlength := congrArg List.length (h.symm.trans hspaced)
  simp at hlength

theorem rowFrom_eq :
    Fragment.rowFrom false row = Fragment.rowFrom false p.front ++
      (if operandAfter Fragment.isOperator false p.front then [' ', p.sign, ' '] else [p.sign]) ++
        Fragment.rowFrom false p.back := by
  rw [congrArg (Fragment.rowFrom false) p.row_eq, Fragment.rowFrom_append, Fragment.rowFrom,
    List.append_assoc]
  simp [Fragment.isOperator, Fragment.transcriptChars]

/-- An operator sign is spaced when it stands after an operand. -/
theorem isSpaced_of_operandAfter (h : operandAfter Fragment.isOperator false p.front = true) :
    p.IsSpaced := by
  rw [IsSpaced, p.rowFrom_eq, if_pos h]

theorem isBare_of_operandAfter (h : operandAfter Fragment.isOperator false p.front = false) :
    p.IsBare := by
  rw [IsBare, p.rowFrom_eq, if_neg (Bool.eq_false_iff.1 h)]

/-- The cell that the layout of the row has for the sign. -/
theorem exists_cell {K : Type} [Scalar K] (m : Metrics K) :
    ∃ distance, (arrange m (Mark.ofFragments row)).cells[p.index]? =
      some ((charCell m (operandAfter Mark.isOperator false (Mark.ofFragments p.front)) p.sign
        .upright).shift distance) := by
  have hmarks : Mark.ofFragments row =
      Mark.ofFragments p.front ++ .char p.sign .upright :: Mark.ofFragments p.back := by
    rw [congrArg Mark.ofFragments p.row_eq, Mark.ofFragments_append, Mark.ofFragments,
      Mark.ofFragment, List.singleton_append]
  have hplace := length_cells_arrangeFrom m false (Box.line m) (Mark.ofFragments p.front)
  rw [arrange, Row.cells_close, hmarks, cells_arrangeFrom_append, index,
    List.getElem?_append_right (Nat.le_of_eq hplace), hplace, Nat.sub_self, arrangeFrom,
    arrangeMark]
  exact ⟨_, rfl⟩

end RowSign

/-! ## Fragments that end as they look -/

/-- The last mark of the fragment is an operator just when the fragment is one. -/
def Fragment.EndsAlike (fragment : Fragment) : Prop :=
  ∃ front mark, Geometry.Mark.ofFragment fragment = front ++ [mark] ∧
    mark.isOperator = fragment.isOperator

open MathLine.Geometry in
/-- Where all fragments end as they look, it makes no difference whether one looks back at the
fragments or at their marks. -/
theorem operandAfter_ofFragments (before : Bool) {row : List Fragment}
    (h : ∀ fragment ∈ row, fragment.EndsAlike) :
    operandAfter Mark.isOperator before (Mark.ofFragments row) =
      operandAfter Fragment.isOperator before row := by
  induction row generalizing before with
  | nil => rw [Mark.ofFragments, operandAfter_nil, operandAfter_nil]
  | cons fragment row ih =>
    rw [List.forall_mem_cons] at h
    obtain ⟨⟨front, mark, hmarks, hmark⟩, hrow⟩ := h
    rw [Mark.ofFragments, operandAfter_append, hmarks, operandAfter_concat, hmark, ih _ hrow,
      operandAfter_cons]

/-! ## The rows of a layout before they are placed -/

namespace Geometry

section Arranged

variable {K : Type} [Scalar K] (m : Metrics K)

/-- The row has the cells that are arranged for the marks of `inner`. -/
def HasCellsOf (inner : List Place × List Mark) (row : Row K) : Prop :=
  row.cells = (arrange m inner.2).cells

variable {m} in
/-- A row of marks and the rows inside it, wherever the box of the row stands. -/
theorem hasCellsOf_rows {marks : List Mark}
    (h : ∀ path, List.Forall₂ (HasCellsOf m) (rowsInMarks path marks)
      (rowsInCells (arrangeFrom m false (Box.line m) marks).cells))
    (path : List Place) (box : Box K) :
    List.Forall₂ (HasCellsOf m) ((path, marks) :: rowsInMarks path marks)
      (Row.rows { (arrangeFrom m false (Box.line m) marks).close m with box := box }) := by
  rw [Row.rows_eq]
  exact .cons rfl (h path)

theorem hasCellsOf_arranged :
    (∀ afterOperand mark path, List.Forall₂ (HasCellsOf m) (Mark.rows path mark)
      (arrangeMark m afterOperand mark).shape.rows) ∧
      ∀ afterOperand box marks path, List.Forall₂ (HasCellsOf m) (rowsInMarks path marks)
        (rowsInCells (arrangeFrom m afterOperand box marks).cells) := by
  refine arrangeMark.mutual_induct m
    (fun afterOperand mark => ∀ path, List.Forall₂ (HasCellsOf m) (Mark.rows path mark)
      (arrangeMark m afterOperand mark).shape.rows)
    (fun afterOperand box marks => ∀ path,
      List.Forall₂ (HasCellsOf m) (rowsInMarks path marks)
        (rowsInCells (arrangeFrom m afterOperand box marks).cells))
    ?char ?bracket ?lowered ?raised ?radical ?fraction ?nil ?cons
  case char =>
    intro _ c style path
    rw [Mark.rows, arrangeMark, charCell, Shape.rows]
    exact .nil
  case bracket =>
    intro _ inner hinner path
    rw [Mark.rows, arrangeMark, bracketCell, Shape.rows]
    exact hasCellsOf_rows hinner _ _
  case lowered =>
    intro _ script hscript path
    rw [Mark.rows, arrangeMark, loweredCell, Shape.rows]
    exact hasCellsOf_rows hscript _ _
  case raised =>
    intro _ script hscript path
    rw [Mark.rows, arrangeMark, raisedCell, Shape.rows]
    exact hasCellsOf_rows hscript _ _
  case radical =>
    intro _ radicand hradicand path
    rw [Mark.rows, arrangeMark, radicalCell, Shape.rows]
    exact hasCellsOf_rows hradicand _ _
  case fraction =>
    intro _ numerator denominator hnumerator hdenominator path
    rw [Mark.rows, arrangeMark, fractionCell, Shape.rows]
    exact List.rel_append (hasCellsOf_rows hnumerator _ _) (hasCellsOf_rows hdenominator _ _)
  case nil =>
    intro _ box path
    rw [rowsInMarks, arrangeFrom, rowsInCells]
    exact .nil
  case cons =>
    intro _ box mark rest _ hmark hrest path
    rw [rowsInMarks, arrangeFrom, rowsInCells]
    exact List.rel_append (hmark path) (hrest path)

/-- The rows of an arranged row are, one by one, the rows inside its fragments, and each has the
cells that are arranged for it alone. -/
theorem hasCellsOf_arrange (fragments : List Fragment) :
    List.Forall₂ (fun inner row => row.cells = (arrange m (Mark.ofFragments inner.2)).cells)
      (([], fragments) :: rowsInFragments [] fragments)
      (arrange m (Mark.ofFragments fragments)).rows := by
  have hinside := (hasCellsOf_arranged m).2 false (Box.line m) (Mark.ofFragments fragments)
  have hrows : List.Forall₂ (HasCellsOf m)
      ((([], fragments) :: rowsInFragments [] fragments).map (Prod.map id Mark.ofFragments))
      (arrange m (Mark.ofFragments fragments)).rows := by
    rw [List.map_cons, ← rowsInMarks_ofFragments]
    exact hasCellsOf_rows hinside [] _
  exact List.forall₂_map_left_iff.1 hrows

end Arranged

end Geometry

/-! ## Spaces and room -/

theorem Operator.isGlyph_of_isSignGlyph {c : Char} (h : isSignGlyph c = true) :
    isGlyph c = true := by
  rw [isSignGlyph, Bool.or_eq_true, beq_iff_eq, beq_iff_eq] at h
  rcases h with rfl | rfl <;> decide

namespace RowSign

open MathLine.Geometry

variable {row : List Fragment} (p : RowSign row)

/-- The cell is that of the sign in an arranged row. -/
def HasCell {K : Type} (arranged : Row K) (cell : Cell K) : Prop :=
  arranged.cells[p.index]? = some cell ∧ cell.shape = .char p.sign .upright

/-- Either the sign is written with spaces and is arranged with room on both sides, or it is
written without and has no room. -/
def HasRoom {K : Type} [Scalar K] (m : Metrics K) (arranged : Row K) : Prop :=
  ∃ cell, p.HasCell arranged cell ∧
    (p.IsSpaced ∧ cell.box.width = m.charWidth + Scalar.two * m.operatorSpace ∨
      p.IsBare ∧ cell.box.width = m.charWidth + Scalar.two * Scalar.zero)

/-- The width of the sign tells how it is written. -/
def ShowsWidth (m : Metrics ℚ) (arranged : Row ℚ) : Prop :=
  ∃ cell, p.HasCell arranged cell ∧
    (p.IsSpaced ↔ cell.box.width = m.charWidth + 2 * m.operatorSpace) ∧
      (p.IsBare ↔ cell.box.width = m.charWidth)

variable {p}

/-- If there is any room around operators, one sees it. -/
theorem HasRoom.showsWidth {m : Metrics ℚ} {arranged : Row ℚ} (h : p.HasRoom m arranged)
    (hspace : m.operatorSpace ≠ 0) : p.ShowsWidth m arranged := by
  obtain ⟨cell, hcell, ⟨hspaced, hwidth⟩ | ⟨hbare, hwidth⟩⟩ := h
  · have hbare : ¬p.IsBare := fun hbare => p.not_isSpaced_of_isBare hbare hspaced
    have hwidth' : cell.box.width = m.charWidth + 2 * m.operatorSpace := hwidth
    refine ⟨cell, hcell, iff_of_true hspaced hwidth', iff_of_false hbare ?_⟩
    simpa [hwidth'] using hspace
  · have hwidth' : cell.box.width = m.charWidth := hwidth.trans (by simp [Scalar.zero])
    refine ⟨cell, hcell, iff_of_false (p.not_isSpaced_of_isBare hbare) ?_,
      iff_of_true hbare hwidth'⟩
    simpa [hwidth'] using hspace

variable (p)

/-- A sign has room just when it is written with spaces, where fragments end as they look. -/
theorem hasRoom_of_endsAlike {K : Type} [Scalar K] (m : Metrics K) {arranged : Row K}
    (hends : ∀ fragment ∈ row, fragment.EndsAlike)
    (hcells : arranged.cells = (arrange m (Mark.ofFragments row)).cells) :
    p.HasRoom m arranged := by
  obtain ⟨distance, hcell⟩ := p.exists_cell m
  have hfront : ∀ fragment ∈ p.front, fragment.EndsAlike := by
    intro fragment hmem
    apply hends fragment
    rw [p.row_eq]
    exact List.mem_append_left _ hmem
  rw [operandAfter_ofFragments false hfront, ← hcells] at hcell
  refine ⟨_, ⟨hcell, rfl⟩, ?_⟩
  cases hafter : operandAfter Fragment.isOperator false p.front with
  | true =>
    refine .inl ⟨p.isSpaced_of_operandAfter hafter, ?_⟩
    have hglyph := Operator.isGlyph_of_isSignGlyph p.isSignGlyph
    simp [Cell.shift, charCell, sideSpace, hglyph]
  | false =>
    refine .inr ⟨p.isBare_of_operandAfter hafter, ?_⟩
    simp [Cell.shift, charCell, sideSpace, p.isSignGlyph]

end RowSign

end MathLine
