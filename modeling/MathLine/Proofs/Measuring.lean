import MathLine.Geometry.Placement

set_option autoImplicit false

/-!
# Measuring in place

A row may be measured where it is kept: its boxes and rules are there from the start, and
measuring writes over what they held.  Then the order of things matters.  A union widens a box
that has just been reset, and has to come before the box is moved or scaled, or it would take
the extent of the other box from the wrong place.  Two assertions guard this: the box that a
union widens must be at the origin, and its scale must be one.

`Row.measure` measures in place, with the assertions.  It notes all boxes that it widens, and
stops where an assertion fails.  `run_layoutInPlace` says that none fails, whatever numbers the
metrics hold.  The boxes that are widened are at the origin with scale one, there is one for
each cell and one more for each script and root (`unionsInMarks`), and the row is drawn as
`layout` draws it.

`Measures` is what is shown of each part of a measurement.  It goes together along a sequence
of steps (`Measures.bind`), and only a union has an assertion to meet (`measures_widen`).
-/

namespace MathLine.Geometry

/-- What an assertion finds wrong with a box that is to be widened. -/
inductive Displacement (K : Type) where
  /-- the box is not at the origin -/
  | position (x y : K)
  /-- the scale of the box is not one -/
  | scale (scale : K)
  deriving Repr, Inhabited

/-- A measurement.  It keeps a list of the boxes it has widened, and may stop at one that is
displaced. -/
abbrev Measuring (K : Type) : Type → Type := StateT (List (Box K)) (Except (Displacement K))

/-! ## Rows and their marks -/

section Marks

variable {K : Type}

mutual

/-- The marks that a row is drawn from, whatever its measures. -/
def Row.marks : Row K → List Mark
  | ⟨_, cells⟩ => marksInCells cells

/-- The marks of a list of cells. -/
def marksInCells : List (Cell K) → List Mark
  | [] => []
  | cell :: rest => cell.mark :: marksInCells rest

/-- The mark of a cell. -/
def Cell.mark : Cell K → Mark
  | ⟨_, shape⟩ => shape.mark

/-- The mark of a shape. -/
def Shape.mark : Shape K → Mark
  | .char c style => .char c style
  | .bracket inner => .bracket inner.marks
  | .lowered script => .lowered script.marks
  | .raised script => .raised script.marks
  | .radical radicand _ => .radical radicand.marks
  | .fraction numerator denominator _ => .fraction numerator.marks denominator.marks

end

variable [Scalar K]

/-- A box before it is measured. -/
def Box.unmeasured : Box K := ofExtent Scalar.zero Scalar.zero Scalar.zero

/-- A rule before it is measured. -/
def Rule.unmeasured : Rule K := ⟨Scalar.zero, Scalar.zero, Scalar.zero⟩

mutual

/-- The cell of a mark before it is measured. -/
def Cell.unmeasured : Mark → Cell K
  | .char c style => ⟨.unmeasured, .char c style⟩
  | .bracket inner => ⟨.unmeasured, .bracket ⟨.unmeasured, unmeasuredCells inner⟩⟩
  | .lowered script => ⟨.unmeasured, .lowered ⟨.unmeasured, unmeasuredCells script⟩⟩
  | .raised script => ⟨.unmeasured, .raised ⟨.unmeasured, unmeasuredCells script⟩⟩
  | .radical radicand =>
    ⟨.unmeasured, .radical ⟨.unmeasured, unmeasuredCells radicand⟩ .unmeasured⟩
  | .fraction numerator denominator =>
    ⟨.unmeasured, .fraction ⟨.unmeasured, unmeasuredCells numerator⟩
      ⟨.unmeasured, unmeasuredCells denominator⟩ .unmeasured⟩

/-- The cells of a row of marks before they are measured. -/
def unmeasuredCells : List Mark → List (Cell K)
  | [] => []
  | mark :: rest => Cell.unmeasured mark :: unmeasuredCells rest

end

/-- The row of the given marks before it is measured. -/
def Row.unmeasured (marks : List Mark) : Row K := ⟨.unmeasured, unmeasuredCells marks⟩

mutual

theorem Cell.mark_unmeasured : ∀ mark : Mark, (Cell.unmeasured mark : Cell K).mark = mark
  | .char c style => by rw [Cell.unmeasured, Cell.mark, Shape.mark]
  | .bracket inner => by
    rw [Cell.unmeasured, Cell.mark, Shape.mark, Row.marks, marksInCells_unmeasuredCells]
  | .lowered script => by
    rw [Cell.unmeasured, Cell.mark, Shape.mark, Row.marks, marksInCells_unmeasuredCells]
  | .raised script => by
    rw [Cell.unmeasured, Cell.mark, Shape.mark, Row.marks, marksInCells_unmeasuredCells]
  | .radical radicand => by
    rw [Cell.unmeasured, Cell.mark, Shape.mark, Row.marks, marksInCells_unmeasuredCells]
  | .fraction numerator denominator => by
    rw [Cell.unmeasured, Cell.mark, Shape.mark, Row.marks, Row.marks, marksInCells_unmeasuredCells,
      marksInCells_unmeasuredCells]

theorem marksInCells_unmeasuredCells :
    ∀ marks : List Mark, marksInCells (unmeasuredCells marks : List (Cell K)) = marks
  | [] => by rw [unmeasuredCells, marksInCells]
  | mark :: rest => by
    rw [unmeasuredCells, marksInCells, Cell.mark_unmeasured, marksInCells_unmeasuredCells]

end

theorem Row.marks_unmeasured (marks : List Mark) : (unmeasured marks : Row K).marks = marks := by
  rw [unmeasured, Row.marks, marksInCells_unmeasuredCells]

end Marks

/-! ## Measuring -/

section Measuring

variable {K : Type} [Scalar K] [BEq K]

/-- The union of `b` with `other`, with its assertions on `b`. -/
def Box.widen (b other : Box K) : Measuring K (Box K) := do
  modify fun widened => widened ++ [b]
  unless b.x == Scalar.zero && b.y == Scalar.zero do
    throw (.position b.x b.y)
  unless b.scale == Scalar.one do
    throw (.scale b.scale)
  return b.union other

/-- A union comes to its end just when both assertions hold. -/
theorem Box.run_widen_eq_ok_iff {b other : Box K} {before : List (Box K)}
    {result : Box K × List (Box K)} :
    (b.widen other).run before = .ok result ↔
      ((b.x == Scalar.zero && b.y == Scalar.zero) = true ∧ (b.scale == Scalar.one) = true) ∧
        (b.union other, before ++ [b]) = result := by
  cases hposition : b.x == Scalar.zero && b.y == Scalar.zero with
  | false =>
    have hrun : (b.widen other).run before = .error (.position b.x b.y) := by
      simp only [widen, hposition]
      rfl
    simp [hrun]
  | true =>
    cases hscale : b.scale == Scalar.one with
    | false =>
      have hrun : (b.widen other).run before = .error (.scale b.scale) := by
        simp only [widen, hposition, hscale]
        rfl
      simp [hrun]
    | true =>
      have hrun : (b.widen other).run before = .ok (b.union other, before ++ [b]) := by
        simp only [widen, hposition, hscale]
        rfl
      simp [hrun]

mutual

/-- Measures a row in place. -/
def Row.measure (m : Metrics K) : Row K → Measuring K (Row K)
  | ⟨_, cells⟩ => do
    let row ← measureCells m false (Box.line m) cells
    return row.close m

/-- Measures the rest of a row in place, after cells that fill `box`. -/
def measureCells (m : Metrics K) (afterOperand : Bool) (box : Box K) :
    List (Cell K) → Measuring K (Row K)
  | [] => return ⟨box, []⟩
  | cell :: rest => do
    let measured ← cell.measure m afterOperand
    -- The cell is moved only now, when its own box is not widened any more.
    let measured := measured.shift box.width
    let box ← box.widen measured.box
    let row ← measureCells m (!cell.mark.isOperator) box rest
    return { row with cells := measured :: row.cells }

/-- Measures a cell in place; `afterOperand` says whether an operand stands before it. -/
def Cell.measure (m : Metrics K) (afterOperand : Bool) : Cell K → Measuring K (Cell K)
  | ⟨_, shape⟩ => shape.measure m afterOperand

/-- Measures a shape in place, in a cell that is as yet an empty line. -/
def Shape.measure (m : Metrics K) (afterOperand : Bool) : Shape K → Measuring K (Cell K)
  | .char c style => return charCell m afterOperand c style
  | .bracket inner => do
    let inner ← inner.measure m
    return bracketCell m inner
  | .lowered script => do
    let script ← script.measure m
    -- The unions inside the script are over, so its box may be scaled and moved.
    let scaled := script.box.scaleBy m.loweredScale
    let placed := { scaled with y := m.scriptMiddle + scaled.height }
    let box ← (Box.line m).widen placed
    return ⟨box, .lowered { script with box := placed }⟩
  | .raised script => do
    let script ← script.measure m
    let scaled := script.box.scaleBy m.raisedScale
    let placed := { scaled with y := m.scriptMiddle - scaled.depth }
    let box ← (Box.line m).widen placed
    return ⟨box, .raised { script with box := placed }⟩
  | .radical radicand _ => do
    let radicand ← radicand.measure m
    let placed := { radicand.box with x := m.radicalWidth + m.radicalJut }
    let overbar : Rule K :=
      { left := m.radicalWidth
        right := placed.right + m.radicalJut
        y := placed.top - m.radicalGap }
    let extent := Box.ofExtent (overbar.right + m.radicalRightPadding)
      (-overbar.y + m.radicalTopPadding) placed.bottom
    let box ← (Box.line m).widen extent
    return ⟨box, .radical { radicand with box := placed } overbar⟩
  | .fraction numerator denominator _ => do
    let numerator ← numerator.measure m
    let denominator ← denominator.measure m
    return fractionCell m numerator denominator

end

/-- The row of fragments as it is drawn on the page, measured in place. -/
def layoutInPlace (m : Metrics K) (fragments : List Fragment) : Measuring K (Row K) := do
  let row ← (Row.unmeasured (Mark.ofFragments fragments)).measure m
  return row.inFrame Frame.origin

/-! ## Unions -/

mutual

/-- How many unions it takes to measure a mark. -/
def Mark.unions : Mark → Nat
  | .char _ _ => 0
  | .bracket inner => unionsInMarks inner
  | .lowered script => unionsInMarks script + 1
  | .raised script => unionsInMarks script + 1
  | .radical radicand => unionsInMarks radicand + 1
  | .fraction numerator denominator => unionsInMarks numerator + unionsInMarks denominator

/-- How many unions it takes to measure a row of marks: those of each mark, and one with its
cell. -/
def unionsInMarks : List Mark → Nat
  | [] => 0
  | mark :: rest => mark.unions + (1 + unionsInMarks rest)

end

/-- The measurement comes to its end with `a` after `count` unions, and each of the boxes that
it widens is at the origin with scale one. -/
def Measures {α : Type} (x : Measuring K α) (a : α) (count : Nat) : Prop :=
  ∀ before, ∃ widened, x.run before = .ok (a, before ++ widened) ∧
    widened.length = count ∧ ∀ b ∈ widened, b.IsUnplaced

omit [BEq K] in
theorem Measures.pure {α : Type} (a : α) : Measures (Pure.pure a : Measuring K α) a 0 := by
  intro before
  refine ⟨[], ?_, rfl, fun b hb => absurd hb List.not_mem_nil⟩
  rw [List.append_nil]
  rfl

omit [BEq K] in
/-- One step after the other. -/
theorem Measures.bind {α β : Type} {x : Measuring K α} {f : α → Measuring K β} {a : α} {b : β}
    {count count' : Nat} (hx : Measures x a count) (hf : Measures (f a) b count') :
    Measures (x >>= f) b (count + count') := by
  intro before
  obtain ⟨widened, hrun, hlength, hwidened⟩ := hx before
  obtain ⟨widened', hrun', hlength', hwidened'⟩ := hf (before ++ widened)
  refine ⟨widened ++ widened', ?_, ?_, List.forall_mem_append.2 ⟨hwidened, hwidened'⟩⟩
  · rw [StateT.run_bind, hrun, ← List.append_assoc]
    exact hrun'
  · rw [List.length_append, hlength, hlength']

omit [BEq K] in
/-- A last step without unions. -/
theorem Measures.bind_pure {α β : Type} {x : Measuring K α} {a : α} {count : Nat}
    (hx : Measures x a count) (f : α → β) :
    Measures (x >>= fun a => Pure.pure (f a)) (f a) count := by
  rw [← Nat.add_zero count]
  exact hx.bind (.pure (f a))

/-- The test for equality finds zero and one equal to themselves.  There may be numbers that it
does not find equal to themselves. -/
structure KnowsUnits (K : Type) [Scalar K] [BEq K] : Prop where
  zero : (Scalar.zero == (Scalar.zero : K)) = true
  one : (Scalar.one == (Scalar.one : K)) = true

theorem knowsUnits_float : KnowsUnits Float := ⟨by decide, by decide⟩

/-- A box at the origin with scale one is widened. -/
theorem measures_widen (hunits : KnowsUnits K) {b : Box K} (hb : b.IsUnplaced) (other : Box K) :
    Measures (b.widen other) (b.union other) 1 := by
  have hx : b.x = Scalar.zero := congrArg Frame.x hb
  have hy : b.y = Scalar.zero := congrArg Frame.y hb
  have hscale : b.scale = Scalar.one := congrArg Frame.scale hb
  intro before
  refine ⟨[b], Box.run_widen_eq_ok_iff.2 ⟨⟨?position, ?scale⟩, rfl⟩, rfl,
    List.forall_mem_singleton.2 hb⟩
  case position => rw [hx, hy, hunits.zero, Bool.and_self]
  case scale => rw [hscale, hunits.one]

/-- A row is measured, and then its cell is widened, which is an empty line until then. -/
theorem Measures.widen_line {α : Type} (hunits : KnowsUnits K) (m : Metrics K)
    {x : Measuring K (Row K)} {row : Row K} {count : Nat} (hx : Measures x row count)
    (other : Row K → Box K) (f : Row K → Box K → α) :
    Measures (x >>= fun row => (Box.line m).widen (other row) >>= fun box => Pure.pure (f row box))
      (f row ((Box.line m).union (other row))) (count + 1) :=
  hx.bind ((measures_widen hunits (Box.isUnplaced_line m) (other row)).bind_pure (f row))

mutual

/-- A row is measured as it is arranged, whatever its boxes and rules held before. -/
theorem Row.measures_measure (hunits : KnowsUnits K) (m : Metrics K) :
    ∀ row : Row K, Measures (row.measure m) (arrange m row.marks) (unionsInMarks row.marks)
  | ⟨_, cells⟩ => by
    rw [Row.measure, Row.marks]
    exact (measures_measureCells hunits m false (Box.isUnplaced_line m) cells).bind_pure _

theorem measures_measureCells (hunits : KnowsUnits K) (m : Metrics K) (afterOperand : Bool)
    {box : Box K} (hbox : box.IsUnplaced) : ∀ cells : List (Cell K),
      Measures (measureCells m afterOperand box cells)
        (arrangeFrom m afterOperand box (marksInCells cells)) (unionsInMarks (marksInCells cells))
  | [] => by
    rw [measureCells, marksInCells, arrangeFrom, unionsInMarks]
    exact .pure _
  | cell :: rest => by
    rw [measureCells, marksInCells, arrangeFrom, unionsInMarks]
    -- The box of the row is widened, but stays where it is, and so can be widened again.
    have hunion := fun other => (Box.frame_union box other).trans hbox
    refine (Cell.measures_measure hunits m afterOperand cell).bind ?_
    refine (measures_widen hunits hbox _).bind ?_
    exact (measures_measureCells hunits m _ (hunion _) rest).bind_pure _

theorem Cell.measures_measure (hunits : KnowsUnits K) (m : Metrics K) (afterOperand : Bool) :
    ∀ cell : Cell K, Measures (cell.measure m afterOperand)
      (arrangeMark m afterOperand cell.mark) cell.mark.unions
  | ⟨_, shape⟩ => by
    rw [Cell.measure, Cell.mark]
    exact Shape.measures_measure hunits m afterOperand shape

theorem Shape.measures_measure (hunits : KnowsUnits K) (m : Metrics K) (afterOperand : Bool) :
    ∀ shape : Shape K, Measures (shape.measure m afterOperand)
      (arrangeMark m afterOperand shape.mark) shape.mark.unions
  | .char c style => by
    rw [Shape.measure, Shape.mark, arrangeMark, Mark.unions]
    exact .pure _
  | .bracket inner => by
    rw [Shape.measure, Shape.mark, arrangeMark, Mark.unions]
    exact (Row.measures_measure hunits m inner).bind_pure _
  | .lowered script => by
    rw [Shape.measure, Shape.mark, arrangeMark, Mark.unions]
    exact (Row.measures_measure hunits m script).widen_line hunits m _ _
  | .raised script => by
    rw [Shape.measure, Shape.mark, arrangeMark, Mark.unions]
    exact (Row.measures_measure hunits m script).widen_line hunits m _ _
  | .radical radicand _ => by
    rw [Shape.measure, Shape.mark, arrangeMark, Mark.unions]
    exact (Row.measures_measure hunits m radicand).widen_line hunits m _ _
  | .fraction numerator denominator _ => by
    rw [Shape.measure, Shape.mark, arrangeMark, Mark.unions]
    refine (Row.measures_measure hunits m numerator).bind ?_
    exact (Row.measures_measure hunits m denominator).bind_pure _

end

theorem measures_layoutInPlace (hunits : KnowsUnits K) (m : Metrics K)
    (fragments : List Fragment) :
    Measures (layoutInPlace m fragments) (layout m fragments)
      (unionsInMarks (Mark.ofFragments fragments)) := by
  have hrow := Row.measures_measure hunits m (Row.unmeasured (Mark.ofFragments fragments))
  rw [Row.marks_unmeasured] at hrow
  exact hrow.bind_pure _

end Measuring

/-- Whatever numbers the metrics hold, infinite ones and those that are not comparable among
them, no assertion fails while a row is measured in place: each box that is widened is at the
origin and has scale one.  What is drawn is the layout. -/
theorem run_layoutInPlace (m : Metrics Float) (fragments : List Fragment) :
    ∃ widened, (layoutInPlace m fragments).run [] = .ok (layout m fragments, widened) ∧
      widened.length = unionsInMarks (Mark.ofFragments fragments) ∧
        ∀ b ∈ widened, b.x = 0 ∧ b.y = 0 ∧ b.scale = 1 := by
  obtain ⟨widened, hrun, hlength, hwidened⟩ :=
    measures_layoutInPlace knowsUnits_float m fragments []
  refine ⟨widened, hrun, hlength, fun b hb => ?_⟩
  have hframe := hwidened b hb
  exact ⟨congrArg Frame.x hframe, congrArg Frame.y hframe, congrArg Frame.scale hframe⟩

end MathLine.Geometry
