import MathLine.Fragment.Transcript
import MathLine.Proofs.Ink

set_option autoImplicit false

/-!
# The characters that are drawn

A layout and a transcript show the same row of fragments, one by where things stand and the
other by signs: spaces, brackets, `/`, `^`, `_` and `√`.  But for these signs, they have the
same characters in the same order.  `characters_layout` says so for any fragments, any metrics
and any scalars, floating point numbers among them.

Two recursions meet here that take a row apart in different ways.  The marks of the row stand
between them: arranging and placing the marks keeps their characters (`chars_arrangeMark`,
`chars_inFrame`), and the transcript has the same ones (`characters_ofFragments`).
-/

namespace MathLine

/-- Whether `c` is a sign by which a transcript shows where things stand. -/
def isLayoutSign (c : Char) : Bool := List.elem c [' ', '(', ')', '/', '^', '_', '√']

/-- The characters of `s` that are no layout signs. -/
def withoutLayoutSigns (s : List Char) : List Char := s.filter fun c => !isLayoutSign c

@[simp] theorem withoutLayoutSigns_append (s t : List Char) :
    withoutLayoutSigns (s ++ t) = withoutLayoutSigns s ++ withoutLayoutSigns t :=
  List.filter_append s t

@[simp] theorem withoutLayoutSigns_nil : withoutLayoutSigns [] = [] := rfl

theorem withoutLayoutSigns_cons {c : Char} (s : List Char) (h : isLayoutSign c = true) :
    withoutLayoutSigns (c :: s) = withoutLayoutSigns s :=
  List.filter_cons_of_neg (by simp [h])

namespace Geometry

/-! ## Characters of marks -/

mutual

/-- The characters of a mark in reading order. -/
def Mark.chars : Mark → List Char
  | .char c _ => [c]
  | .bracket row | .lowered row | .raised row | .radical row => charsInMarks row
  | .fraction numerator denominator => charsInMarks numerator ++ charsInMarks denominator

/-- The characters of a list of marks. -/
def charsInMarks : List Mark → List Char
  | [] => []
  | mark :: rest => mark.chars ++ charsInMarks rest

end

/-! ## Characters of drawings -/

/-- The character that is drawn, if it is one. -/
def Ink.char? {K : Type} : Ink K → Option Char
  | glyph c _ _ => some c
  | rule _ => none

/-- The characters of a drawing in reading order. -/
def Row.chars {K : Type} (row : Row K) : List Char := row.ink.filterMap Ink.char?

section Arranging

variable {K : Type} [Scalar K]

/-- Placing a row on the page keeps its characters. -/
theorem chars_inFrame :
    (∀ (f : Frame K) (row : Row K), (row.inFrame f).ink.filterMap Ink.char? =
      row.ink.filterMap Ink.char?) ∧
      (∀ (f : Frame K) (cells : List (Cell K)),
        (inkInCells (cellsInFrame f cells)).filterMap Ink.char? =
          (inkInCells cells).filterMap Ink.char?) ∧
        (∀ (f : Frame K) (cell : Cell K), (cell.inFrame f).ink.filterMap Ink.char? =
          cell.ink.filterMap Ink.char?) ∧
          ∀ (f : Frame K) (shape : Shape K) (box box' : Box K),
            ((shape.inFrame f).ink box').filterMap Ink.char? =
              (shape.ink box).filterMap Ink.char? := by
  refine Row.inFrame.mutual_induct
    (fun f row => (row.inFrame f).ink.filterMap Ink.char? = row.ink.filterMap Ink.char?)
    (fun f cells => (inkInCells (cellsInFrame f cells)).filterMap Ink.char? =
      (inkInCells cells).filterMap Ink.char?)
    (fun f cell => (cell.inFrame f).ink.filterMap Ink.char? = cell.ink.filterMap Ink.char?)
    (fun f shape => ∀ box box' : Box K, ((shape.inFrame f).ink box').filterMap Ink.char? =
      (shape.ink box).filterMap Ink.char?)
    ?row ?cell ?char ?bracket ?lowered ?raised ?radical ?fraction ?nil ?cons
  case row =>
    intro f box cells ih
    rw [Row.inFrame, Row.ink, ih, Row.ink]
  case cell =>
    intro f box shape ih
    rw [Cell.inFrame, Cell.ink, Cell.ink]
    exact ih box _
  case char =>
    intro f c style box box'
    rw [Shape.inFrame]
    rfl
  case bracket | lowered | raised =>
    intro f row ih box box'
    rw [Shape.inFrame, Shape.ink, ih, Shape.ink]
  case radical =>
    intro f radicand overbar ih box box'
    rw [Shape.inFrame, Shape.ink, Shape.ink, List.filterMap_cons, List.filterMap_cons, ih]
    rfl
  case fraction =>
    intro f numerator denominator bar hnumerator hdenominator box box'
    simp only [Shape.inFrame, Shape.ink, List.filterMap_append, List.filterMap_cons, hnumerator,
      hdenominator, Ink.char?]
  case nil =>
    intro f
    rw [cellsInFrame]
  case cons =>
    intro f cell rest hcell hrest
    rw [cellsInFrame, inkInCells, inkInCells, List.filterMap_append, List.filterMap_append, hcell,
      hrest]

/-- Arranging marks keeps their characters. -/
theorem chars_arrangeMark (m : Metrics K) :
    (∀ afterOperand mark (box : Box K),
      ((arrangeMark m afterOperand mark).shape.ink box).filterMap Ink.char? = mark.chars) ∧
      ∀ afterOperand box marks,
        (inkInCells (arrangeFrom m afterOperand box marks).cells).filterMap Ink.char? =
          charsInMarks marks := by
  refine arrangeMark.mutual_induct m
    (fun afterOperand mark => ∀ box : Box K,
      ((arrangeMark m afterOperand mark).shape.ink box).filterMap Ink.char? = mark.chars)
    (fun afterOperand box marks =>
      (inkInCells (arrangeFrom m afterOperand box marks).cells).filterMap Ink.char? =
        charsInMarks marks)
    ?char ?bracket ?lowered ?raised ?radical ?fraction ?nil ?cons
  case char =>
    intro _ c style box
    rfl
  case bracket =>
    intro _ inner ih box
    rw [arrangeMark, bracketCell, Shape.ink, Row.ink, Row.cells_close, ih, Mark.chars]
  case lowered =>
    intro _ script ih box
    rw [arrangeMark, loweredCell, Shape.ink, Row.ink, Row.cells_close, ih, Mark.chars]
  case raised =>
    intro _ script ih box
    rw [arrangeMark, raisedCell, Shape.ink, Row.ink, Row.cells_close, ih, Mark.chars]
  case radical =>
    intro _ radicand ih box
    rw [arrangeMark, radicalCell, Shape.ink, List.filterMap_cons, Row.ink, Row.cells_close, ih,
      Mark.chars]
    rfl
  case fraction =>
    intro _ numerator denominator hnumerator hdenominator box
    simp only [arrangeMark, fractionCell, Shape.ink, Row.ink, Row.cells_close,
      List.filterMap_append, List.filterMap_cons, Ink.char?, hnumerator, hdenominator, Mark.chars]
  case nil =>
    intro _ box
    rfl
  case cons =>
    intro _ box mark rest _ hmark hrest
    rw [arrangeFrom, inkInCells, List.filterMap_append, hrest, charsInMarks]
    exact congrArg (· ++ charsInMarks rest) (hmark _)

/-- The characters of a layout are those of its marks. -/
theorem chars_layout (m : Metrics K) (fragments : List Fragment) :
    (layout m fragments).chars = charsInMarks (Mark.ofFragments fragments) := by
  rw [Row.chars, layout, chars_inFrame.1, arrange, Row.close, Row.ink, (chars_arrangeMark m).2]

end Arranging

/-! ## Characters of transcripts -/

theorem charsInMarks_eq (marks : List Mark) : charsInMarks marks = marks.flatMap Mark.chars := by
  induction marks with
  | nil => rw [charsInMarks, List.flatMap_nil]
  | cons mark rest ih => rw [charsInMarks, ih, List.flatMap_cons]

@[simp] theorem charsInMarks_append (marks marks' : List Mark) :
    charsInMarks (marks ++ marks') = charsInMarks marks ++ charsInMarks marks' := by
  simp only [charsInMarks_eq, List.flatMap_append]

@[simp] theorem charsInMarks_singleton (mark : Mark) : charsInMarks [mark] = mark.chars := by
  rw [charsInMarks_eq, List.flatMap_singleton]

@[simp] theorem charsInMarks_ofText (text : String) (style : Style) :
    charsInMarks (Mark.ofText text style) = text.toList := by
  simp [charsInMarks_eq, Mark.ofText, List.flatMap_map, Mark.chars]

end Geometry

namespace Fragment

@[simp] theorem withoutLayoutSigns_bracketed (row : List Char) :
    withoutLayoutSigns (bracketed row) = withoutLayoutSigns row := by
  rw [bracketed, List.cons_append, withoutLayoutSigns_cons _ rfl, withoutLayoutSigns_append,
    withoutLayoutSigns_cons _ rfl, withoutLayoutSigns_nil, List.append_nil]

/-- Whether an operand stands in brackets makes no difference. -/
@[simp] theorem withoutLayoutSigns_operand (row : List Fragment) (written : List Char) :
    withoutLayoutSigns (operand row written) = withoutLayoutSigns written := by
  unfold operand
  split
  · split
    · rfl
    · exact withoutLayoutSigns_bracketed written
  · exact withoutLayoutSigns_bracketed written

open MathLine.Geometry

mutual

/-- But for layout signs, the marks of a fragment have the characters of its transcript. -/
theorem characters_ofFragment : (fragment : Fragment) →
    withoutLayoutSigns (charsInMarks (Mark.ofFragment fragment)) =
      withoutLayoutSigns (transcriptChars fragment)
  | .glyph text style => by rw [Mark.ofFragment, charsInMarks_ofText, transcriptChars]
  | .operator sign => by rw [Mark.ofFragment, charsInMarks_singleton, Mark.chars, transcriptChars]
  | .functionName name => by
    rw [Mark.ofFragment, charsInMarks_append, charsInMarks_ofText, charsInMarks_singleton,
      Mark.chars, transcriptChars]
  | .call name arguments => by
    simp [Mark.ofFragment, Mark.chars, transcriptChars, characters_ofFragments false arguments]
  | .fraction numerator denominator => by
    simp [Mark.ofFragment, Mark.chars, transcriptChars, characters_ofFragments false numerator,
      characters_ofFragments false denominator, withoutLayoutSigns_cons,
      isLayoutSign]
  | .power base exponent => by
    simp [Mark.ofFragment, Mark.chars, transcriptChars, characters_ofFragments false base,
      characters_ofFragments false exponent, withoutLayoutSigns_cons,
      isLayoutSign]
  | .subscript base script => by
    simp [Mark.ofFragment, Mark.chars, transcriptChars, characters_ofFragments false base,
      characters_ofFragments false script, withoutLayoutSigns_cons,
      isLayoutSign]
  | .radical radicand => by
    simp [Mark.ofFragment, Mark.chars, transcriptChars, characters_ofFragments false radicand,
      withoutLayoutSigns_cons, isLayoutSign]
  | .group inner => by
    simp [Mark.ofFragment, Mark.chars, transcriptChars, characters_ofFragments false inner]

/-- But for layout signs, the marks of a row have the characters of its transcript. -/
theorem characters_ofFragments : (afterOperand : Bool) → (row : List Fragment) →
    withoutLayoutSigns (charsInMarks (Mark.ofFragments row)) =
      withoutLayoutSigns (rowFrom afterOperand row)
  | afterOperand, [] => by rw [Mark.ofFragments, charsInMarks, rowFrom]
  | afterOperand, fragment :: rest => by
    have hspaced : withoutLayoutSigns (' ' :: transcriptChars fragment ++ [' ']) =
        withoutLayoutSigns (transcriptChars fragment) := by
      rw [List.cons_append, withoutLayoutSigns_cons _ rfl, withoutLayoutSigns_append,
        withoutLayoutSigns_cons _ rfl, withoutLayoutSigns_nil, List.append_nil]
    rw [Mark.ofFragments, charsInMarks_append, withoutLayoutSigns_append, characters_ofFragment,
      characters_ofFragments (!fragment.isOperator) rest, rowFrom, withoutLayoutSigns_append]
    split
    · rw [hspaced]
    · rfl

end

end Fragment

/-- But for layout signs, the characters of a layout and of a transcript are the same and
stand in the same order. -/
theorem characters_layout {K : Type} [Geometry.Scalar K] (m : Geometry.Metrics K)
    (fragments : List Fragment) :
    withoutLayoutSigns (Geometry.layout m fragments).chars =
      withoutLayoutSigns (Fragment.rowTranscript fragments).toList := by
  rw [Geometry.chars_layout, Fragment.characters_ofFragments false, Fragment.rowTranscript,
    String.toList_ofList]

end MathLine
