import MathLine.Fragment.OfNodes
import MathLine.Worksheet

set_option autoImplicit false

/-!
# The workbench

A workbench is a worksheet with one line in front of it that is still being written,
and the words that are to explain that line.  The line is read again whenever it is
edited, so that `current` is always what the text `input` is read as.  Committing
moves the line to the worksheet and clears the workbench; a line without content is
not committed, and then nothing changes.
-/

namespace MathLine

/-- A worksheet and the line that is being written. -/
structure Workbench where
  sheet : Worksheet
  input : String
  explanation : String
  current : Expression
  deriving DecidableEq, Repr, Inhabited

namespace Workbench

/-- The workbench with nothing written and no steps. -/
def empty : Workbench := ⟨.empty, "", "", .empty⟩

/-- Replaces the text of the line. -/
def setInput (bench : Workbench) (text : String) : Outcome Workbench Unit :=
  let current := Expression.ofString text
  { state := { bench with input := text, current := current }
    answer := ()
    log := [.lineRead text current.parts.length current.kind] }

/-- Replaces the words that explain the line. -/
def setExplanation (bench : Workbench) (words : String) : Workbench :=
  { bench with explanation := words }

/-- What is drawn of the line. -/
def preview (bench : Workbench) : List Fragment := Fragment.ofNodes bench.current.parts

/-- Carries an operation on the worksheet over to the workbench around it. -/
def onSheet {α : Type} (bench : Workbench) (outcome : Outcome Worksheet α) :
    Outcome Workbench α :=
  { state := { bench with sheet := outcome.state }
    answer := outcome.answer
    log := outcome.log }

/-- Adds the line to the worksheet as a step, and clears the line. -/
def commit (bench : Workbench) : Outcome Workbench (Except Rejection Step) :=
  if bench.current.isEmpty then
    { state := bench, answer := .error .emptyStep, log := [.nothingToCommit] }
  else
    { bench with input := "", explanation := "", current := .empty }.onSheet
      (bench.sheet.add bench.current (some bench.explanation))

/-- Removes the step with the given number from the worksheet. -/
def remove (bench : Workbench) (id : StepId) : Outcome Workbench (Option Step) :=
  bench.onSheet (bench.sheet.remove id)

/-- Hands the steps of the worksheet to `receive`, if there are any. -/
def submitTo {m : Type → Type} [Monad m] (bench : Workbench) (receive : List Step → m Unit) :
    m (Outcome Workbench (Except Rejection Unit)) := do
  let outcome ← bench.sheet.submitTo receive
  return bench.onSheet outcome

/-! ## The line and its text stay in step -/

/-- The expression in front is what its text is read as. -/
def InStep (bench : Workbench) : Prop := bench.current = .ofString bench.input

theorem inStep_empty : empty.InStep := Expression.ofString_empty.symm

theorem inStep_setInput (bench : Workbench) (text : String) :
    (bench.setInput text).state.InStep := rfl

theorem inStep_setExplanation {bench : Workbench} (h : bench.InStep) (words : String) :
    (bench.setExplanation words).InStep := h

theorem inStep_commit {bench : Workbench} (h : bench.InStep) : bench.commit.state.InStep := by
  unfold commit
  split
  · exact h
  · exact Expression.ofString_empty.symm

theorem inStep_remove {bench : Workbench} (h : bench.InStep) (id : StepId) :
    (bench.remove id).state.InStep := h

end Workbench

end MathLine
