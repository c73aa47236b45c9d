import MathLine.Journal
import MathLine.Submission
import MathLine.Text.Blank

set_option autoImplicit false

/-!
# Worksheets

A worksheet is the list of the steps of a piece of work, oldest first.  Steps are
numbered from one in the order in which they are added, and the number of a removed
step is not given out again.

A step needs content, and a worksheet needs a step before it can be submitted;
`Rejection` lists what is turned down.  An explanation that is blank is no
explanation.
-/

namespace MathLine

/-- Why an operation was turned down. -/
inductive Rejection where
  | emptyStep
  | noSteps
  deriving DecidableEq, Repr, Inhabited

/-- What the user is told. -/
def Rejection.message : Rejection → String
  | .emptyStep => "math content is empty"
  | .noSteps => "add at least one step before submitting"

/-- The steps of a piece of work, and the number given to the last one added. -/
structure Worksheet where
  steps : List Step
  lastId : StepId
  deriving DecidableEq, Repr, Inhabited

namespace Worksheet

/-- The worksheet without steps. -/
def empty : Worksheet := ⟨[], ⟨0⟩⟩

/-- Adds a step with the given content. -/
def add (sheet : Worksheet) (content : Expression) (explanation : Option String) :
    Outcome Worksheet (Except Rejection Step) :=
  if content.isEmpty then
    { state := sheet, answer := .error .emptyStep, log := [.emptyStepRejected] }
  else
    let id := sheet.lastId.next
    let kept := explanation.filter fun words => !Text.isBlankText words.toList
    let step : Step := ⟨id, content, kept⟩
    { state := ⟨sheet.steps ++ [step], id⟩
      answer := .ok step
      log := [.added id content.parts.length kept.isSome] }

/-- The step with the given number. -/
def get? (sheet : Worksheet) (id : StepId) : Option Step :=
  sheet.steps.find? fun step => step.id = id

/-- Removes the step with the given number, and gives it back. -/
def remove (sheet : Worksheet) (id : StepId) : Outcome Worksheet (Option Step) :=
  match sheet.get? id with
  | none => { state := sheet, answer := none, log := [.noStepToRemove id] }
  | some step =>
    { state := { sheet with steps := sheet.steps.eraseP fun step => step.id = id }
      answer := some step
      log := [.removed id] }

/-- The steps, if there are any to submit. -/
def submit (sheet : Worksheet) : Outcome Worksheet (Except Rejection (List Step)) :=
  if sheet.steps.isEmpty then
    { state := sheet, answer := .error .noSteps, log := [.emptySubmissionRejected] }
  else
    { state := sheet
      answer := .ok sheet.steps
      log := [.submitting sheet.steps.length] }

/-- Hands the steps to `receive`, if there are any to submit.  The receiver may do with them
whatever can be done in `m`. -/
def submitTo {m : Type → Type} [Monad m] (sheet : Worksheet) (receive : List Step → m Unit) :
    m (Outcome Worksheet (Except Rejection Unit)) :=
  match sheet.submit.answer with
  | .error rejection => return sheet.submit.map fun _ => .error rejection
  | .ok steps => do
    receive steps
    return sheet.submit.map fun _ => .ok ()

/-- The steps in TeX. -/
def tex (sheet : Worksheet) : String := Tex.steps sheet.steps

/-- What would be handed in now. -/
def summary (sheet : Worksheet) : Submission := .ofSteps sheet.steps

end Worksheet

end MathLine
