import MathLine.Step
import MathLine.Text.Quoted

set_option autoImplicit false

/-!
# The journal

Work leaves a trail of events: what was added, removed or turned down, and what was
typed.  An event knows how important it is, which part of the program reports it, and
how it is told.  An operation answers with an `Outcome`, which has the events that it
caused, oldest first, beside the new state and the answer proper.
-/

namespace MathLine

/-- How important an event is. -/
inductive Level where
  | debug
  | info
  | warn
  deriving DecidableEq, Repr, Inhabited

/-- The name of a level. -/
def Level.name : Level → String
  | .debug => "DEBUG"
  | .info => "INFO"
  | .warn => "WARN"

/-- The part of the program that reports an event. -/
inductive Reporter where
  | worksheet
  | workbench
  deriving DecidableEq, Repr, Inhabited

/-- Something that happened. -/
inductive Event where
  | emptyStepRejected
  | added (id : StepId) (parts : Nat) (explained : Bool)
  | noStepToRemove (id : StepId)
  | removed (id : StepId)
  | emptySubmissionRejected
  | submitting (count : Nat)
  | lineRead (input : String) (parts : Nat) (kind : Kind)
  | nothingToCommit
  deriving DecidableEq, Repr, Inhabited

namespace Event

/-- How important an event is. -/
def level : Event → Level
  | noStepToRemove _ | lineRead .. => .debug
  | added .. | removed _ | submitting _ => .info
  | emptyStepRejected | emptySubmissionRejected | nothingToCommit => .warn

/-- Who reports an event. -/
def reporter : Event → Reporter
  | lineRead .. | nothingToCommit => .workbench
  | _ => .worksheet

/-- How an event is told. -/
def message : Event → String
  | emptyStepRejected => "Rejected empty step"
  | added id parts explained =>
    "Added " ++ id.name ++ " (" ++ parts.repr ++ " parts, explained: " ++
      (if explained then "true" else "false") ++ ")"
  | noStepToRemove id => "No " ++ id.name ++ " to remove"
  | removed id => "Removed " ++ id.name
  | emptySubmissionRejected => "Rejected submit of an empty session"
  | submitting count => "Submitting " ++ count.repr ++ " steps"
  | lineRead input parts kind =>
    "Parsed " ++ Text.quoted input ++ " into " ++ parts.repr ++ " parts (" ++ kind.name ++ ")"
  | nothingToCommit => "Nothing to commit"

end Event

/-- What an operation leaves behind. -/
structure Outcome (σ α : Type) where
  state : σ
  answer : α
  log : List Event

/-- The outcome with another answer. -/
def Outcome.map {σ α β : Type} (f : α → β) (outcome : Outcome σ α) : Outcome σ β :=
  { outcome with answer := f outcome.answer }

end MathLine
