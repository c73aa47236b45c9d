import MathLine.Tex.Steps

set_option autoImplicit false

/-!
# Submissions

A piece of work is handed in as one text in TeX, together with the two things that a
reader wants to know before reading it: how many steps there are, and whether any of
them is explained.
-/

namespace MathLine

/-- What is handed in of a piece of work. -/
structure Submission where
  /-- the steps in TeX -/
  tex : String
  stepCount : Nat
  /-- whether any step is explained -/
  hasExplanations : Bool
  deriving DecidableEq, Repr, Inhabited

/-- The submission of a list of steps. -/
def Submission.ofSteps (steps : List Step) : Submission where
  tex := Tex.steps steps
  stepCount := steps.length
  hasExplanations := steps.any fun step => step.explanation.isSome

end MathLine
