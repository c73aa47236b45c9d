import MathLine.Expression

set_option autoImplicit false

/-!
# Steps

A step is one line of a piece of work: an expression, and perhaps words that explain
it.  Steps are told apart by their numbers, which are machine words.
-/

namespace MathLine

/-- The number of a step. -/
structure StepId where
  number : UInt64
  deriving DecidableEq, Repr, Inhabited

namespace StepId

/-- How a step is called. -/
def name (id : StepId) : String := "step-" ++ id.number.toNat.repr

/-- The number after `id`. -/
def next (id : StepId) : StepId := ⟨id.number + 1⟩

/-- Whether `a` does not come after `b`. -/
def le (a b : StepId) : Bool := Nat.ble a.number.toNat b.number.toNat

/-- The numbers in ascending order. -/
def sort (ids : List StepId) : List StepId := ids.mergeSort le

end StepId

/-- A line of a piece of work. -/
structure Step where
  id : StepId
  content : Expression
  explanation : Option String
  deriving DecidableEq, Repr, Inhabited

end MathLine
