import MathLine.Step
import MathLine.Tex.Row

set_option autoImplicit false

/-!
# TeX: steps

A step is written as its line, followed by its explanation as text in brackets if it
has one.  A list of steps is written one step to a line of TeX, each under a heading
that counts from one.
-/

namespace MathLine.Tex

/-- The gap between a line and what stands beside it. -/
def gap : List Char := " \\quad ".toList

/-- The end of a line of TeX between two steps. -/
def lineBreak : List Char := " \\\\\n".toList

/-- An explanation, as it follows the line that it explains. -/
def explained (words : String) : List Char :=
  gap ++ textGroup ('(' :: escape .text words.toList ++ [')'])

/-- A step without its heading. -/
def stepChars (step : Step) : List Char :=
  outerRow step.content.parts ++
    match step.explanation with
    | some words => explained words
    | none => []

/-- The heading of the step with the given place in its list. -/
def heading (place : Nat) : List Char :=
  textGroup ("Step ".toList ++ Nat.toDigits 10 place ++ [':']) ++ gap

/-- The lines of a list of steps. -/
def stepLines (steps : List Step) : List (List Char) :=
  (steps.zipIdx 1).map fun entry => heading entry.2 ++ stepChars entry.1

/-- A step in TeX. -/
def step (s : Step) : String := String.ofList (stepChars s)

/-- A list of steps in TeX. -/
def steps (list : List Step) : String :=
  String.ofList (lineBreak.intercalate (stepLines list))

end MathLine.Tex
