import MathLine.Fragment

set_option autoImplicit false

/-!
# The transcript of a row

A row of fragments can be written out on one line of plain text.  An operator sign
has a space on each side when it stands between two operands, that is unless it comes
first or after another sign.  A fraction is written with a slash, a power with `^`, a
subscript with `_` and a radical with `√`; their operands stand in brackets unless
they are a single glyph or group.
-/

namespace MathLine

namespace Fragment

/-- The text `row` in brackets. -/
def bracketed (row : List Char) : List Char := '(' :: row ++ [')']

/-- The text `written` of an operand made of the fragments `row`: bare when it is a
single glyph or group. -/
def operand (row : List Fragment) (written : List Char) : List Char :=
  match row with
  | [fragment] => if fragment.isClosed then written else bracketed written
  | _ => bracketed written

mutual

/-- The transcript of a fragment that stands alone. -/
def transcriptChars : Fragment → List Char
  | glyph text _ => text.toList
  | operator sign => [sign]
  | functionName name => name.toList ++ ['(']
  | call name arguments => name.toList ++ bracketed (rowFrom false arguments)
  | fraction numerator denominator =>
    operand numerator (rowFrom false numerator) ++
      '/' :: operand denominator (rowFrom false denominator)
  | power base exponent =>
    operand base (rowFrom false base) ++ '^' :: operand exponent (rowFrom false exponent)
  | subscript base script =>
    operand base (rowFrom false base) ++ '_' :: operand script (rowFrom false script)
  | radical radicand => '√' :: operand radicand (rowFrom false radicand)
  | group inner => bracketed (rowFrom false inner)

/-- The transcript of the rest of a row; `afterOperand` says whether an operand
stands before it. -/
def rowFrom (afterOperand : Bool) : List Fragment → List Char
  | [] => []
  | fragment :: rest =>
    (if fragment.isOperator && afterOperand then ' ' :: transcriptChars fragment ++ [' ']
      else transcriptChars fragment) ++
      rowFrom (!fragment.isOperator) rest

end

/-- The transcript of one fragment. -/
def transcript (fragment : Fragment) : String := String.ofList (transcriptChars fragment)

/-- The transcript of a row. -/
def rowTranscript (row : List Fragment) : String := String.ofList (rowFrom false row)

end Fragment

end MathLine
