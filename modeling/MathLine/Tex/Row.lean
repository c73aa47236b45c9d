import MathLine.Lexicon
import MathLine.Node
import MathLine.Tex.Escape

set_option autoImplicit false

/-!
# TeX: rows of nodes

A row of nodes is written in TeX part by part.  A part is a node, or a function name
together with the group directly after it; the call of `sqrt` is written as a root.

The parts of the outermost row stand apart by a space each.  Inside a construction
they stand together, except that a space keeps a control word from running into a
letter after it.  A part that is written as nothing asks for no separation after it.
-/

namespace MathLine.Tex

/-! ## Putting parts together -/

/-- How the parts of a row are kept apart. -/
inductive Spacing where
  | apart
  | together
  deriving DecidableEq, Repr, Inhabited

/-- Whether `s` ends in a control word: a backslash and at least one letter. -/
def endsInControlWord (s : List Char) : Bool :=
  match s.reverse with
  | [] => false
  | c :: rest => c.isAlpha && (rest.dropWhile Char.isAlpha).head? == some '\\'

/-- Whether `s` starts with a letter. -/
def startsWithLetter : List Char → Bool
  | [] => false
  | c :: _ => c.isAlpha

/-- What is written between two parts. -/
def separator (spacing : Spacing) (previous part : List Char) : List Char :=
  if previous.isEmpty then []
  else
    match spacing with
    | .apart => [' ']
    | .together =>
      if endsInControlWord previous && startsWithLetter part then [' '] else []

/-- The parts in one row, the first after the part `previous`. -/
def joinAfter (spacing : Spacing) (previous : List Char) : List (List Char) → List Char
  | [] => []
  | part :: rest => separator spacing previous part ++ part ++ joinAfter spacing part rest

/-- The parts in one row. -/
def join (spacing : Spacing) (parts : List (List Char)) : List Char :=
  joinAfter spacing [] parts

@[simp] theorem separator_nil (spacing : Spacing) (part : List Char) :
    separator spacing [] part = [] := rfl

@[simp] theorem join_nil (spacing : Spacing) : join spacing [] = [] := rfl

theorem join_cons (spacing : Spacing) (part : List Char) (rest : List (List Char)) :
    join spacing (part :: rest) = part ++ joinAfter spacing part rest := rfl

@[simp] theorem join_singleton (spacing : Spacing) (part : List Char) :
    join spacing [part] = part := by
  simp [join_cons, joinAfter]

/-! ## Writing nodes -/

/-- A function name in TeX: in its own form, or as plain text. -/
def functionName (name : String) : List Char :=
  match function? name with
  | some form => form.toList
  | none => textGroup (escape .text name.toList)

/-- A root over `radicand`. -/
def rooted (radicand : List Char) : List Char := "\\sqrt".toList ++ braced radicand

/-- A function applied to `arguments`. -/
def call (name : String) (arguments : List Char) : List Char :=
  if name = Lexicon.squareRoot then rooted arguments else functionName name ++ bracketed arguments

mutual

/-- A node that stands alone. -/
def node : Node → List Char
  | .number digits => digits.toList
  | .letter c => [c]
  | .text content => escape .math content.toList
  | .operator op => (operator op).toList
  | .function name => functionName name
  | .fraction numerator denominator =>
    "\\frac".toList ++ braced (join .together (parts numerator)) ++
      braced (join .together (parts denominator))
  | .power base exponent =>
    join .together (parts base) ++ '^' :: braced (join .together (parts exponent))
  | .root radicand => rooted (join .together (parts radicand))
  | .parens inner => bracketed (join .together (parts inner))
  | .subscript base script =>
    base.toList ++ '_' :: braced (join .together (parts script))

/-- The parts of a row of nodes. -/
def parts : List Node → List (List Char)
  | [] => []
  | .function name :: .parens inner :: rest =>
    call name (join .together (parts inner)) :: parts rest
  | n :: rest => node n :: parts rest

end

/-- A row of nodes inside a construction. -/
def innerRow (nodes : List Node) : List Char := join .together (parts nodes)

/-- A row of nodes on its own. -/
def outerRow (nodes : List Node) : List Char := join .apart (parts nodes)

/-- The nodes of a line in TeX. -/
def line (nodes : List Node) : String := String.ofList (outerRow nodes)

end MathLine.Tex
