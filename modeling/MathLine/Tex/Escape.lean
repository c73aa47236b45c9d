import MathLine.Tex.Command

set_option autoImplicit false

/-!
# TeX: escaping

Text that a user wrote is not TeX.  The characters that TeX gives a meaning to are
escaped, so that they are shown instead: by a backslash where TeX has such a command,
and otherwise by the command for the character.  Those commands differ between math
and text, which is why escaping is told the mode.

Escaping goes character by character, so it distributes over concatenation
(`escape_append`).
-/

namespace MathLine.Tex

/-- What TeX is set to read: formulas or plain text. -/
inductive Mode where
  | math
  | text
  deriving DecidableEq, Repr, Inhabited

/-- The characters that a backslash escapes in either mode. -/
def backslashed : List Char := ['{', '}', '%', '#', '&', '$', '_']

/-- The command that shows a character which a backslash does not escape. -/
def shownBy? : Mode → Char → Option String
  | .math, '\\' => some "\\backslash"
  | .math, '^' => some "\\hat"
  | .math, '~' => some "\\sim"
  | .text, '\\' => some "\\textbackslash"
  | .text, '^' => some "\\textasciicircum"
  | .text, '~' => some "\\textasciitilde"
  | _, _ => none

/-- A character as it is escaped in the given mode.  A command is ended by an empty
group, so that it takes no letter after it. -/
def escapeChar (mode : Mode) (c : Char) : List Char :=
  if backslashed.contains c then ['\\', c]
  else
    match shownBy? mode c with
    | some command => command.toList ++ braced []
    | none => [c]

/-- The text `s` as it is escaped in the given mode. -/
def escape (mode : Mode) (s : List Char) : List Char := s.flatMap (escapeChar mode)

@[simp] theorem escape_nil (mode : Mode) : escape mode [] = [] := rfl

@[simp] theorem escape_cons (mode : Mode) (c : Char) (s : List Char) :
    escape mode (c :: s) = escapeChar mode c ++ escape mode s := by
  simp [escape]

theorem escape_append (mode : Mode) (s t : List Char) :
    escape mode (s ++ t) = escape mode s ++ escape mode t := by
  simp [escape]

/-- The text `s` as a group of plain text inside a formula. -/
def textGroup (s : List Char) : List Char := "\\text".toList ++ braced s

end MathLine.Tex
