import MathLine.Text.Unseen

set_option autoImplicit false

/-!
# Text: quoted texts

A text that is quoted inside a message stands between double quotes and on one line,
and nothing in it is hidden.  The quote and the backslash are escaped by a backslash,
and tab, line feed, carriage return and the null character have letters of their own.
Any other character that cannot be seen for itself is written as its code point in
hexadecimal.  All the rest stand for themselves.
-/

namespace MathLine.Text

/-- How `c` is written between the quotes. -/
def quotedChar (c : Char) : List Char :=
  match c with
  | '"' => ['\\', '"']
  | '\\' => ['\\', '\\']
  | '\t' => ['\\', 't']
  | '\n' => ['\\', 'n']
  | '\r' => ['\\', 'r']
  | '\x00' => ['\\', '0']
  | c =>
    if isUnseen c then ['\\', 'u', '{'] ++ Nat.toDigits 16 c.toNat ++ ['}'] else [c]

/-- The text `s` as it is quoted in a message. -/
def quoted (s : String) : String :=
  String.ofList ('"' :: s.toList.flatMap quotedChar ++ ['"'])

example : quoted "a\t\"b\"\\" = "\"a\\t\\\"b\\\"\\\\\"" := by decide +kernel

/-- An accent is drawn into the letter before it, and so is written as its code point. -/
example : quotedChar '\u0301' = ['\\', 'u', '{', '3', '0', '1', '}'] := by decide +kernel

end MathLine.Text
