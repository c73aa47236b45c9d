import MathLine.Operator

set_option autoImplicit false

/-!
# TeX: commands

How the operator signs and the function names are written in TeX.  Every operator has
a TeX form.  Of the function names some have a command of their own, some have a
customary symbol, and the rest have neither.

Commands are put together from the same few pieces: a group in braces, and brackets
that grow with what they enclose.
-/

namespace MathLine.Tex

/-- The characters `s` as a TeX group. -/
def braced (s : List Char) : List Char := '{' :: s ++ ['}']

/-- The text `s` as a TeX group. -/
def group (s : String) : String := String.ofList (braced s.toList)

@[simp] theorem toList_group (s : String) : (group s).toList = braced s.toList :=
  String.toList_ofList

/-- The text `s` between brackets that grow with it. -/
def bracketed (s : List Char) : List Char :=
  "\\left(".toList ++ s ++ "\\right)".toList

/-- An operator in TeX. -/
def operator : Operator → String
  | .plus => "+"
  | .minus => "-"
  | .times => "\\times"
  | .divide => "\\div"
  | .equal => "="
  | .less => "<"
  | .greater => ">"
  | .lessEqual => "\\leq"
  | .greaterEqual => "\\geq"
  | .notEqual => "\\neq"
  | .approx => "\\approx"

/-- The function names that have a form of their own in TeX, with that form. -/
def functions : List (String × String) :=
  [("log", "\\log"), ("ln", "\\ln"), ("exp", "\\exp"), ("sqrt", "\\sqrt"),
   ("sin", "\\sin"), ("cos", "\\cos"), ("tan", "\\tan"),
   ("sec", "\\sec"), ("csc", "\\csc"), ("cot", "\\cot"),
   ("arcsin", "\\arcsin"), ("arccos", "\\arccos"), ("arctan", "\\arctan"),
   ("arcsec", "\\arcsec"), ("arccsc", "\\arccsc"), ("arccot", "\\arccot"),
   ("sinh", "\\sinh"), ("cosh", "\\cosh"), ("tanh", "\\tanh"),
   ("sech", "\\sech"), ("csch", "\\csch"), ("coth", "\\coth"),
   ("arsinh", "\\arsinh"), ("arcosh", "\\arcosh"), ("artanh", "\\artanh"),
   ("std", "\\sigma"), ("min", "\\min"), ("max", "\\max"),
   ("sum", "\\sum"), ("prod", "\\prod"),
   ("binom", "\\binom"), ("poisson", "\\text" ++ group "Poisson"),
   ("normal", "\\mathcal" ++ group "N"), ("gamma", "\\Gamma"), ("beta", "B"),
   ("chi2", "\\chi^2"),
   ("diff", "\\frac" ++ group "d" ++ group "dx"), ("integral", "\\int"),
   ("lim", "\\lim"), ("limsup", "\\limsup"), ("liminf", "\\liminf"),
   ("det", "\\det"), ("trace", "\\text" ++ group "tr"),
   ("eigenval", "\\lambda"), ("eigenvec", "\\vec" ++ group "v"),
   ("transpose", "^T"), ("inverse", "^" ++ group "-1"),
   ("zeta", "\\zeta"), ("bessel", "J"),
   ("length", "|\\cdot|")]

/-- The TeX form of a function name, where it has one of its own. -/
def function? (name : String) : Option String := functions.lookup name

theorem mem_functions {name form : String} (h : function? name = some form) :
    (name, form) ∈ functions := by
  obtain ⟨before, after, heq, -⟩ := List.lookup_eq_some_iff.1 h
  rw [heq]
  exact List.mem_append_right before List.mem_cons_self

end MathLine.Tex
