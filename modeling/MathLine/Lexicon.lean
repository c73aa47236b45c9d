import MathLine.Text.Word

set_option autoImplicit false

/-!
# The lexicon of function names

A line of math may call functions by name.  The names are fixed, and grouped into
categories for a reader who picks one from a list: `Category.names` lists each
category, and `entries` all of them in order.  A name may stand in more than one
category; its own category is the first that has it.

In a text a name counts only as a whole word on its right: `sin` is not called by
`sinh` nor by `sinx`.  `leading?` finds the name that a text starts with in this
sense, and `of_leading?_eq_some` says what it then knows of the text.
-/

namespace MathLine

/-- A group of function names. -/
inductive Category where
  | basic
  | trigonometric
  | inverseTrigonometric
  | hyperbolic
  | inverseHyperbolic
  | statistics
  | probability
  | calculus
  | linearAlgebra
  | special
  | listOperations
  deriving DecidableEq, Repr, Inhabited

namespace Category

/-- The categories in the order in which they are shown. -/
def all : List Category :=
  [basic, trigonometric, inverseTrigonometric, hyperbolic, inverseHyperbolic, statistics,
   probability, calculus, linearAlgebra, special, listOperations]

/-- The short title under which a category is shown. -/
def label : Category → String
  | basic => "Basic"
  | trigonometric => "Trig"
  | inverseTrigonometric => "Inv Trig"
  | hyperbolic => "Hyperbolic"
  | inverseHyperbolic => "Inv Hyper"
  | statistics => "Statistics"
  | probability => "Probability"
  | calculus => "Calculus"
  | linearAlgebra => "Linear Alg"
  | special => "Special"
  | listOperations => "List Ops"

/-- The function names of a category, in the order in which they are shown. -/
def names : Category → List String
  | basic => ["log", "ln", "exp", "sqrt"]
  | trigonometric => ["sin", "cos", "tan", "sec", "csc", "cot"]
  | inverseTrigonometric => ["arcsin", "arccos", "arctan", "arcsec", "arccsc", "arccot"]
  | hyperbolic => ["sinh", "cosh", "tanh", "sech", "csch", "coth"]
  | inverseHyperbolic => ["arsinh", "arcosh", "artanh"]
  | statistics => ["mean", "median", "mode", "std", "var", "min", "max", "sum", "prod"]
  | probability => ["binom", "poisson", "normal", "gamma", "beta", "chi2"]
  | calculus => ["diff", "integral", "lim", "limsup", "liminf"]
  | linearAlgebra => ["det", "trace", "rank", "eigenval", "eigenvec", "transpose", "inverse"]
  | special => ["erf", "erfc", "gamma", "beta", "zeta", "bessel"]
  | listOperations => ["length", "first", "last", "nth", "append", "concat"]

/-- Every category is listed. -/
theorem mem_all (c : Category) : c ∈ all := by
  cases c <;> decide

end Category

namespace Lexicon

open MathLine.Text

/-- The function whose call is drawn and written as a root. -/
def squareRoot : String := "sqrt"

/-- Every entry in order.  A name that stands in two categories has two entries. -/
def entries : List (Category × String) :=
  Category.all.flatMap fun category => category.names.map fun name => (category, name)

/-- The category of `name`: the first that lists it. -/
def category? (name : String) : Option Category :=
  (entries.find? fun entry => entry.2 == name).map (·.1)

/-- Whether `name` is a function name. -/
def contains (name : String) : Bool := (category? name).isSome

/-- What follows the function name `name` in `s`, when `s` starts with it and does
not go on with a letter or digit. -/
def afterName? (name : String) (s : List Char) : Option (List Char) :=
  (dropLeading? name.toList s).filter fun rest => !startsInWord rest

/-- The function name that `s` starts with, and what follows it. -/
def leading? (s : List Char) : Option (String × List Char) :=
  entries.findSome? fun entry => (afterName? entry.2 s).map fun rest => (entry.2, rest)

/-! ## What a name is -/

theorem contains_eq_true_iff {name : String} :
    contains name = true ↔ name ∈ entries.map (·.2) := by
  simp [contains, category?]

theorem afterName?_eq_some_iff {name : String} {s rest : List Char} :
    afterName? name s = some rest ↔ s = name.toList ++ rest ∧ startsInWord rest = false := by
  simp [afterName?, Option.filter_eq_some_iff, dropLeading?_eq_some_iff]

/-- A name that `leading?` finds is a function name, and the text is that name and
what follows. -/
theorem of_leading?_eq_some {s rest : List Char} {name : String}
    (h : leading? s = some (name, rest)) :
    contains name = true ∧ s = name.toList ++ rest ∧ startsInWord rest = false := by
  obtain ⟨entry, hmem, hentry⟩ := List.exists_of_findSome?_eq_some h
  obtain ⟨after, hafter, heq⟩ := Option.map_eq_some_iff.1 hentry
  obtain ⟨rfl, rfl⟩ : entry.2 = name ∧ after = rest := by simpa using heq
  exact ⟨contains_eq_true_iff.2 (List.mem_map_of_mem hmem), afterName?_eq_some_iff.1 hafter⟩

/-- Every function name is a word that starts with a letter. -/
theorem isName_of_contains {name : String} (h : contains name = true) :
    isName name.toList = true := by
  have key : ∀ entry ∈ entries, isName entry.2.toList = true := by decide +kernel
  obtain ⟨entry, hmem, rfl⟩ := List.mem_map.1 (contains_eq_true_iff.1 h)
  exact key entry hmem

theorem ne_nil_of_contains {name : String} (h : contains name = true) : name.toList ≠ [] := by
  intro hnil
  have := isName_of_contains h
  simp [hnil, isName] at this

end Lexicon

end MathLine
