import Mathlib.Data.List.Basic
import MathLine.Proofs.Shape
import MathLine.Tex.Row

set_option autoImplicit false

/-!
# What is written in TeX

A row of nodes is written by putting texts together: a few commands of the printer's own,
escaped text, and the characters of numbers and letters as they were typed (`verbatim`).
A property of texts that all of these have, and that is kept when texts are put together,
is therefore a property of all that is written.  `Stable` names what has to be known of
the property, and `Stable.outerRow` is the conclusion.

The induction is over nodes and rows at once, with the cases of the printer itself: a
function name together with the group after it is a case of its own.
-/

namespace MathLine

namespace Node

/-- Induction over nodes and rows of nodes that have the property `Q`, they and all nodes
inside them.  A function name and the group after it are a case of their own. -/
theorem induction_of_all {Q : Node → Prop} (P : Node → Prop) (R : List Node → Prop)
    (hnumber : ∀ digits, Q (number digits) → P (number digits))
    (hletter : ∀ c, Q (letter c) → P (letter c))
    (htext : ∀ content, Q (text content) → P (text content))
    (hoperator : ∀ op, P (operator op))
    (hfunction : ∀ name, Q (function name) → P (function name))
    (hfraction : ∀ numerator denominator,
      (∀ m ∈ inRow numerator, Q m) ∧ R numerator →
        (∀ m ∈ inRow denominator, Q m) ∧ R denominator → P (fraction numerator denominator))
    (hpower : ∀ base exponent, (∀ m ∈ inRow base, Q m) ∧ R base →
      (∀ m ∈ inRow exponent, Q m) ∧ R exponent → P (power base exponent))
    (hroot : ∀ radicand, (∀ m ∈ inRow radicand, Q m) ∧ R radicand → P (root radicand))
    (hparens : ∀ inner, (∀ m ∈ inRow inner, Q m) ∧ R inner → P (parens inner))
    (hsubscript : ∀ base script, Q (subscript base script) →
      (∀ m ∈ inRow script, Q m) ∧ R script → P (subscript base script))
    (hnil : R [])
    (hcall : ∀ name inner rest, (∀ m ∈ inRow inner, Q m) ∧ R inner → R rest →
      R (function name :: parens inner :: rest))
    (hcons : ∀ n rest,
      (∀ name inner tail, n = function name → rest = parens inner :: tail → False) →
        P n → R rest → R (n :: rest)) :
    (∀ n, (∀ m ∈ inTree n, Q m) → P n) ∧ ∀ ns, (∀ m ∈ inRow ns, Q m) → R ns := by
  have hbelow : ∀ {n : Node} {row : List Node}, (∀ m ∈ inTree n, Q m) →
      ((∀ m ∈ inRow row, Q m) → R row) → row ∈ n.childRows →
        (∀ m ∈ inRow row, Q m) ∧ R row := by
    intro n row hall ih hrow
    have hinner := forall_inRow_of_childRow hrow hall
    exact ⟨hinner, ih hinner⟩
  refine Tex.node.mutual_induct (fun n => (∀ m ∈ inTree n, Q m) → P n)
    (fun ns => (∀ m ∈ inRow ns, Q m) → R ns)
    ?number ?letter ?text ?operator ?function ?fraction ?power ?root ?parens ?subscript
    ?nil ?call ?cons
  case number => exact fun digits hall => hnumber digits (hall _ (mem_inTree_self _))
  case letter => exact fun c hall => hletter c (hall _ (mem_inTree_self _))
  case text => exact fun content hall => htext content (hall _ (mem_inTree_self _))
  case operator => exact fun op _ => hoperator op
  case function => exact fun name hall => hfunction name (hall _ (mem_inTree_self _))
  case fraction =>
    intro numerator denominator hover hunder hall
    exact hfraction _ _ (hbelow hall hover (by simp [childRows]))
      (hbelow hall hunder (by simp [childRows]))
  case power =>
    intro base exponent hunder hover hall
    exact hpower _ _ (hbelow hall hunder (by simp [childRows]))
      (hbelow hall hover (by simp [childRows]))
  case root =>
    intro radicand hinner hall
    exact hroot _ (hbelow hall hinner (by simp [childRows]))
  case parens =>
    intro inner hinner hall
    exact hparens _ (hbelow hall hinner (by simp [childRows]))
  case subscript =>
    intro base script hinner hall
    exact hsubscript _ _ (hall _ (mem_inTree_self _)) (hbelow hall hinner (by simp [childRows]))
  case nil => exact fun _ => hnil
  case call =>
    intro name inner rest hinner hrest hall
    simp only [inRow_cons, List.forall_mem_append] at hall
    exact hcall name inner rest
      (hbelow hall.2.1 hinner (by simp [childRows])) (hrest hall.2.2)
  case cons =>
    intro n rest halone hn hrest hall
    rw [inRow_cons, List.forall_mem_append] at hall
    exact hcons n rest halone (hn hall.1) (hrest hall.2)

end Node

namespace Tex

/-- The characters of a node that are written as they were typed. -/
def verbatim : Node → List Char
  | .number digits => digits.toList
  | .letter c => [c]
  | .subscript base _ => base.toList
  | _ => []

/-- A property that everything has which the printer writes of its own, and that is kept by
all ways in which it puts texts together. -/
structure Stable (P : List Char → Prop) : Prop where
  nil : P []
  append : ∀ {s t}, P s → P t → P (s ++ t)
  space : P [' ']
  braced : ∀ {s}, P s → P (braced s)
  bracketed : ∀ {s}, P s → P (bracketed s)
  script : ∀ sign ∈ ['^', '_'], P [sign]
  command : ∀ word ∈ ["\\text", "\\sqrt", "\\frac"], P word.toList
  operator : ∀ op, P (operator op).toList
  function : ∀ entry ∈ functions, P entry.2.toList
  escapeChar : ∀ mode c, P (escapeChar mode c)

namespace Stable

variable {P : List Char → Prop} (h : Stable P)
include h

theorem escape (mode : Mode) (s : List Char) : P (escape mode s) := by
  induction s with
  | nil => exact h.nil
  | cons c s ih =>
    rw [escape_cons]
    exact h.append (h.escapeChar mode c) ih

theorem textGroup {s : List Char} (hs : P s) : P (textGroup s) :=
  h.append (h.command "\\text" (by decide)) (h.braced hs)

theorem separator (spacing : Spacing) (previous part : List Char) :
    P (separator spacing previous part) := by
  unfold Tex.separator
  split
  · exact h.nil
  · split
    · exact h.space
    · split
      · exact h.space
      · exact h.nil

theorem joinAfter (spacing : Spacing) {parts : List (List Char)} (hparts : ∀ part ∈ parts, P part)
    (previous : List Char) : P (joinAfter spacing previous parts) := by
  induction parts generalizing previous with
  | nil => exact h.nil
  | cons part rest ih =>
    obtain ⟨hpart, hrest⟩ := List.forall_mem_cons.1 hparts
    exact h.append (h.append (h.separator spacing previous part) hpart) (ih hrest part)

theorem join (spacing : Spacing) {parts : List (List Char)} (hparts : ∀ part ∈ parts, P part) :
    P (join spacing parts) :=
  h.joinAfter spacing hparts []

theorem functionName (name : String) : P (functionName name) := by
  unfold Tex.functionName
  split
  · next form hform => exact h.function (name, form) (mem_functions hform)
  · exact h.textGroup (h.escape .text name.toList)

theorem rooted {radicand : List Char} (hradicand : P radicand) : P (rooted radicand) :=
  h.append (h.command "\\sqrt" (by decide)) (h.braced hradicand)

theorem call (name : String) {arguments : List Char} (harguments : P arguments) :
    P (call name arguments) := by
  unfold Tex.call
  split
  · exact h.rooted harguments
  · exact h.append (h.functionName name) (h.bracketed harguments)

theorem scripted {base script : List Char} (hbase : P base) (hscript : P script) {sign : Char}
    (hsign : sign ∈ ['^', '_']) : P (base ++ sign :: Tex.braced script) :=
  h.append hbase (h.append (h.script sign hsign) (h.braced hscript))

/-- What is written for nodes and for the parts of rows, given what is written as it was
typed. -/
theorem node_and_parts :
    (∀ n, (∀ m ∈ Node.inTree n, P (verbatim m)) → P (node n)) ∧
      ∀ ns, (∀ m ∈ Node.inRow ns, P (verbatim m)) → ∀ part ∈ parts ns, P part := by
  refine Node.induction_of_all (fun n => P (node n)) (fun ns => ∀ part ∈ parts ns, P part)
    ?number ?letter ?text ?operator ?function ?fraction ?power ?root ?parens ?subscript
    ?nil ?call ?cons
  case number => exact fun digits hdigits => hdigits
  case letter => exact fun c hc => hc
  case text => exact fun content _ => h.escape .math content.toList
  case operator => exact h.operator
  case function => exact fun name _ => h.functionName name
  case fraction =>
    rintro numerator denominator ⟨-, hover⟩ ⟨-, hunder⟩
    rw [node]
    exact h.append (h.append (h.command "\\frac" (by decide)) (h.braced (h.join .together hover)))
      (h.braced (h.join .together hunder))
  case power =>
    rintro base exponent ⟨-, hunder⟩ ⟨-, hover⟩
    rw [node]
    exact h.scripted (h.join .together hunder) (h.join .together hover) (by simp)
  case root =>
    rintro radicand ⟨-, hinner⟩
    rw [node]
    exact h.rooted (h.join .together hinner)
  case parens =>
    rintro inner ⟨-, hinner⟩
    rw [node]
    exact h.bracketed (h.join .together hinner)
  case subscript =>
    rintro base script hbase ⟨-, hinner⟩
    rw [node]
    exact h.scripted hbase (h.join .together hinner) (by simp)
  case nil =>
    intro part hpart
    exact absurd hpart (by simp [parts])
  case call =>
    -- a function name and the group that it is called on are one part
    rintro name inner rest ⟨-, hinner⟩ hrest
    rw [parts, List.forall_mem_cons]
    exact ⟨h.call name (h.join .together hinner), hrest⟩
  case cons =>
    intro n rest halone hn hrest
    rw [parts.eq_3 n rest halone, List.forall_mem_cons]
    exact ⟨hn, hrest⟩

/-- What is written for a row on its own. -/
theorem outerRow {nodes : List Node} (hverbatim : ∀ m ∈ Node.inRow nodes, P (verbatim m)) :
    P (outerRow nodes) :=
  h.join .apart (h.node_and_parts.2 nodes hverbatim)

end Stable

end Tex

end MathLine
