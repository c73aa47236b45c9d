import MathLine.Fragment.OfNodes
import MathLine.Proofs.Printing

set_option autoImplicit false

/-!
# What a drawing tells

A drawing says how a line looks and not what it means, so several rows of nodes may be drawn
the same.  Of the rows that are read, those that differ in nothing but how their square roots
are typed are (`drawn_alike_iff`): `Fragment.rowNodes` reads the nodes off the fragments
again, and gives the row with each call of the square root turned into a root, `normalRow`.

What is written in TeX does not depend on how square roots are typed either, so the drawing
of a line determines its TeX (`line_of_drawn_alike`).
-/

namespace MathLine

namespace Node

/-! ## Square roots -/

/-- A function name with the group after it, the call of the square root as a root. -/
def ofCall (name : String) (inner : List Node) : List Node :=
  if name = Lexicon.squareRoot then [root inner] else [function name, parens inner]

mutual

/-- The node with each call of the square root inside it turned into a root. -/
def normal : Node → Node
  | number digits => number digits
  | letter c => letter c
  | text content => text content
  | operator op => operator op
  | function name => function name
  | fraction numerator denominator => fraction (normalRow numerator) (normalRow denominator)
  | power base exponent => power (normalRow base) (normalRow exponent)
  | root radicand => root (normalRow radicand)
  | parens inner => parens (normalRow inner)
  | subscript base script => subscript base (normalRow script)

/-- The row with each call of the square root, at every depth, turned into a root. -/
def normalRow : List Node → List Node
  | [] => []
  | function name :: parens inner :: rest => ofCall name (normalRow inner) ++ normalRow rest
  | n :: rest => normal n :: normalRow rest

end

/-- Whether a row starts with a function name and the group that it is called on. -/
def startsWithCall : List Node → Bool
  | function _ :: parens _ :: _ => true
  | _ => false

theorem startsWithCall_eq_false_iff {n : Node} {rest : List Node} :
    startsWithCall (n :: rest) = false ↔
      ∀ name inner tail, n = function name → rest = parens inner :: tail → False := by
  constructor
  · rintro h name inner tail rfl rfl
    simp [startsWithCall] at h
  · intro h
    unfold startsWithCall
    split
    · next heq =>
      obtain ⟨rfl, rfl⟩ := List.cons.inj heq
      exact (h _ _ _ rfl rfl).elim
    · rfl

/-- A row starts with a group only if it did so before its square roots became roots. -/
theorem eq_parens_of_normalRow {ns : List Node} {inner tail : List Node}
    (h : normalRow ns = parens inner :: tail) : ∃ inner' tail', ns = parens inner' :: tail' := by
  unfold normalRow at h
  split at h
  · simp at h
  · next name inner' rest =>
    unfold ofCall at h
    split at h <;> simp at h
  · next n rest _ =>
    obtain ⟨hn, -⟩ := List.cons.inj h
    cases n <;> simp [normal] at hn
    exact ⟨_, _, rfl⟩

/-- Turning square roots into roots makes no new calls. -/
theorem startsWithCall_normal {n : Node} {rest : List Node}
    (h : startsWithCall (n :: rest) = false) :
    startsWithCall (normal n :: normalRow rest) = false := by
  rw [startsWithCall_eq_false_iff] at h ⊢
  intro name inner tail hn hrest
  obtain ⟨inner', tail', rfl⟩ := eq_parens_of_normalRow hrest
  cases n <;> simp [normal] at hn
  exact h _ _ _ rfl rfl

/-- A way to write rows of nodes down that takes a function name and the group after it
together, and makes no difference between a call of the square root and a root. -/
structure PairsCalls {α : Type} (one : Node → α) (row : List Node → List α)
    (call : String → List α → α) : Prop where
  row_call : ∀ name inner rest,
    row (function name :: parens inner :: rest) = call name (row inner) :: row rest
  row_cons : ∀ n rest, startsWithCall (n :: rest) = false → row (n :: rest) = one n :: row rest
  one_root : ∀ radicand, one (root radicand) = call Lexicon.squareRoot (row radicand)
  /-- what is written for a node depends on what is written for the rows inside it -/
  one_normal : ∀ n, (∀ inner ∈ n.childRows, row (normalRow inner) = row inner) →
    one (normal n) = one n

/-- Such a way to write rows down does not tell how square roots are typed. -/
theorem PairsCalls.row_normalRow {α : Type} {one : Node → α} {row : List Node → List α}
    {call : String → List α → α} (h : PairsCalls one row call) (ns : List Node) :
    row (normalRow ns) = row ns := by
  have key : (∀ n, one (normal n) = one n) ∧ ∀ ns, row (normalRow ns) = row ns := by
    refine normal.mutual_induct (fun n => one (normal n) = one n)
      (fun ns => row (normalRow ns) = row ns)
      ?number ?letter ?text ?operator ?function ?fraction ?power ?root ?parens ?subscript
      ?nil ?call ?cons
    case number | letter | text | operator | function =>
      intro _
      rfl
    case fraction | power =>
      intro first second hfirst hsecond
      exact h.one_normal _ (by simp [childRows, hfirst, hsecond])
    case root | parens =>
      intro inner hinner
      exact h.one_normal _ (by simp [childRows, hinner])
    case subscript =>
      intro base script hscript
      exact h.one_normal _ (by simp [childRows, hscript])
    case nil => rw [normalRow]
    case call =>
      intro name inner rest hinner hrest
      rw [normalRow, h.row_call, ofCall]
      split
      · next hname =>
        rw [List.singleton_append, h.row_cons _ _ rfl, h.one_root, hinner, hrest, hname]
      · rw [List.cons_append, List.singleton_append, h.row_call, hinner, hrest]
    case cons =>
      intro n rest hcall hn hrest
      have hstart := startsWithCall_eq_false_iff.2 hcall
      rw [normalRow.eq_3 n rest hcall, h.row_cons _ _ (startsWithCall_normal hstart), hn, hrest,
        h.row_cons _ _ hstart]
  exact key.2 ns

end Node

/-! ## Drawings and TeX do not tell how square roots are typed -/

theorem Fragment.pairsCalls :
    Node.PairsCalls Fragment.ofNode Fragment.ofNodes Fragment.ofCall where
  row_call name inner rest := by rw [Fragment.ofNodes]
  row_cons n rest h := Fragment.ofNodes.eq_3 n rest (Node.startsWithCall_eq_false_iff.1 h)
  one_root radicand := by rw [Fragment.ofNode, Fragment.ofCall, if_pos rfl]
  one_normal n h := by
    cases n <;> simp_all [Node.normal, Node.childRows, Fragment.ofNode]

theorem Tex.pairsCalls :
    Node.PairsCalls Tex.node Tex.parts
      (fun name inner => Tex.call name (Tex.join .together inner)) where
  row_call name inner rest := by rw [Tex.parts]
  row_cons n rest h := Tex.parts.eq_3 n rest (Node.startsWithCall_eq_false_iff.1 h)
  one_root radicand := by rw [Tex.node, Tex.call, if_pos rfl]
  one_normal n h := by
    cases n <;> simp_all [Node.normal, Node.childRows, Tex.node]

theorem Fragment.ofNodes_normalRow (ns : List Node) :
    Fragment.ofNodes (Node.normalRow ns) = Fragment.ofNodes ns :=
  Fragment.pairsCalls.row_normalRow ns

theorem Tex.line_normalRow (ns : List Node) : Tex.line (Node.normalRow ns) = Tex.line ns := by
  rw [Tex.line, Tex.line, Tex.outerRow, Tex.outerRow, Tex.pairsCalls.row_normalRow ns]

/-! ## Reading nodes off a drawing -/

namespace Fragment

/-- The node of upright characters: a number if they start like one. -/
def uprightNode (characters : String) : Node :=
  if characters.toList.head?.any Numeral.isStart then .number characters else .text characters

/-- The characters of a row that is one glyph. -/
def glyphText : List Fragment → String
  | [glyph characters _] => characters
  | _ => ""

mutual

/-- The nodes of which a fragment is drawn. -/
def nodes : Fragment → List Node
  | glyph characters .upright => [uprightNode characters]
  | glyph characters .italic => characters.toList.map .letter
  | operator sign => ((Operator.all.find? (·.glyph == sign)).map .operator).toList
  | functionName name => [.function name]
  | call name arguments => [.function name, .parens (rowNodes arguments)]
  | fraction numerator denominator => [.fraction (rowNodes numerator) (rowNodes denominator)]
  | power base exponent => [.power (rowNodes base) (rowNodes exponent)]
  | subscript base script => [.subscript (glyphText base) (rowNodes script)]
  | radical radicand => [.root (rowNodes radicand)]
  | group inner => [.parens (rowNodes inner)]

/-- The nodes of which a row of fragments is drawn. -/
def rowNodes : List Fragment → List Node
  | [] => []
  | fragment :: rest => nodes fragment ++ rowNodes rest

end

theorem uprightNode_of_isNumeral {digits : String} (h : Numeral.IsNumeral digits.toList) :
    uprightNode digits = .number digits := by
  obtain ⟨c, more, hdigits⟩ := List.exists_cons_of_ne_nil h.ne_nil
  have hc := h.isStart_of_mem c (by rw [hdigits]; exact List.mem_cons_self)
  rw [uprightNode, hdigits, List.head?_cons, Option.any_some, if_pos hc]

/-- A character that may be text starts no number. -/
theorem isStart_of_isTextChar {c : Char} (h : Node.isTextChar c = true) :
    Numeral.isStart c = false := by
  cases hdigit : c.isDigit with
  | true => simp [Node.isTextChar, Text.isWordChar, Char.isAlphanum, hdigit] at h
  | false => simp_all [Node.isTextChar, Numeral.isStart]

theorem uprightNode_of_isTextChar {content : String} {c : Char} (hcontent : content.toList = [c])
    (hc : Node.isTextChar c = true) : uprightNode content = .text content := by
  rw [uprightNode, hcontent, List.head?_cons, Option.any_some, isStart_of_isTextChar hc]
  rfl

/-- The sign that is drawn for an operator tells which it is. -/
theorem find?_glyph (op : Operator) : Operator.all.find? (·.glyph == op.glyph) = some op := by
  cases op <;> decide

theorem nodes_ofCall (name : String) (arguments : List Fragment) :
    nodes (ofCall name arguments) = Node.ofCall name (rowNodes arguments) := by
  unfold ofCall Node.ofCall
  split <;> rfl

/-- From the fragments of nodes that have their shape the nodes can be read off again, except
that a call of the square root is taken for a root. -/
theorem nodes_ofNode_and_rowNodes_ofNodes :
    (∀ n, (∀ m ∈ Node.inTree n, m.HasShape) → nodes (ofNode n) = [n.normal]) ∧
      ∀ ns, (∀ m ∈ Node.inRow ns, m.HasShape) → rowNodes (ofNodes ns) = Node.normalRow ns := by
  refine Node.induction_of_all (fun n => nodes (ofNode n) = [n.normal])
    (fun ns => rowNodes (ofNodes ns) = Node.normalRow ns)
    ?number ?letter ?text ?operator ?function ?fraction ?power ?root ?parens ?subscript
    ?nil ?call ?cons
  case number =>
    intro digits hdigits
    rw [ofNode, nodes, uprightNode_of_isNumeral hdigits, Node.normal]
  case letter =>
    intro c _
    rw [ofNode, nodes, String.toList_ofList, Node.normal]
    rfl
  case text =>
    rintro content ⟨c, hcontent, hc⟩
    rw [ofNode, nodes, uprightNode_of_isTextChar hcontent hc, Node.normal]
  case operator =>
    intro op
    rw [ofNode, nodes, find?_glyph, Node.normal]
    rfl
  case function =>
    intro name _
    rw [ofNode, nodes, Node.normal]
  case fraction =>
    rintro numerator denominator ⟨-, hover⟩ ⟨-, hunder⟩
    rw [ofNode, nodes, hover, hunder, Node.normal]
  case power =>
    rintro base exponent ⟨-, hunder⟩ ⟨-, hover⟩
    rw [ofNode, nodes, hunder, hover, Node.normal]
  case root =>
    rintro radicand ⟨-, hinner⟩
    rw [ofNode, nodes, hinner, Node.normal]
  case parens =>
    rintro inner ⟨-, hinner⟩
    rw [ofNode, nodes, hinner, Node.normal]
  case subscript =>
    rintro base script - ⟨-, hinner⟩
    rw [ofNode, nodes, hinner, Node.normal]
    rfl
  case nil => rw [ofNodes, rowNodes, Node.normalRow]
  case call =>
    -- a function name and the group that it is called on are one fragment
    rintro name inner rest ⟨-, hinner⟩ hrest
    rw [ofNodes, rowNodes, nodes_ofCall, hinner, hrest, Node.normalRow]
  case cons =>
    intro n rest halone hn hrest
    rw [ofNodes.eq_3 n rest halone, rowNodes, hn, hrest, Node.normalRow.eq_3 n rest halone]
    rfl

/-- The nodes of a line that has been read, read off its drawing. -/
theorem rowNodes_ofNodes_readLine (s : List Char) :
    rowNodes (ofNodes (Node.readLine s)) = Node.normalRow (Node.readLine s) :=
  nodes_ofNode_and_rowNodes_ofNodes.2 _ (hasShape_of_mem_readLine s)

end Fragment

/-! ## Lines that are drawn the same -/

/-- Two lines are drawn the same exactly if they are the same once their square roots are
all typed in one way. -/
theorem drawn_alike_iff (s t : List Char) :
    Fragment.ofNodes (Node.readLine s) = Fragment.ofNodes (Node.readLine t) ↔
      Node.normalRow (Node.readLine s) = Node.normalRow (Node.readLine t) := by
  constructor
  · intro h
    rw [← Fragment.rowNodes_ofNodes_readLine, h, Fragment.rowNodes_ofNodes_readLine]
  · intro h
    rw [← Fragment.ofNodes_normalRow, h, Fragment.ofNodes_normalRow]

/-- Two lines that are drawn the same are the same in TeX. -/
theorem line_of_drawn_alike {s t : List Char}
    (h : Fragment.ofNodes (Node.readLine s) = Fragment.ofNodes (Node.readLine t)) :
    Tex.line (Node.readLine s) = Tex.line (Node.readLine t) := by
  rw [← Tex.line_normalRow, ← Tex.line_normalRow (Node.readLine t),
    ← Fragment.rowNodes_ofNodes_readLine, h, Fragment.rowNodes_ofNodes_readLine]

/-- A square root under the exponent of a power, typed in both ways. -/
theorem line_of_typed_roots :
    Fragment.ofNodes (Node.readLine "x_1^(2+sqrt(x))".toList) =
        Fragment.ofNodes (Node.readLine "x_1^(2+√x)".toList) ∧
      Tex.line (Node.readLine "x_1^(2+sqrt(x))".toList) =
        Tex.line (Node.readLine "x_1^(2+√x)".toList) :=
  have hrows : Node.normalRow (Node.readLine "x_1^(2+sqrt(x))".toList) =
      Node.normalRow (Node.readLine "x_1^(2+√x)".toList) := by decide +kernel
  have hdrawn := (Fragment.ofNodes_normalRow _).symm.trans
    ((congrArg Fragment.ofNodes hrows).trans (Fragment.ofNodes_normalRow _))
  ⟨hdrawn, line_of_drawn_alike hdrawn⟩

end MathLine
