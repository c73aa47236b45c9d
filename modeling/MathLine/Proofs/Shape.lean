import MathLine.Proofs.Steps

set_option autoImplicit false

/-!
# The shape of what is read

Nodes may be put together in any way, but reading makes only some of them.  `HasShape`
is the shape of a single node, given the nodes right inside it: a number has the form of
one, text is a single character that means nothing else, a fraction bar stands between a
number or letter and a word, a power has one base, and no construction but a group is
empty.

The nodes of a line at every depth are listed by `inRow`.  `shape_of_readLine` says that
each of those that are read has its shape.  What a word is read as is needed on
the way: numbers without a point, letters and function names (`isWordPiece_of_mem_readLine`).
-/

namespace MathLine

open MathLine.Text

namespace Node

/-! ## Nodes at every depth -/

mutual

/-- The node and all nodes inside it, a node before those inside it and otherwise in the
order in which they are typed. -/
def inTree : Node → List Node
  | number digits => [number digits]
  | letter c => [letter c]
  | text content => [text content]
  | operator op => [operator op]
  | function name => [function name]
  | fraction numerator denominator =>
    fraction numerator denominator :: (inRow numerator ++ inRow denominator)
  | power base exponent => power base exponent :: (inRow base ++ inRow exponent)
  | root radicand => root radicand :: inRow radicand
  | parens inner => parens inner :: inRow inner
  | subscript base script => subscript base script :: inRow script

/-- The nodes of a row and all nodes inside them. -/
def inRow : List Node → List Node
  | [] => []
  | n :: ns => inTree n ++ inRow ns

end

@[simp] theorem inRow_nil : inRow [] = [] := by
  rw [inRow]

@[simp] theorem inRow_cons (n : Node) (ns : List Node) :
    inRow (n :: ns) = inTree n ++ inRow ns := by
  rw [inRow]

@[simp] theorem inRow_append (ms ns : List Node) : inRow (ms ++ ns) = inRow ms ++ inRow ns := by
  induction ms with
  | nil => simp
  | cons m ms ih => simp [ih]

/-- The rows right inside a node. -/
def childRows : Node → List (List Node)
  | number _ | letter _ | text _ | operator _ | function _ => []
  | fraction numerator denominator => [numerator, denominator]
  | power base exponent => [base, exponent]
  | root radicand => [radicand]
  | parens inner => [inner]
  | subscript _ script => [script]

/-- The nodes inside a node are those of the rows right inside it. -/
theorem inTree_eq (n : Node) : inTree n = n :: n.childRows.flatMap inRow := by
  cases n <;> simp [inTree, childRows]

theorem mem_inTree_self (n : Node) : n ∈ inTree n := by
  rw [inTree_eq]
  exact List.mem_cons_self

/-- What is so for all nodes in a tree is so for those in the rows below its root. -/
theorem forall_inRow_of_childRow {Q : Node → Prop} {n : Node} {row : List Node}
    (hrow : row ∈ n.childRows) (h : ∀ m ∈ inTree n, Q m) : ∀ m ∈ inRow row, Q m := by
  intro m hm
  apply h m
  rw [inTree_eq]
  exact List.mem_cons_of_mem n (List.mem_flatMap.2 ⟨row, hrow, hm⟩)

theorem mem_inRow_of_mem {n : Node} {ns : List Node} (h : n ∈ ns) : n ∈ inRow ns := by
  induction ns with
  | nil => simp at h
  | cons m ns ih =>
    rw [inRow_cons, List.mem_append]
    rcases List.mem_cons.1 h with rfl | h
    · exact .inl (mem_inTree_self n)
    · exact .inr (ih h)

mutual

/-- The nodes inside a node of a tree are nodes of the tree. -/
theorem inTree_subset_inTree : (n : Node) → ∀ m ∈ inTree n, inTree m ⊆ inTree n
  | number _, m, hm | letter _, m, hm | text _, m, hm | operator _, m, hm | function _, m, hm => by
    rw [inTree, List.mem_singleton] at hm
    rw [hm]
    exact List.Subset.refl _
  | fraction first second, m, hm | power first second, m, hm => by
    rw [inTree, List.mem_cons, List.mem_append] at hm
    rcases hm with rfl | hm | hm
    · exact List.Subset.refl _
    · rw [inTree]
      exact List.subset_cons_of_subset _
        (List.subset_append_of_subset_left _ (inTree_subset_inRow first m hm))
    · rw [inTree]
      exact List.subset_cons_of_subset _
        (List.subset_append_of_subset_right _ (inTree_subset_inRow second m hm))
  | root row, m, hm | parens row, m, hm | subscript _ row, m, hm => by
    rw [inTree, List.mem_cons] at hm
    rcases hm with rfl | hm
    · exact List.Subset.refl _
    · rw [inTree]
      exact List.subset_cons_of_subset _ (inTree_subset_inRow row m hm)

/-- The nodes inside a node of a row, at any depth, are nodes of the row. -/
theorem inTree_subset_inRow : (ns : List Node) → ∀ m ∈ inRow ns, inTree m ⊆ inRow ns
  | [], m, hm => absurd hm (by simp)
  | n :: ns, m, hm => by
    rw [inRow_cons, List.mem_append] at hm
    rw [inRow_cons]
    rcases hm with hm | hm
    · exact List.subset_append_of_subset_left _ (inTree_subset_inTree n m hm)
    · exact List.subset_append_of_subset_right _ (inTree_subset_inRow ns m hm)

end

end Node

/-- Right inside the node of a piece there is what was read inside the piece, or the
nodes that the piece took back. -/
theorem Piece.Reads.eq_of_mem_childRows {last : Option Node} {piece : Piece}
    {typed rest : List Char} (h : piece.Reads last typed rest) (inside : List Node) :
    ∀ row ∈ (piece.node inside).childRows, row = inside ∨ row = piece.retracted last := by
  intro row hrow
  cases h with
  | fraction hlast _ _ _ | power hlast _ =>
    subst hlast
    simp only [node, Node.childRows, List.mem_cons, List.not_mem_nil, or_false] at hrow
    exact hrow.symm
  | subscript _ _ | root _ | group _ =>
    exact .inl (List.mem_singleton.1 hrow)
  | _ => exact absurd hrow List.not_mem_nil

/-- What holds of the node of each step, given that it holds of the nodes taken back,
holds of all nodes of a line, at every depth. -/
theorem forall_inRow_readLine {P : Node → Prop}
    (h : ∀ {last : Option Node} {piece : Piece} {typed rest : List Char},
      piece.Reads last typed rest → (∀ n ∈ piece.retracted last, P n) →
        P (piece.node (Node.readLine piece.inner)))
    (s : List Char) : ∀ n ∈ Node.inRow (Node.readLine s), P n := by
  have hkept : KeptByReading (fun _ nodes => ∀ n ∈ Node.inRow nodes, P n)
      (fun _ done _ => ∀ n ∈ Node.inRow done.reverse, P n) :=
    { start := fun _ => by simp
      skip := fun _ hinv => hinv
      step := by
        intro _ typed rest done piece hinv hreads hrow n hn
        obtain ⟨front, hdone, hplace⟩ := piece.exists_front done (Node.readLine piece.inner)
        rw [hdone, Node.inRow_append] at hinv
        have htaken : ∀ m ∈ Node.inRow (piece.retracted done.head?), P m := by
          intro m hm
          exact hinv m (List.mem_append_right _ hm)
        rw [hplace, Node.inRow_append, Node.inRow_cons, Node.inRow_nil, List.append_nil,
          List.mem_append, Node.inTree_eq, List.mem_cons, List.mem_flatMap] at hn
        rcases hn with hn | rfl | ⟨row, hchild, hn⟩
        · exact hinv n (List.mem_append_left _ hn)
        · apply h hreads
          intro m hm
          exact htaken m (Node.mem_inRow_of_mem hm)
        · rcases hreads.eq_of_mem_childRows _ row hchild with rfl | rfl
          · exact hrow n hn
          · exact htaken n hn
      finish := fun hinv => hinv }
  exact hkept.readLine s

namespace Node

/-! ## Shapes -/

/-- Whether `c` may be text: it is no blank, no letter, no digit, no point and none of the
signs that are always operators. -/
def isTextChar (c : Char) : Bool :=
  !isBlank c && !isWordChar c && !List.elem c ['.', '+', '-', '*', '/', '=', '<', '>']

/-- What a word is made of: numbers without a point, letters and function names. -/
def IsWordPiece : Node → Prop
  | number digits => digits.toList ≠ [] ∧ ∀ c ∈ digits.toList, c.isDigit = true
  | letter _ | function _ => True
  | _ => False

/-- The shape of a node, given the rows right inside it. -/
def HasShape : Node → Prop
  | number digits => Numeral.IsNumeral digits.toList
  | letter c => c.isAlpha = true
  | text content => ∃ c, content.toList = [c] ∧ isTextChar c = true
  | operator _ => True
  | function name => Lexicon.contains name = true
  | fraction numerator denominator =>
    (∃ n, numerator = [n] ∧ n.literal?.isSome = true) ∧
      denominator ≠ [] ∧ ∀ n ∈ denominator, n.IsWordPiece
  | power base exponent => (∃ n, base = [n]) ∧ exponent ≠ []
  | root radicand => radicand ≠ []
  | parens _ => True
  | subscript base script =>
    (Numeral.IsNumeral base.toList ∨ ∃ c, base.toList = [c] ∧ c.isAlpha = true) ∧ script ≠ []

/-- Nothing but a group may be empty. -/
theorem HasShape.eq_parens {n : Node} (h : n.HasShape) (hempty : [] ∈ n.childRows) :
    n = parens [] := by
  cases n with
  | number _ | letter _ | text _ | operator _ | function _ => simp [childRows] at hempty
  | fraction numerator denominator =>
    obtain ⟨⟨m, rfl, -⟩, hne, -⟩ := h
    simp [childRows, eq_comm, hne] at hempty
  | power base exponent =>
    obtain ⟨⟨m, rfl⟩, hne⟩ := h
    simp [childRows, eq_comm, hne] at hempty
  | root radicand =>
    simp only [childRows, List.mem_singleton] at hempty
    exact absurd hempty.symm h
  | parens inner =>
    simp only [childRows, List.mem_singleton] at hempty
    rw [hempty]
  | subscript base script =>
    simp only [childRows, List.mem_singleton] at hempty
    exact absurd hempty.symm h.2

/-- The text of a number or letter that has its shape may carry a subscript. -/
theorem HasShape.literal {n : Node} {base : String} (h : n.HasShape)
    (hbase : n.literal? = some base) :
    Numeral.IsNumeral base.toList ∨ ∃ c, base.toList = [c] ∧ c.isAlpha = true := by
  cases n <;> simp only [literal?, Option.some.injEq, reduceCtorEq] at hbase
  · exact .inl (hbase ▸ h)
  · next c => exact .inr ⟨c, by rw [← hbase, String.toList_ofList], h⟩

end Node

/-! ## Words -/

/-- A step that takes nothing but letters and digits reads a piece of a word. -/
theorem Piece.Reads.isWordPiece {last : Option Node} {piece : Piece} {typed rest : List Char}
    (h : piece.Reads last typed rest) (hword : ∀ c ∈ typed, isWordChar c = true) :
    ∃ n, piece = .leaf n ∧ n.IsWordPiece := by
  cases h with
  | number hne hlead =>
    refine ⟨_, rfl, by rwa [String.toList_ofList], ?_⟩
    intro c hc
    rw [String.toList_ofList] at hc
    have hstart := (Numeral.isNumeral_of_leading_append hne hlead).isStart_of_mem c hc
    rw [Numeral.isStart, Bool.or_eq_true, beq_iff_eq] at hstart
    rcases hstart with hdigit | rfl
    · exact hdigit
    · exact absurd (hword '.' hc) (by decide)
  | function _ _ => exact ⟨_, rfl, trivial⟩
  | letter _ _ => exact ⟨_, rfl, trivial⟩
  | @operator op _ _ =>
    cases op <;> exact absurd (hword _ List.mem_cons_self) (by decide)
  | @other c _ hc _ =>
    have hno := (isOther_iff.1 hc).2.1
    rw [hword c List.mem_cons_self] at hno
    exact absurd hno.symm Bool.false_ne_true
  | _ => exact absurd (hword _ List.mem_cons_self) (by decide)

theorem keptByReading_isWordPiece :
    KeptByReading
      (fun s nodes => (∀ c ∈ s, isWordChar c = true) → ∀ n ∈ nodes, n.IsWordPiece)
      (fun whole done s => (∀ c ∈ whole, isWordChar c = true) →
        (∀ c ∈ s, isWordChar c = true) ∧ ∀ n ∈ done.reverse, n.IsWordPiece) where
  start := by
    intro s hwhole
    refine ⟨hwhole, ?_⟩
    intro n hn
    exact absurd hn List.not_mem_nil
  skip := by
    intro whole blanks s done _ hinv hwhole
    obtain ⟨hs, hdone⟩ := hinv hwhole
    refine ⟨?_, hdone⟩
    intro c hc
    exact hs c (List.mem_append_right blanks hc)
  step := by
    intro whole typed rest done piece hinv hreads _ hwhole
    obtain ⟨hs, hdone⟩ := hinv hwhole
    have htyped : ∀ c ∈ typed, isWordChar c = true := by
      intro c hc
      exact hs c (List.mem_append_left rest hc)
    obtain ⟨n, rfl, hn⟩ := hreads.isWordPiece htyped
    constructor
    · intro c hc
      exact hs c (List.mem_append_right typed hc)
    · intro m hm
      rw [Piece.reverse_place_leaf, List.mem_append, List.mem_singleton] at hm
      rcases hm with hm | rfl
      · exact hdone m hm
      · exact hn
  finish hinv hwhole := (hinv hwhole).2

/-- A word is read as numbers without a point, letters and function names. -/
theorem isWordPiece_of_mem_readLine {w : List Char} (hword : ∀ c ∈ w, isWordChar c = true) :
    ∀ n ∈ Node.readLine w, n.IsWordPiece :=
  keptByReading_isWordPiece.readLine w hword

/-! ## Lines -/

theorem isTextChar_of_isOther {c : Char} (h : isOther c = true) : Node.isTextChar c = true := by
  obtain ⟨hblank, hword, hsign⟩ := isOther_iff.1 h
  simp only [List.mem_cons, List.not_mem_nil, or_false, not_or] at hsign
  simp [Node.isTextChar, hblank, hword, hsign]

/-- What is read from an argument is not empty. -/
theorem Argument.readLine_ne_nil {arg written rest : List Char}
    (h : Argument arg written rest) : Node.readLine arg ≠ [] := by
  intro hnil
  have hblank := Node.readLine_eq_nil_iff.1 hnil
  rw [h.not_blank] at hblank
  exact Bool.false_ne_true hblank

/-- The node of a step has its shape if the nodes that are taken back have theirs. -/
theorem Piece.Reads.hasShape {last : Option Node} {piece : Piece} {typed rest : List Char}
    (h : piece.Reads last typed rest) (hlast : ∀ n ∈ piece.retracted last, n.HasShape) :
    (piece.node (Node.readLine piece.inner)).HasShape := by
  cases h with
  | number hne hlead =>
    have hnumeral := Numeral.isNumeral_of_leading_append hne hlead
    have htext : (String.ofList typed).toList = typed := String.toList_ofList
    rwa [← htext] at hnumeral
  | function hname _ => exact hname
  | letter hc _ => exact hc
  | operator _ => exact trivial
  | divide _ => exact trivial
  | @fraction numerator w _ hlast' hliteral hw _ =>
    have hne : Node.readLine w ≠ [] := by
      intro hnil
      have hblank := Node.readLine_eq_nil_iff.1 hnil
      rw [isBlankText_of_isWord hw] at hblank
      exact Bool.false_ne_true hblank
    exact ⟨⟨numerator, rfl, hliteral⟩, hne, isWordPiece_of_mem_readLine hw.2⟩
  | @power base _ _ _ _ harg => exact ⟨⟨base, rfl⟩, harg.readLine_ne_nil⟩
  | @subscript base _ _ _ hlast' harg =>
    obtain ⟨n, rfl, hbase⟩ := Option.bind_eq_some_iff.1 hlast'
    have hn : n.HasShape := hlast n (List.mem_singleton.2 rfl)
    exact ⟨hn.literal hbase, harg.readLine_ne_nil⟩
  | root harg => exact harg.readLine_ne_nil
  | group _ => exact trivial
  | caret _ => exact ⟨'^', rfl, by decide⟩
  | underscore _ => exact ⟨'_', rfl, by decide⟩
  | radical _ => exact ⟨'√', rfl, by decide⟩
  | openBracket _ => exact ⟨'(', rfl, by decide⟩
  | closeBracket => exact ⟨')', rfl, by decide⟩
  | @other c _ hc _ => exact ⟨c, String.toList_ofList, isTextChar_of_isOther hc⟩

theorem hasShape_of_mem_readLine (s : List Char) :
    ∀ n ∈ Node.inRow (Node.readLine s), n.HasShape :=
  forall_inRow_readLine (fun hreads hlast => hreads.hasShape hlast) s

/-- All nodes of a line that has been read have their shape, at every depth, and none but
a group has an empty row inside it. -/
theorem shape_of_readLine (s : List Char) :
    ∀ n ∈ Node.inRow (Node.readLine s),
      n.HasShape ∧ ([] ∈ n.childRows → n = .parens []) := by
  intro n hn
  have hshape := hasShape_of_mem_readLine s n hn
  refine ⟨hshape, ?_⟩
  intro hempty
  exact hshape.eq_parens hempty

/-- The subscript inside the root inside the group of `(√(x_1))`. -/
theorem shape_of_nested_subscript :
    Node.subscript "x" [.number "1"] ∈ Node.inRow (Node.readLine "(√(x_1))".toList) ∧
      (Node.subscript "x" [.number "1"]).HasShape ∧
        ([] ∈ (Node.subscript "x" [.number "1"]).childRows →
          Node.subscript "x" [.number "1"] = .parens []) :=
  have hmem : Node.subscript "x" [.number "1"] ∈
      Node.inRow (Node.readLine "(√(x_1))".toList) := by decide +kernel
  ⟨hmem, shape_of_readLine _ _ hmem⟩

end MathLine
