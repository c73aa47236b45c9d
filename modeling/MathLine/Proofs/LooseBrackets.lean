import MathLine.Proofs.Canonical

set_option autoImplicit false

/-!
# Where brackets without a partner go

Brackets are usually matched with a stack: an opening bracket is pushed, and a closing one
takes its partner from the top or, when nothing is there, has none.  `pairing` is that pass,
over the places of the brackets, and `loose` counts what it leaves (`counts_pairing`).

Reading never makes this pass.  It looks for the partner of one bracket at a time, in
whatever text is left, and starts anew inside each construction.  `looseBrackets_readLine`
says that the outcome is the same: the brackets that end up as text, at any depth, are those
that the stack finds no partner for, the closing ones first.  They stand in the line itself,
or at the foot of a power in it, and in no row that a sign or a group encloses.

That an enclosed row keeps no bracket as text is known of its own feet, for it was read from
a balanced text.  As its nodes enclose rows in turn, the rest is an induction over nodes
and rows (`filter_inTree`).
-/

namespace MathLine

namespace Text

/-! ## Matching with a stack -/

/-- What a pass over a text knows of its brackets: the places of the opening ones that wait
for a partner, the last one on top, and the places of the closing ones that found none. -/
structure Pairing where
  waiting : List Nat
  alone : List Nat
  deriving DecidableEq, Repr, Inhabited

namespace Pairing

/-- What is known once the character `c` at the place `i` is passed. -/
def pass (p : Pairing) (c : Char) (i : Nat) : Pairing :=
  if c = '(' then { p with waiting := i :: p.waiting }
  else if c = ')' then
    match p.waiting with
    | [] => { p with alone := i :: p.alone }
    | _ :: waiting => { p with waiting }
  else p

/-- How many brackets have no partner so far. -/
def counts (p : Pairing) : Loose := ⟨p.alone.length, p.waiting.length⟩

theorem counts_pass (p : Pairing) (c : Char) (i : Nat) :
    (p.pass c i).counts = p.counts.pass c := by
  obtain ⟨waiting, alone⟩ := p
  by_cases hopen : c = '('
  · simp [pass, Loose.pass, counts, hopen]
  · by_cases hclose : c = ')'
    · cases waiting <;> simp [pass, Loose.pass, counts, hclose]
    · simp [pass, Loose.pass, hopen, hclose]

theorem counts_foldl_pass (s : List Char) (p : Pairing) (start : Nat) :
    ((s.zipIdx start).foldl (fun p (c, i) => p.pass c i) p).counts =
      s.foldl Loose.pass p.counts := by
  induction s generalizing p start with
  | nil => rfl
  | cons c s ih => rw [List.zipIdx_cons, List.foldl_cons, List.foldl_cons, ih, counts_pass]

end Pairing

/-- The brackets of `s` that a stack finds no partner for. -/
def pairing (s : List Char) : Pairing :=
  s.zipIdx.foldl (fun p (c, i) => p.pass c i) ⟨[], []⟩

/-- There are as many of them as are loose. -/
theorem counts_pairing (s : List Char) : (pairing s).counts = loose s :=
  Pairing.counts_foldl_pass s ⟨[], []⟩ 0

/-- The closing bracket at 8 takes the opening one at 7 from the top, and those below it go
on waiting. -/
example : pairing ")^(a)((()".toList = ⟨[6, 5], [0]⟩ := by
  decide +kernel

end Text

open MathLine.Text

namespace Node

/-! ## Brackets as text -/

/-- The text that a bracket becomes. -/
def bracketText (c : Char) : Node := text (String.ofList [c])

/-- Whether a node is a bracket that is kept as text. -/
def isBracketText : Node → Bool
  | text content => content == "(" || content == ")"
  | _ => false

theorem isBracketText_bracketText (c : Char) : (bracketText c).isBracketText = isBracket c := by
  have hsame (d : Char) : (String.ofList [c] == String.ofList [d]) = (c == d) := by
    rw [Bool.eq_iff_iff, beq_iff_eq, beq_iff_eq, String.ofList_inj, List.singleton_inj]
  rw [isBracket, ← hsame, ← hsame]
  rfl

/-- The loose brackets as texts. -/
theorem map_bracketText_typed (l : Loose) :
    l.typed.map bracketText =
      List.replicate l.closing (text ")") ++ List.replicate l.opening (text "(") := by
  rw [Loose.typed, List.map_append, List.map_replicate, List.map_replicate]
  rfl

/-- A text of one character is a bracket exactly when the character is. -/
theorem filter_text {content : String} (h : (text content).HasShape) :
    [text content].filter isBracketText = (text content).strays.map bracketText := by
  obtain ⟨c, hcontent, -⟩ := h
  obtain rfl : content = String.ofList [c] := by rw [← hcontent, String.ofList_toList]
  have hbracket := isBracketText_bracketText c
  rw [strays, hcontent]
  change [bracketText c].filter isBracketText = _
  cases hc : isBracket c with
  | true => simp [hbracket, hc]
  | false => simp [hbracket, hc]

/-! ## Feet and enclosed rows -/

mutual

/-- A node and, if it is a power, what it stands on: the nodes of its base and what these
stand on in turn. -/
def feet : Node → List Node
  | power base exponent => power base exponent :: rowFeet base
  | n => [n]

/-- The nodes of a row and what they stand on. -/
def rowFeet : List Node → List Node
  | [] => []
  | n :: ns => feet n ++ rowFeet ns

end

/-- The rows that a sign or a group encloses: all rows right inside a node but the base of
a power. -/
def enclosedRows : Node → List (List Node)
  | power _ exponent => [exponent]
  | n => n.childRows

theorem childRow_of_enclosed {n : Node} {row : List Node} (h : row ∈ n.enclosedRows) :
    row ∈ n.childRows := by
  cases n with
  | power base _ => exact List.mem_cons_of_mem base h
  | _ => exact h

theorem rowStrays_of_enclosed {n : Node} {row : List Node} (h : n.IsReadable)
    (hrow : row ∈ n.enclosedRows) : rowStrays row = [] := by
  cases n with
  | number _ | letter _ | text _ | operator _ | function _ => exact absurd hrow List.not_mem_nil
  | fraction numerator denominator =>
    obtain ⟨⟨⟨n, rfl, hliteral⟩, -, -⟩, w, hword, rfl⟩ := h
    simp only [enclosedRows, childRows, List.mem_cons, List.not_mem_nil, or_false] at hrow
    rcases hrow with rfl | rfl
    · simp [strays_of_literal hliteral]
    · exact rowStrays_of_balanced hword.isBalanced
  | power _ _ | root _ | parens _ | subscript _ _ =>
    obtain rfl := List.mem_singleton.1 hrow
    exact h.2

/-! ## Where the brackets are -/

mutual

/-- The brackets that a node keeps as text, at any depth, are those at its foot. -/
theorem filter_inTree : (n : Node) → (∀ m ∈ inTree n, m.IsReadable) →
    (inTree n).filter isBracketText = n.strays.map bracketText
  | number _, _ | letter _, _ | operator _, _ | function _, _ => by
    simp [inTree, strays, isBracketText]
  | text _, h => by
    rw [inTree]
    exact filter_text (isReadable_self h).1
  | fraction numerator denominator, h => by
    have hself := isReadable_self h
    have hover := filter_inRow numerator (forall_inRow_of_childRow (by simp [childRows]) h)
    have hunder := filter_inRow denominator (forall_inRow_of_childRow (by simp [childRows]) h)
    -- Both rows are enclosed, so neither has a bracket at its feet, nor then anywhere.
    rw [rowStrays_of_enclosed hself (by simp [enclosedRows, childRows])] at hover hunder
    simp [inTree, strays, isBracketText, hover, hunder]
  | power base exponent, h => by
    have hself := isReadable_self h
    have hbase := filter_inRow base (forall_inRow_of_childRow (by simp [childRows]) h)
    have hexponent := filter_inRow exponent (forall_inRow_of_childRow (by simp [childRows]) h)
    -- The exponent is enclosed, but what the base has at its feet the power has at its foot.
    rw [rowStrays_of_enclosed hself (by simp [enclosedRows])] at hexponent
    simp [inTree, strays, isBracketText, hbase, hexponent]
  | root row, h | parens row, h | subscript _ row, h => by
    have hself := isReadable_self h
    have hinner := filter_inRow row (forall_inRow_of_childRow (by simp [childRows]) h)
    rw [rowStrays_of_enclosed hself (by simp [enclosedRows, childRows])] at hinner
    simp [inTree, strays, isBracketText, hinner]

/-- The brackets that a row keeps as text, at any depth, are those at its feet. -/
theorem filter_inRow : (ns : List Node) → (∀ m ∈ inRow ns, m.IsReadable) →
    (inRow ns).filter isBracketText = (rowStrays ns).map bracketText
  | [], _ => by simp
  | n :: ns, h => by
    rw [inRow_cons, List.forall_mem_append] at h
    rw [inRow_cons, List.filter_append, filter_inTree n h.1, filter_inRow ns h.2, rowStrays_cons,
      List.map_append]

end

mutual

/-- The brackets at the foot of a node are nodes that it stands on. -/
theorem filter_feet : (n : Node) → (∀ m ∈ inTree n, m.IsReadable) →
    (feet n).filter isBracketText = n.strays.map bracketText
  | text _, h => by
    rw [feet, filter_text (isReadable_self h).1]
    exact nofun
  | power base _, h => by
    have hbase := filter_rowFeet base (forall_inRow_of_childRow (by simp [childRows]) h)
    simp [feet, strays, isBracketText, hbase]
  | number _, _ | letter _, _ | operator _, _ | function _, _ | fraction _ _, _ | root _, _
  | parens _, _ | subscript _ _, _ => by
    simp [feet, strays, isBracketText]

/-- The brackets at the feet of a row are nodes that it stands on. -/
theorem filter_rowFeet : (ns : List Node) → (∀ m ∈ inRow ns, m.IsReadable) →
    (rowFeet ns).filter isBracketText = (rowStrays ns).map bracketText
  | [], _ => by simp [rowFeet]
  | n :: ns, h => by
    rw [inRow_cons, List.forall_mem_append] at h
    rw [rowFeet, List.filter_append, filter_feet n h.1, filter_rowFeet ns h.2, rowStrays_cons,
      List.map_append]

end

/-- The brackets of a line that are kept as text, wherever they stand in what is read, are
those that a stack finds no partner for, the closing ones first.  They are nodes of the line
or at the foot of its powers, and no row that a node encloses has any. -/
theorem looseBrackets_readLine (s : List Char) :
    (inRow (readLine s)).filter isBracketText =
        List.replicate (pairing s).alone.length (text ")") ++
          List.replicate (pairing s).waiting.length (text "(") ∧
      (rowFeet (readLine s)).filter isBracketText =
        (inRow (readLine s)).filter isBracketText ∧
      ∀ n ∈ inRow (readLine s), ∀ row ∈ n.enclosedRows,
        (inRow row).filter isBracketText = [] := by
  have hreadable := isReadable_of_mem_readLine s
  have hrow := filter_inRow (readLine s) hreadable
  refine ⟨?_, ?_, ?_⟩
  · rw [hrow, rowStrays_readLine, map_bracketText_typed, ← counts_pairing]
    rfl
  · rw [hrow, filter_rowFeet (readLine s) hreadable]
  · intro n hn row henclosed
    have htree : ∀ m ∈ inTree n, m.IsReadable := by
      intro m hm
      exact hreadable m (inTree_subset_inRow (readLine s) n hn hm)
    have hinner := forall_inRow_of_childRow (childRow_of_enclosed henclosed) htree
    rw [filter_inRow row hinner, rowStrays_of_enclosed (hreadable n hn) henclosed, List.map_nil]

/-- A bracket may be raised to a power, and the exponent keeps none as text. -/
theorem no_bracketText_in_exponent :
    power [text ")"] [parens [letter 'a']] ∈ inRow (readLine ")^((a))((x)".toList) ∧
      [parens [letter 'a']] ∈ (power [text ")"] [parens [letter 'a']]).enclosedRows ∧
        (inRow [parens [letter 'a']]).filter isBracketText = [] :=
  have hmem : power [text ")"] [parens [letter 'a']] ∈
      inRow (readLine ")^((a))((x)".toList) := by decide +kernel
  have henclosed : [parens [letter 'a']] ∈
      (power [text ")"] [parens [letter 'a']]).enclosedRows := List.mem_singleton.2 rfl
  ⟨hmem, henclosed, (looseBrackets_readLine _).2.2 _ hmem _ henclosed⟩

end Node

end MathLine
