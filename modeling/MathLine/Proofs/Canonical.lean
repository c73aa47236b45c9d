import MathLine.Proofs.Spelling
import MathLine.Proofs.Strays

set_option autoImplicit false

/-!
# Typing a line again

Of the many ways of typing the same nodes one is the canonical one: a space between
neighbours, all arguments in brackets, nothing else.  `canonical` and `spaced` give it.

`readLine_spaced` says that reading undoes it.  It holds of nodes that reading can make,
which is said in two parts: each node has its shape (`HasShape`) and is settled
(`IsSettled`), and the brackets without a partner stand in the order in which a text can
have them.  There are no other such nodes (`exists_readLine_eq_iff`).

The proof reads the canonical spelling node by node.  What may follow a node
there is little: the end, a space, or a sign that builds on the node (`mayFollow`), so no
step looks further than the node it is about; only an opening bracket without a partner
looks at all that follows.
-/

namespace MathLine

open MathLine.Text

namespace Node

mutual

/-- The canonical spelling of a node. -/
def canonical : Node → List Char
  | number digits => digits.toList
  | letter c => [c]
  | text content => content.toList
  | operator op => op.typed.toList
  | function name => name.toList
  | fraction numerator denominator => together numerator ++ '/' :: together denominator
  | power base exponent => spaced base ++ '^' :: ('(' :: spaced exponent ++ [')'])
  | root radicand => '√' :: ('(' :: spaced radicand ++ [')'])
  | parens inner => '(' :: spaced inner ++ [')']
  | subscript base script => base.toList ++ '_' :: ('(' :: spaced script ++ [')'])

/-- The canonical spelling of a row: its nodes with a space between neighbours. -/
def spaced : List Node → List Char
  | [] => []
  | n :: ns => canonical n ++ spacedAfter ns

/-- The nodes of a row, each after a space. -/
def spacedAfter : List Node → List Char
  | [] => []
  | n :: ns => ' ' :: canonical n ++ spacedAfter ns

/-- The nodes of a row with nothing between neighbours. -/
def together : List Node → List Char
  | [] => []
  | n :: ns => canonical n ++ together ns

end

end Node

/-! ## What may follow a node -/

/-- Whether `s` may follow a node in a canonical spelling: the end, a space, or a sign
that builds on the node. -/
def mayFollow : List Char → Bool
  | [] => true
  | c :: _ => [' ', '^', '/', '_'].elem c

theorem eq_nil_or_cons_of_mayFollow {s : List Char} (h : mayFollow s = true) :
    s = [] ∨ ∃ c tail, s = c :: tail ∧ (c = ' ' ∨ c = '^' ∨ c = '/' ∨ c = '_') := by
  cases s with
  | nil => exact .inl rfl
  | cons c tail =>
    refine .inr ⟨c, tail, rfl, ?_⟩
    simpa [mayFollow] using h

theorem startsInWord_of_mayFollow {s : List Char} (h : mayFollow s = true) :
    startsInWord s = false := by
  rcases eq_nil_or_cons_of_mayFollow h with rfl | ⟨c, tail, rfl, rfl | rfl | rfl | rfl⟩ <;> rfl

theorem stops_of_mayFollow {s : List Char} (h : mayFollow s = true) :
    Numeral.stops s = true := by
  rcases eq_nil_or_cons_of_mayFollow h with rfl | ⟨c, tail, rfl, rfl | rfl | rfl | rfl⟩ <;> rfl

/-- No argument starts where a node ends. -/
theorem argument?_of_mayFollow {s : List Char} (h : mayFollow s = true) :
    Piece.argument? s = none := by
  rcases eq_nil_or_cons_of_mayFollow h with rfl | ⟨c, tail, rfl, rfl | rfl | rfl | rfl⟩ <;> rfl

/-- An operator other than the slash is read where it ends. -/
theorem read?_typed_append {op : Operator} {s : List Char} (hop : op ≠ .divide)
    (h : mayFollow s = true) : Operator.read? (op.typed.toList ++ s) = some (op, s) := by
  rcases eq_nil_or_cons_of_mayFollow h with rfl | ⟨c, tail, rfl, rfl | rfl | rfl | rfl⟩ <;>
    cases op <;> first | rfl | exact absurd rfl hop

/-- No operator is read at a character that stands for itself. -/
theorem read?_of_isOther {c : Char} {s : List Char} (hc : isOther c = true)
    (h : mayFollow s = true) : Operator.read? (c :: s) = none := by
  cases hread : Operator.read? (c :: s) with
  | none => rfl
  | some found =>
    obtain ⟨op, rest⟩ := found
    have hsign := (isOther_iff.1 hc).2.2
    have hcut := Operator.eq_typed_append_of_read? hread
    cases op <;> obtain ⟨rfl, rfl⟩ := List.cons.inj hcut <;>
      first
      | exact absurd hsign (by decide)
      | exact absurd h Bool.false_ne_true

namespace Node

/-! ## Leaves -/

/-- Whether a node has nothing inside it. -/
def isLeaf : Node → Bool
  | number _ | letter _ | text _ | operator _ | function _ => true
  | fraction _ _ | power _ _ | root _ | parens _ | subscript _ _ => false

theorem isOther_of_isTextChar {c : Char} (h : isTextChar c = true)
    (hsign : c ∉ ['^', '_', '√', '(', ')']) : isOther c = true := by
  simp only [List.mem_cons, List.not_mem_nil, or_false, not_or] at hsign
  simp only [isTextChar, Bool.and_eq_true, Bool.not_eq_true', List.elem_eq_mem,
    decide_eq_false_iff_not, List.mem_cons, List.not_mem_nil, or_false, not_or] at h
  simp [isOther_iff, h, hsign]

/-- A text of one character is read back where it ends. -/
theorem reads_text {c : Char} {rest : List Char} (last : Option Node)
    (hc : isTextChar c = true) (hrest : mayFollow rest = true)
    (hopen : c = '(' → (loose rest).closing = 0) :
    Piece.Reads last (.leaf (.text (String.ofList [c]))) [c] rest := by
  by_cases hsign : c ∈ ['^', '_', '√', '(', ')']
  · simp only [List.mem_cons, List.not_mem_nil, or_false] at hsign
    have hnone := argument?_of_mayFollow hrest
    rcases hsign with rfl | rfl | rfl | rfl | rfl
    · exact .caret (.inr hnone)
    · exact .underscore (.inr hnone)
    · exact .radical hnone
    · exact .openBracket (hopen rfl)
    · exact .closeBracket
  · have hother := isOther_of_isTextChar hc hsign
    exact .other hother (read?_of_isOther hother hrest)

/-- A leaf is read back where it ends. -/
theorem reads_leaf {n : Node} {rest : List Char} (last : Option Node) (hleaf : n.isLeaf = true)
    (hshape : n.HasShape) (hrest : mayFollow rest = true)
    (hopen : '(' ∈ n.strays → (loose rest).closing = 0) :
    Piece.Reads last (.leaf n) n.canonical rest := by
  cases n with
  | number digits =>
    have hlead := Numeral.leading_append_of_stop hshape (stops_of_mayFollow hrest)
    have hreads : Piece.Reads last (.leaf (.number (String.ofList digits.toList)))
        digits.toList rest := .number hshape.ne_nil hlead
    rwa [String.ofList_toList] at hreads
  | letter c =>
    exact .letter hshape (Lexicon.leading?_of_single (isWordChar_of_isAlpha hshape)
      (startsInWord_of_mayFollow hrest))
  | text content =>
    obtain ⟨c, hcontent, hc⟩ := hshape
    obtain rfl : content = String.ofList [c] := by rw [← hcontent, String.ofList_toList]
    rw [canonical, hcontent]
    apply reads_text last hc hrest
    rintro rfl
    exact hopen (by simp [strays, isBracket])
  | operator op =>
    by_cases hop : op = .divide
    · subst hop
      exact .divide (by simp [startsInWord_of_mayFollow hrest])
    · exact .operator (read?_typed_append hop hrest)
  | function name => exact .function hshape (startsInWord_of_mayFollow hrest)
  | _ => exact absurd hleaf Bool.false_ne_true

/-! ## Words -/

/-- What a word is made of can be typed in one way only. -/
theorem eq_canonical_of_spells {n : Node} {t : List Char} (hn : n.IsWordPiece)
    (h : Spells n t) : t = n.canonical := by
  cases h with
  | number _ | letter _ | function _ => rw [canonical]
  | _ => exact hn.elim

theorem eq_together_of_rowSpells {ns : List Node} {t : List Char}
    (hns : ∀ n ∈ ns, n.IsWordPiece) (h : RowSpells ns t) : t = together ns := by
  induction ns generalizing t with
  | nil => exact h.eq_nil
  | cons n ns ih =>
    cases h with
    | cons hnode hrow =>
      rw [together, eq_canonical_of_spells (hns n List.mem_cons_self) hnode,
        ih (fun m hm => hns m (List.mem_cons_of_mem n hm)) hrow]

/-- What a word is read as, with nothing between neighbours, is the word. -/
theorem together_readLine {w : List Char} (h : IsWord w) : together (readLine w) = w := by
  have hspells : RowSpells (readLine w) (withoutBlanks w) := keptByReading_spells.readLine w
  rw [withoutBlanks_word h] at hspells
  exact (eq_together_of_rowSpells (isWordPiece_of_mem_readLine h.2) hspells).symm

/-! ## What reading makes -/

/-- What is inside a node was read from a text of the right sort: a denominator from a
word, and all else from a text without loose brackets. -/
def IsSettled : Node → Prop
  | number _ | letter _ | text _ | operator _ | function _ => True
  | fraction _ denominator => ∃ w, IsWord w ∧ denominator = readLine w
  | power _ row | root row | parens row | subscript _ row => rowStrays row = []

/-- Whether a node, given the rows right inside it, is one that reading makes. -/
def IsReadable (n : Node) : Prop := n.HasShape ∧ n.IsSettled

/-- Whether brackets stand in the order in which those without a partner do: the closing
ones first. -/
def InOrder (brackets : List Char) : Prop := brackets.Pairwise fun a b => a = '(' → b = '('

theorem inOrder_typed (l : Loose) : InOrder l.typed := by
  rw [InOrder, Loose.typed, List.pairwise_append]
  refine ⟨?_, ?_, ?_⟩
  · rw [List.pairwise_replicate]
    exact .inr (by decide)
  · rw [List.pairwise_replicate]
    exact .inr fun h => h
  · intro a ha b hb _
    exact List.eq_of_mem_replicate hb

/-- All nodes that reading makes are readable. -/
theorem isReadable_of_mem_readLine (s : List Char) :
    ∀ n ∈ inRow (readLine s), n.IsReadable := by
  have hsettled : ∀ n ∈ inRow (readLine s), n.IsSettled := by
    refine forall_inRow_readLine ?_ s
    intro last piece typed rest hreads _
    cases hreads with
    | @fraction _ w _ _ _ hword _ => exact ⟨w, hword, rfl⟩
    | power _ harg | subscript _ harg | root harg => exact rowStrays_of_balanced harg.isBalanced.1
    | group hbalanced => exact rowStrays_of_balanced hbalanced
    | _ => exact trivial
  intro n hn
  exact ⟨hasShape_of_mem_readLine s n hn, hsettled n hn⟩

/-! ## Brackets of canonical spellings -/

theorem isReadable_self {n : Node} (h : ∀ m ∈ inTree n, m.IsReadable) : n.IsReadable :=
  h n (mem_inTree_self n)

theorem isBalanced_canonical_of_literal {n : Node} (hshape : n.HasShape)
    (hliteral : n.literal?.isSome = true) : IsBalanced n.canonical := by
  cases n with
  | number digits => exact Numeral.IsNumeral.isBalanced hshape
  | letter c =>
    have hc : c.isAlpha = true := hshape
    exact isBalanced_cons (isBracket_of_isWordChar (isWordChar_of_isAlpha hc)) isBalanced_nil
  | _ => exact absurd hliteral Bool.false_ne_true

theorem isBalanced_base {base : String}
    (h : Numeral.IsNumeral base.toList ∨ ∃ c, base.toList = [c] ∧ c.isAlpha = true) :
    IsBalanced base.toList := by
  rcases h with hnumeral | ⟨c, hbase, hc⟩
  · exact hnumeral.isBalanced
  · rw [hbase]
    exact isBalanced_cons (isBracket_of_isWordChar (isWordChar_of_isAlpha hc)) isBalanced_nil

/-- A fraction of a number or letter and a word is spelled without loose brackets. -/
theorem isBalanced_canonical_fraction {numerator denominator : List Node}
    (h : ∀ m ∈ inTree (fraction numerator denominator), m.IsReadable) :
    IsBalanced (fraction numerator denominator).canonical := by
  obtain ⟨⟨⟨n, rfl, hliteral⟩, -, -⟩, w, hword, rfl⟩ := isReadable_self h
  have hn : n.IsReadable := by
    apply h
    simp [inTree, inTree_eq n]
  rw [canonical, together_readLine hword, together, together, List.append_nil, IsBalanced,
    loose_append_of_balanced _ (isBalanced_canonical_of_literal hn.1 hliteral)]
  exact isBalanced_cons rfl hword.isBalanced

/-- The space in front of a row has no bracket. -/
theorem loose_spacedAfter (ns : List Node) : loose (spacedAfter ns) = loose (spaced ns) := by
  cases ns with
  | nil => rw [spacedAfter, spaced]
  | cons n ns => rw [spacedAfter, spaced, List.cons_append, loose_cons_of_not_bracket rfl]

theorem isBalanced_of_rowStrays {ns : List Node} {s : List Char}
    (hloose : loose s = loose (rowStrays ns)) (hstrays : rowStrays ns = []) : IsBalanced s := by
  rw [IsBalanced, hloose, hstrays, loose_nil]

mutual

/-- The brackets of a canonical spelling that have no partner are those at its foot. -/
theorem loose_canonical : (n : Node) → (∀ m ∈ inTree n, m.IsReadable) →
    loose n.canonical = loose n.strays
  | number _, h => isBalanced_canonical_of_literal (isReadable_self h).1 rfl
  | letter _, h => isBalanced_canonical_of_literal (isReadable_self h).1 rfl
  | text content, _ => by
    rw [canonical, strays, loose_filter_isBracket]
  | operator op, _ => op.isBalanced_typed
  | function name, h => by
    have hname : Lexicon.contains name = true := (isReadable_self h).1
    exact (Lexicon.isWord_of_contains hname).isBalanced
  | fraction _ _, h => isBalanced_canonical_fraction h
  | power base exponent, h => by
    have hbase := loose_spaced base (forall_inRow_of_childRow List.mem_cons_self h)
    have hreadable := forall_inRow_of_childRow (List.mem_cons_of_mem base List.mem_cons_self) h
    have hexponent :=
      isBalanced_of_rowStrays (loose_spaced exponent hreadable) (isReadable_self h).2
    rw [canonical, strays, loose_append, hbase, loose_cons_of_not_bracket rfl,
      show loose ('(' :: spaced exponent ++ [')']) = Loose.none from isBalanced_group hexponent,
      Loose.beside_none]
  | root radicand, h => by
    have hreadable := forall_inRow_of_childRow List.mem_cons_self h
    have hradicand :=
      isBalanced_of_rowStrays (loose_spaced radicand hreadable) (isReadable_self h).2
    exact isBalanced_cons rfl (isBalanced_group hradicand)
  | parens inner, h => by
    have hreadable := forall_inRow_of_childRow List.mem_cons_self h
    have hinner := isBalanced_of_rowStrays (loose_spaced inner hreadable) (isReadable_self h).2
    exact isBalanced_group hinner
  | subscript base script, h => by
    have hreadable := forall_inRow_of_childRow List.mem_cons_self h
    have hscript :=
      isBalanced_of_rowStrays (loose_spaced script hreadable) (isReadable_self h).2
    rw [canonical, strays, loose_append_of_balanced _ (isBalanced_base (isReadable_self h).1.1)]
    exact isBalanced_cons rfl (isBalanced_group hscript)

theorem loose_spaced : (ns : List Node) → (∀ m ∈ inRow ns, m.IsReadable) →
    loose (spaced ns) = loose (rowStrays ns)
  | [], _ => by rw [spaced, rowStrays]
  | n :: ns, h => by
    rw [inRow_cons, List.forall_mem_append] at h
    rw [spaced, rowStrays, loose_append, loose_append, loose_canonical n h.1,
      loose_spacedAfter, loose_spaced ns h.2]

end

theorem isBalanced_spaced {ns : List Node} (h : ∀ m ∈ inRow ns, m.IsReadable)
    (hstrays : rowStrays ns = []) : IsBalanced (spaced ns) :=
  isBalanced_of_rowStrays (loose_spaced ns h) hstrays

/-! ## Reading canonical spellings -/

theorem mayFollow_spacedAfter_append (ns : List Node) {rest : List Char}
    (h : mayFollow rest = true) : mayFollow (spacedAfter ns ++ rest) = true := by
  cases ns with
  | nil =>
    rw [spacedAfter]
    exact h
  | cons n ns =>
    rw [spacedAfter]
    rfl

/-- The space in front of a row makes no difference. -/
theorem readOnto_spacedAfter_append (done ns : List Node) (rest : List Char) :
    readOnto done (spacedAfter ns ++ rest) = readOnto done (spaced ns ++ rest) := by
  cases ns with
  | nil => rw [spacedAfter, spaced]
  | cons n ns =>
    rw [spacedAfter, spaced]
    exact readOnto_blanks_append done (canonical n ++ spacedAfter ns ++ rest)
      (show isBlankText [' '] = true by decide)

/-- Opening brackets close nothing. -/
theorem closing_of_all_opening {brackets : List Char} (h : ∀ b ∈ brackets, b = '(') :
    (loose brackets).closing = 0 := by
  induction brackets with
  | nil => rfl
  | cons b brackets ih =>
    obtain rfl := h b List.mem_cons_self
    have htail : ∀ c ∈ brackets, c = '(' := by
      intro c hc
      exact h c (List.mem_cons_of_mem '(' hc)
    have hrest := ih htail
    rw [loose_open]
    simp only [Loose.beside]
    omega

/-- Nothing that follows in a row closes an opening bracket without a partner. -/
theorem closing_spacedAfter_append {n : Node} {ns : List Node} {rest : List Char}
    (h : ∀ m ∈ inRow ns, m.IsReadable) (horder : InOrder (rowStrays (n :: ns)))
    (hrest : (loose rest).closing = 0) (hopen : '(' ∈ n.strays) :
    (loose (spacedAfter ns ++ rest)).closing = 0 := by
  rw [rowStrays, InOrder, List.pairwise_append] at horder
  have hall : ∀ b ∈ rowStrays ns, b = '(' := by
    intro b hb
    exact horder.2.2 '(' hopen b hb rfl
  have hafter := closing_of_all_opening hall
  rw [loose_append, loose_spacedAfter, loose_spaced ns h]
  simp only [Loose.beside]
  omega

/-- The base of a subscript is the spelling of a number or letter. -/
theorem exists_literal {base : String}
    (h : Numeral.IsNumeral base.toList ∨ ∃ c, base.toList = [c] ∧ c.isAlpha = true) :
    ∃ n : Node, n.literal? = some base ∧ n.HasShape ∧ n.canonical = base.toList := by
  rcases h with hnumeral | ⟨c, hbase, hc⟩
  · exact ⟨number base, rfl, hnumeral, by rw [canonical]⟩
  · refine ⟨letter c, ?_, hc, ?_⟩
    · rw [literal?, ← hbase, String.ofList_toList]
    · rw [canonical, hbase]

theorem isLeaf_of_literal {n : Node} (h : n.literal?.isSome = true) : n.isLeaf = true := by
  cases n with
  | number _ | letter _ => rfl
  | _ => exact absurd h Bool.false_ne_true

/-- A number or letter is read back in front of a sign that builds on it. -/
theorem readOnto_literal_append {n : Node} {done : List Node} {rest : List Char}
    (hliteral : n.literal?.isSome = true) (hshape : n.HasShape)
    (hrest : mayFollow rest = true) :
    readOnto done (n.canonical ++ rest) = readOnto (n :: done) rest := by
  apply readOnto_leaf_append
  apply reads_leaf _ (isLeaf_of_literal hliteral) hshape hrest
  rw [strays_of_literal hliteral]
  intro hmem
  exact absurd hmem List.not_mem_nil

/-- The canonical spelling of a row in brackets is an argument. -/
theorem argument_spaced {row : List Node} (rest : List Char) (hne : row ≠ [])
    (hbalanced : IsBalanced (spaced row)) (hread : readLine (spaced row) = row) :
    Argument (spaced row) ('(' :: spaced row ++ [')']) rest := by
  apply Argument.group hbalanced
  rw [Bool.eq_false_iff]
  intro hblank
  apply hne
  rw [← hread, readLine_eq_nil_iff]
  exact hblank

/-- A row that is read back in front of the end is read back as a line. -/
theorem readLine_of_readOnto {ns : List Node} {s : List Char}
    (h : readOnto [] (s ++ []) = readOnto (ns.reverse ++ []) []) : readLine s = ns := by
  rw [List.append_nil, List.append_nil, readOnto_nil, List.reverse_reverse] at h
  exact h

theorem inOrder_nil : InOrder [] := List.Pairwise.nil

mutual

/-- A canonical spelling is read as its node, and reading goes on after it. -/
theorem readOnto_canonical : (n : Node) → (∀ m ∈ inTree n, m.IsReadable) →
    InOrder n.strays → ∀ {done : List Node} {rest : List Char}, mayFollow rest = true →
    ('(' ∈ n.strays → (loose rest).closing = 0) →
    readOnto done (n.canonical ++ rest) = readOnto (n :: done) rest
  | number _, h, _, _, _, hrest, hopen
  | letter _, h, _, _, _, hrest, hopen
  | text _, h, _, _, _, hrest, hopen
  | operator _, h, _, _, _, hrest, hopen
  | function _, h, _, _, _, hrest, hopen =>
    readOnto_leaf_append (reads_leaf _ rfl (isReadable_self h).1 hrest hopen)
  | fraction numerator denominator, h, _, done, rest, hrest, _ => by
    obtain ⟨⟨⟨n, rfl, hliteral⟩, -, -⟩, w, hword, rfl⟩ := isReadable_self h
    have hn : n.IsReadable := by
      apply h
      simp [inTree, inTree_eq n]
    rw [canonical, together_readLine hword, together, together, List.append_nil,
      List.append_assoc, readOnto_literal_append hliteral hn.1 rfl]
    exact readOnto_of_reads (.fraction rfl hliteral hword (startsInWord_of_mayFollow hrest))
  | power base exponent, h, horder, done, rest, hrest, hopen => by
    obtain ⟨⟨hsingle, hne⟩, hstrays⟩ := isReadable_self h
    have hbase := forall_inRow_of_childRow List.mem_cons_self h
    have hexponent := forall_inRow_of_childRow (List.mem_cons_of_mem base List.mem_cons_self) h
    have hbalanced := isBalanced_spaced hexponent hstrays
    have hread : readLine (spaced exponent) = exponent :=
      readLine_of_readOnto (readOnto_spaced exponent hexponent (hstrays ▸ inOrder_nil) rfl
        fun _ => rfl)
    rw [strays] at horder hopen
    have hloose : loose ('^' :: ('(' :: spaced exponent ++ [')']) ++ rest) = loose rest :=
      loose_append_of_balanced rest (isBalanced_cons rfl (isBalanced_group hbalanced))
    rw [canonical, List.append_assoc, readOnto_spaced base hbase horder rfl (hloose ▸ hopen)]
    obtain ⟨b, rfl⟩ := hsingle
    have hreads : (Piece.power b (spaced exponent)).Reads ([b].reverse ++ done).head?
        ('^' :: ('(' :: spaced exponent ++ [')'])) rest :=
      .power rfl (argument_spaced rest hne hbalanced hread)
    rw [readOnto_of_reads hreads]
    exact congrArg (fun inside => readOnto (power [b] inside :: done) rest) hread
  | root radicand, h, _, done, rest, hrest, _ => by
    obtain ⟨hne, hstrays⟩ := isReadable_self h
    have hradicand := forall_inRow_of_childRow List.mem_cons_self h
    have hread : readLine (spaced radicand) = radicand :=
      readLine_of_readOnto (readOnto_spaced radicand hradicand (hstrays ▸ inOrder_nil) rfl
        fun _ => rfl)
    have hreads : (Piece.root (spaced radicand)).Reads done.head?
        ('√' :: ('(' :: spaced radicand ++ [')'])) rest :=
      .root (argument_spaced rest hne (isBalanced_spaced hradicand hstrays) hread)
    rw [canonical, readOnto_of_reads hreads]
    exact congrArg (fun inside => readOnto (root inside :: done) rest) hread
  | parens inner, h, _, done, rest, hrest, _ => by
    have hstrays := (isReadable_self h).2
    have hinner := forall_inRow_of_childRow List.mem_cons_self h
    have hread : readLine (spaced inner) = inner :=
      readLine_of_readOnto (readOnto_spaced inner hinner (hstrays ▸ inOrder_nil) rfl
        fun _ => rfl)
    have hreads : (Piece.group (spaced inner)).Reads done.head?
        ('(' :: spaced inner ++ [')']) rest := .group (isBalanced_spaced hinner hstrays)
    rw [canonical, readOnto_of_reads hreads]
    exact congrArg (fun inside => readOnto (parens inside :: done) rest) hread
  | subscript base script, h, _, done, rest, hrest, _ => by
    obtain ⟨⟨hbase, hne⟩, hstrays⟩ := isReadable_self h
    have hscript := forall_inRow_of_childRow List.mem_cons_self h
    have hread : readLine (spaced script) = script :=
      readLine_of_readOnto (readOnto_spaced script hscript (hstrays ▸ inOrder_nil) rfl
        fun _ => rfl)
    obtain ⟨n, hliteral, hshape, hcanonical⟩ := exists_literal hbase
    have hreads : (Piece.subscript base (spaced script)).Reads (n :: done).head?
        ('_' :: ('(' :: spaced script ++ [')'])) rest :=
      .subscript hliteral (argument_spaced rest hne (isBalanced_spaced hscript hstrays) hread)
    rw [canonical, ← hcanonical, List.append_assoc,
      readOnto_literal_append (by rw [hliteral]; rfl) hshape rfl, readOnto_of_reads hreads]
    exact congrArg (fun inside => readOnto (subscript base inside :: done) rest) hread

/-- A canonical spelling of a row is read as that row, and reading goes on after it. -/
theorem readOnto_spaced : (ns : List Node) → (∀ m ∈ inRow ns, m.IsReadable) →
    InOrder (rowStrays ns) → ∀ {done : List Node} {rest : List Char}, mayFollow rest = true →
    ('(' ∈ rowStrays ns → (loose rest).closing = 0) →
    readOnto done (spaced ns ++ rest) = readOnto (ns.reverse ++ done) rest
  | [], _, _, _, _, _, _ => by rw [spaced, List.nil_append, List.reverse_nil, List.nil_append]
  | n :: ns, h, horder, done, rest, hrest, hopen => by
    rw [inRow_cons, List.forall_mem_append] at h
    have horders := List.pairwise_append.1 (rowStrays_cons n ns ▸ horder)
    have hafter : '(' ∈ n.strays → (loose (spacedAfter ns ++ rest)).closing = 0 := by
      intro hmem
      have hclosing := hopen (by simp [hmem])
      exact closing_spacedAfter_append h.2 horder hclosing hmem
    rw [spaced, List.append_assoc, readOnto_canonical n h.1 horders.1
      (mayFollow_spacedAfter_append ns hrest) hafter, readOnto_spacedAfter_append,
      readOnto_spaced ns h.2 horders.2.1 hrest fun hmem => hopen (by simp [hmem])]
    simp

end

/-- The canonical spelling of a row that reading can make is read as that row. -/
theorem readLine_spaced {ns : List Node} (h : ∀ m ∈ inRow ns, m.IsReadable)
    (horder : InOrder (rowStrays ns)) : readLine (spaced ns) = ns :=
  readLine_of_readOnto (readOnto_spaced ns h horder rfl fun _ => rfl)

/-- The rows that reading makes are those of readable nodes in which the brackets without
a partner stand in order. -/
theorem exists_readLine_eq_iff {ns : List Node} :
    (∃ s, readLine s = ns) ↔ (∀ m ∈ inRow ns, m.IsReadable) ∧ InOrder (rowStrays ns) := by
  constructor
  · rintro ⟨s, rfl⟩
    rw [rowStrays_readLine]
    exact ⟨isReadable_of_mem_readLine s, inOrder_typed _⟩
  · rintro ⟨h, horder⟩
    exact ⟨spaced ns, readLine_spaced h horder⟩

/-- A line that has been read and is typed again, with a space between neighbours and all
arguments in brackets, is read as the same nodes. -/
theorem readLine_spaced_readLine (s : List Char) :
    readLine (spaced (readLine s)) = readLine s := by
  obtain ⟨h, horder⟩ := exists_readLine_eq_iff.1 ⟨s, rfl⟩
  exact readLine_spaced h horder

/-- A stray bracket that is the base of a power, and signs that have no argument. -/
example : spaced (readLine ")^2(^ x/2√".toList) = ")^(2) ( ^ x/2 √".toList := by
  decide +kernel

end Node

end MathLine
