import MathLine.Proofs.Enclosure
import MathLine.Proofs.RelationSigns
import MathLine.Proofs.Strays

set_option autoImplicit false

/-!
# Relations at top level

A relation sign makes an equation of its line only if it stands in the line itself.  Reading
puts it elsewhere in two ways: it stands between an opening bracket and its partner, or a
caret after it makes it the base of a power.  A fraction bar and an underscore do not take it,
for they only work on numbers and letters.

`FreeRelation` says of the text that neither is the case, and `any_isRelation_readLine` that
it is just these signs that are nodes of the line.
-/

namespace MathLine

open MathLine.Text

/-! ## Free relations -/

/-- A text goes on with a caret that has an argument, blanks in front of the caret passed
over. -/
def IsRaised (rest : List Char) : Prop :=
  ∃ arg written more, skipBlanks rest = '^' :: (written ++ more) ∧ Argument arg written more

/-- The relation `op` between `front` and `rest` is a lexeme of the line that they make up,
and neither brackets nor a caret takes it away. -/
structure FreeRelation (front : List Char) (op : Operator) (rest : List Char) : Prop where
  relation : op.isRelation = true
  lexeme : ⟨⟨.operator op, op.typed.toList⟩, byteLength front⟩ ∈
    PlacedLexeme.scan (front ++ (op.typed.toList ++ rest))
  outside : ¬Enclosed front (op.typed.toList ++ rest)
  notRaised : ¬IsRaised rest

/-- Some relation of the line is free. -/
def HasFreeRelation (s : List Char) : Prop :=
  ∃ front op rest, s = front ++ (op.typed.toList ++ rest) ∧ FreeRelation front op rest

theorem freeRelation_iff {front rest : List Char} {op : Operator} :
    FreeRelation front op rest ↔
      op.RelationSign front rest ∧ ¬Enclosed front (op.typed.toList ++ rest) ∧ ¬IsRaised rest := by
  constructor
  · intro h
    exact ⟨(PlacedLexeme.mem_scan_iff h.relation).1 h.lexeme, h.outside, h.notRaised⟩
  · rintro ⟨hsign, houtside, hraised⟩
    exact ⟨hsign.relation, (PlacedLexeme.mem_scan_iff hsign.relation).2 hsign, houtside, hraised⟩

/-- What is passed over makes no relation behind it free, and takes none away, if it ends all
its signs and opens no bracket that is closed behind it. -/
theorem freeRelation_append_iff {chunk front rest : List Char} {op : Operator}
    (hends : Operator.EndsSigns chunk (front ++ (op.typed.toList ++ rest)))
    (hunclosed : Unclosed chunk (front ++ (op.typed.toList ++ rest))) :
    FreeRelation (chunk ++ front) op rest ↔ FreeRelation front op rest := by
  rw [freeRelation_iff, freeRelation_iff, Operator.relationSign_append_iff hends,
    hunclosed.enclosed_append_iff]

theorem not_hasFreeRelation_nil : ¬HasFreeRelation [] := by
  rintro ⟨front, op, rest, hcut, -⟩
  have := op.typed_ne_nil
  simp_all

/-! ## What a step takes -/

/-- Each character of a text that may belong to a sign stands between brackets of the text. -/
def ShutsSigns (typed : List Char) : Prop :=
  ∀ front c inner tail, typed = front ++ c :: inner → c ∈ Operator.signChars →
    Enclosed front (c :: inner ++ tail)

theorem shutsSigns_of_plain {typed : List Char} (h : ∀ c ∈ typed, c ∉ Operator.signChars) :
    ShutsSigns typed := by
  rintro front c inner tail rfl hc
  exact absurd hc (h c (List.mem_append_right front List.mem_cons_self))

theorem ShutsSigns.cons {c : Char} {typed : List Char} (hc : c ∉ Operator.signChars)
    (h : ShutsSigns typed) : ShutsSigns (c :: typed) := by
  intro front d inner tail hcut hd
  cases front with
  | nil =>
    obtain ⟨rfl, -⟩ := List.cons.inj hcut
    exact absurd hd hc
  | cons e front =>
    obtain ⟨before, opened, closed, after, rfl, hback, hbalanced⟩ :=
      h front d inner tail (List.cons.inj hcut).2 hd
    exact ⟨e :: before, opened, closed, after, rfl, hback, hbalanced⟩

/-- A group has no sign outside of its own brackets. -/
theorem shutsSigns_group {inner : List Char} (h : IsBalanced inner) :
    ShutsSigns ('(' :: inner ++ [')']) := by
  intro front c back tail hcut hc
  cases front with
  | nil =>
    obtain ⟨rfl, -⟩ := List.cons.inj hcut
    exact absurd hc (by decide)
  | cons d front =>
    rw [List.cons_append, List.cons_append] at hcut
    obtain ⟨rfl, hinner⟩ := List.cons.inj hcut
    rcases behind_or_inside hinner.symm with ⟨between, -, hclose⟩ | ⟨d, closed, rfl, hback⟩
    · cases between with
      | nil =>
        obtain ⟨rfl, -⟩ := List.cons.inj hclose
        exact absurd hc (by decide)
      | cons e between => simp at hclose
    · obtain ⟨rfl, rfl⟩ := List.cons.inj hback
      exact ⟨[], front, c :: closed, tail, rfl, by simp, h⟩

/-- A text that shuts its signs in ends them all. -/
theorem ShutsSigns.endsSigns {typed : List Char} (h : ShutsSigns typed) (rest : List Char) :
    Operator.EndsSigns typed rest := by
  intro _ c hc hmark
  obtain ⟨front, rfl⟩ := List.getLast?_eq_some_iff.1 hc
  have henclosed := h front c [] [] rfl (List.mem_cons_of_mem _ hmark)
  -- Nothing is left to close a bracket.
  have hclosing := (enclosed_iff.1 henclosed).2
  simp only [Operator.marks, List.mem_cons, List.not_mem_nil, or_false] at hmark
  rcases hmark with rfl | rfl | rfl | rfl <;> exact absurd hclosing (by decide)

theorem shutsSigns_of_isWord {w : List Char} (h : IsWord w) : ShutsSigns w := by
  apply shutsSigns_of_plain
  intro c hc
  exact Operator.not_mem_signChars (by decide) (h.2 c hc)

theorem Argument.shutsSigns {arg written rest : List Char} (h : Argument arg written rest) :
    ShutsSigns written := by
  cases h with
  | word hword _ => exact shutsSigns_of_isWord hword
  | group hbalanced _ => exact shutsSigns_group hbalanced

namespace Piece

/-- Whether a piece is a relation sign. -/
def isRelation : Piece → Bool
  | leaf n => n.isRelation
  | _ => false

theorem isRelation_node (inside : List Node) (piece : Piece) :
    (piece.node inside).isRelation = piece.isRelation := by
  cases piece <;> rfl

theorem exists_operator_of_isRelation {piece : Piece} (h : piece.isRelation = true) :
    ∃ op, piece = leaf (.operator op) ∧ op.isRelation = true := by
  cases piece with
  | leaf n =>
    cases n with
    | operator op => exact ⟨op, rfl, h⟩
    | _ => exact absurd h Bool.false_ne_true
  | _ => exact absurd h Bool.false_ne_true

/-- What a step takes is an operator that is read, or it is silent, or it shuts its signs in. -/
theorem Reads.takes_signs {last : Option Node} {piece : Piece} {typed rest : List Char}
    (h : piece.Reads last typed rest) :
    (∃ op, piece = leaf (.operator op) ∧ typed = op.typed.toList ∧
        Operator.read? (op.typed.toList ++ rest) = some (op, rest)) ∨
      Operator.Silent typed rest ∨ ShutsSigns typed := by
  cases h with
  | operator hread => exact .inl ⟨_, rfl, rfl, hread⟩
  | other _ hread => exact .inr (.inl (.inr ⟨_, rfl, hread⟩))
  | number hne hlead =>
    have hnumeral := Numeral.isNumeral_of_leading_append hne hlead
    refine .inr (.inl (.inl ?_))
    intro c hc
    exact Operator.not_mem_signChars (by decide) (hnumeral.isStart_of_mem c hc)
  | function hname _ =>
    exact .inr (.inr (shutsSigns_of_isWord (Lexicon.isWord_of_contains hname)))
  | letter hc _ =>
    exact .inr (.inl (.inl (List.forall_mem_singleton.2
      (Operator.not_mem_signChars (by decide) hc))))
  | fraction _ _ hword _ =>
    exact .inr (.inr (.cons (by decide) (shutsSigns_of_isWord hword)))
  | power _ harg | subscript _ harg | root harg =>
    exact .inr (.inr (.cons (by decide) harg.shutsSigns))
  | group hbalanced => exact .inr (.inr (shutsSigns_group hbalanced))
  | divide _ | caret _ | underscore _ | radical _ | openBracket _ | closeBracket =>
    exact .inr (.inl (.inl (List.forall_mem_singleton.2 (by decide))))

theorem Reads.endsSigns {last : Option Node} {piece : Piece} {typed rest : List Char}
    (h : piece.Reads last typed rest) : Operator.EndsSigns typed rest := by
  rcases h.takes_signs with ⟨op, -, rfl, hread⟩ | hsilent | hshut
  · exact Operator.endsSigns_of_read? hread
  · exact hsilent.endsSigns
  · exact hshut.endsSigns rest

theorem Reads.unclosed {last : Option Node} {piece : Piece} {typed rest : List Char}
    (h : piece.Reads last typed rest) : Unclosed typed rest := by
  rcases h.brackets with ⟨rfl, -⟩ | ⟨rfl, -, hclosing⟩ | ⟨hbalanced, -⟩
  · exact .inl rfl
  · exact .inr hclosing
  · exact .inl (congrArg Loose.opening hbalanced)

/-- A free relation that starts in what a step takes is what the step takes. -/
theorem Reads.eq_or_exists_front {last : Option Node} {piece : Piece}
    {typed tail front rest : List Char} {op : Operator} (h : piece.Reads last typed tail)
    (hfree : FreeRelation front op rest)
    (hcut : front ++ (op.typed.toList ++ rest) = typed ++ tail) :
    front = [] ∧ piece = leaf (.operator op) ∧ rest = tail ∨
      ∃ front', front = typed ++ front' ∧ tail = front' ++ (op.typed.toList ++ rest) := by
  obtain ⟨hsign, houtside, -⟩ := freeRelation_iff.1 hfree
  rcases h.takes_signs with ⟨o, rfl, rfl, hread⟩ | hsilent | hshut
  · refine (hsign.eq_or_exists_front hread hcut).imp_left ?_
    rintro ⟨rfl, rfl, rfl⟩
    exact ⟨rfl, rfl, rfl⟩
  · exact .inr (hsilent.exists_front hsign hcut)
  · rcases behind_or_inside hcut with behind | ⟨c, inner, rfl, hback⟩
    · exact .inr behind
    · have hc := Operator.mem_of_typed_append hsign.relation hback
      have henclosed := hshut front c inner tail rfl hc
      rw [← hback] at henclosed
      exact absurd henclosed houtside

/-- The free relations of a text are the piece that a step reads, unless it is raised, and
those of what is left. -/
theorem Reads.hasFreeRelation_iff {last : Option Node} {piece : Piece} {typed rest : List Char}
    (h : piece.Reads last typed rest) :
    HasFreeRelation (typed ++ rest) ↔
      piece.isRelation = true ∧ ¬IsRaised rest ∨ HasFreeRelation rest := by
  constructor
  · rintro ⟨front, op, back, hcut, hfree⟩
    rcases h.eq_or_exists_front hfree hcut.symm with ⟨rfl, rfl, rfl⟩ | ⟨front', rfl, rfl⟩
    · exact .inl ⟨hfree.relation, hfree.notRaised⟩
    · exact .inr ⟨front', op, back, rfl, (freeRelation_append_iff h.endsSigns h.unclosed).1 hfree⟩
  · rintro (⟨hrelation, hraised⟩ | ⟨front, op, back, rfl, hfree⟩)
    · obtain ⟨op, rfl, hop⟩ := exists_operator_of_isRelation hrelation
      cases h with
      | divide _ => exact absurd hop (by decide)
      | operator hread =>
        exact ⟨[], op, rest, rfl, freeRelation_iff.2
          ⟨⟨hop, hread, fun _ => nofun⟩, not_enclosed_start _, hraised⟩⟩
    · exact ⟨typed ++ front, op, back, by simp,
        (freeRelation_append_iff h.endsSigns h.unclosed).2 hfree⟩

/-- A relation is raised exactly where the step after it takes it back. -/
theorem Reads.isRaised_iff {last : Node} {piece : Piece} {typed rest : List Char}
    (h : piece.Reads (some last) typed rest) (hlast : last.isRelation = true) :
    IsRaised (typed ++ rest) ↔ piece.retracts = true := by
  have hliteral : last.literal? = none := by
    cases last <;> first | rfl | exact absurd hlast Bool.false_ne_true
  constructor
  · rintro ⟨arg, written, more, hskip, harg⟩
    have hnext : next? (some last) (typed ++ rest) = some (.power last arg, more) := by
      have hblanks : isBlankText (leadingBlanks (typed ++ rest)) = true := List.all_takeWhile
      rw [← leadingBlanks_append_skipBlanks (typed ++ rest), next?_blanks_append _ _ hblanks,
        hskip, ← List.cons_append]
      exact next?_of_reads (.power rfl harg)
    obtain ⟨rfl, -⟩ := Prod.mk.inj (Option.some.inj ((next?_of_reads h).symm.trans hnext))
    rfl
  · intro hretracts
    cases h with
    | fraction heq hsome _ _ =>
      obtain rfl := Option.some.inj heq
      rw [hliteral] at hsome
      exact absurd hsome Bool.false_ne_true
    | subscript heq _ =>
      rw [Option.bind_some, hliteral] at heq
      exact absurd heq (by simp)
    | power _ harg => exact ⟨_, _, _, rfl, harg⟩
    | _ => exact absurd hretracts Bool.false_ne_true

end Piece

/-! ## A whole line -/

theorem isRaised_blanks_append {blanks : List Char} (s : List Char)
    (h : isBlankText blanks = true) : IsRaised (blanks ++ s) ↔ IsRaised s := by
  rw [IsRaised, IsRaised, skipBlanks_blanks_append s h]

theorem hasFreeRelation_blanks_append {blanks : List Char} (s : List Char)
    (h : isBlankText blanks = true) : HasFreeRelation (blanks ++ s) ↔ HasFreeRelation s := by
  have hsilent : Operator.Silent blanks s := by
    refine .inl ?_
    intro c hc
    exact Operator.not_mem_signChars (by decide) (List.all_eq_true.1 h c hc)
  have hunclosed : Unclosed blanks s := .inl (congrArg Loose.opening (isBalanced_of_blank h))
  constructor
  · rintro ⟨front, op, rest, hcut, hfree⟩
    obtain ⟨front', rfl, rfl⟩ := hsilent.exists_front (freeRelation_iff.1 hfree).1 hcut.symm
    exact ⟨front', op, rest, rfl, (freeRelation_append_iff hsilent.endsSigns hunclosed).1 hfree⟩
  · rintro ⟨front, op, rest, rfl, hfree⟩
    exact ⟨blanks ++ front, op, rest, by simp,
      (freeRelation_append_iff hsilent.endsSigns hunclosed).2 hfree⟩

/-- While a line is read, its free relations are the relations read so far, the last of them
only while nothing raises it, and the free relations of what is left. -/
theorem keptByReading_isRelation :
    KeptByReading
      (fun s nodes => HasFreeRelation s ↔ ∃ n ∈ nodes, n.isRelation = true)
      (fun whole done s => HasFreeRelation whole ↔
        (∃ n ∈ done.tail, n.isRelation = true) ∨
          (∃ n ∈ done.head?, n.isRelation = true ∧ ¬IsRaised s) ∨ HasFreeRelation s) where
  start s := by simp
  skip := by
    intro whole blanks s done hblanks hinv
    rw [isRaised_blanks_append s hblanks, hasFreeRelation_blanks_append s hblanks] at hinv
    exact hinv
  step := by
    intro whole typed rest done piece hinv hreads _
    have hlast : (∃ n ∈ done.head?, n.isRelation = true ∧ ¬IsRaised (typed ++ rest)) ↔
        piece.retracts = false ∧ ∃ n ∈ done.head?, n.isRelation = true := by
      rw [← Bool.not_eq_true]
      constructor
      · rintro ⟨n, hn, hrelation, hraised⟩
        rw [hn] at hreads
        exact ⟨mt (hreads.isRaised_iff hrelation).2 hraised, n, hn, hrelation⟩
      · rintro ⟨hretracts, n, hn, hrelation⟩
        rw [hn] at hreads
        exact ⟨n, hn, hrelation, mt (hreads.isRaised_iff hrelation).1 hretracts⟩
    rw [hinv, hlast, hreads.hasFreeRelation_iff]
    cases hretracts : piece.retracts with
    | true => simp [Piece.place, hretracts, Piece.isRelation_node]
    | false =>
      cases done with
      | nil => simp [Piece.place, hretracts, Piece.isRelation_node]
      | cons n done => simp [Piece.place, hretracts, Piece.isRelation_node, or_assoc, or_left_comm]
  finish := by
    intro whole done hinv
    have hraised : ¬IsRaised [] := by
      rintro ⟨_, _, _, hskip, -⟩
      exact absurd hskip (by simp)
    rw [hinv]
    cases done with
    | nil => simp [not_hasFreeRelation_nil]
    | cons n done => simp [not_hasFreeRelation_nil, hraised, or_comm]

/-- A relation is a node of a line exactly if one of its relations is free. -/
theorem any_isRelation_readLine (s : List Char) :
    (Node.readLine s).any Node.isRelation = true ↔ HasFreeRelation s := by
  rw [List.any_eq_true, keptByReading_isRelation.readLine s]

end MathLine
