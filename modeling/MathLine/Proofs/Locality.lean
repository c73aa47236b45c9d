import MathLine.Proofs.LooseBrackets
import MathLine.Proofs.Lookahead

set_option autoImplicit false

/-!
# Reading is local

A line may be cut at a blank, as long as no bracket is open there.  What stands before the
cut is read without a look at what comes after it (`readOnto_append_of_blank`).  And what
comes after the cut reaches back to one node at most: three signs take the node before them,
and that node is the last one that has been read (`readOnto_append`).  If the text after the
cut starts with none of these signs, it is read as if nothing stood before it
(`readOnto_of_no_retraction`).

`readLine_append_blank_append` puts these together.
-/

namespace MathLine

open MathLine.Text

/-! ## Reaching back -/

/-- The signs that take the node before them: the slash, the caret and the underscore. -/
def retractionSigns : List Char := ['/', '^', '_']

namespace Piece

/-- A text that does not start with such a sign is read the same after any node, and leaves
that node alone. -/
theorem Reads.of_no_retraction {last : Option Node} {piece : Piece} {typed rest : List Char}
    (h : piece.Reads last typed rest) (hsign : ∀ c ∈ typed.head?, c ∉ retractionSigns)
    (last' : Option Node) : piece.Reads last' typed rest ∧ piece.retracts = false := by
  have absurd_of {c : Char} {s : List Char} (htyped : typed = c :: s)
      (hmem : c ∈ retractionSigns) : False :=
    hsign c (by rw [htyped]; rfl) hmem
  cases h with
  | number hne hlead => exact ⟨.number hne hlead, rfl⟩
  | function hname hstop => exact ⟨.function hname hstop, rfl⟩
  | letter hc hname => exact ⟨.letter hc hname, rfl⟩
  | operator hread => exact ⟨.operator hread, rfl⟩
  | root harg => exact ⟨.root harg, rfl⟩
  | radical harg => exact ⟨.radical harg, rfl⟩
  | group hbalanced => exact ⟨.group hbalanced, rfl⟩
  | openBracket hclosing => exact ⟨.openBracket hclosing, rfl⟩
  | closeBracket => exact ⟨.closeBracket, rfl⟩
  | other hc hread => exact ⟨.other hc hread, rfl⟩
  | fraction _ _ _ _ | divide _ | power _ _ | caret _ | subscript _ _ | underscore _ =>
    exact (absurd_of rfl (by decide)).elim

theorem place_append {xs : List Node} (hne : xs ≠ []) (done inside : List Node) (piece : Piece) :
    piece.place (xs ++ done) inside = piece.place xs inside ++ done := by
  unfold place
  cases piece.retracts with
  | false => rfl
  | true =>
    cases xs with
    | nil => exact absurd rfl hne
    | cons last xs => rfl

end Piece

namespace Node

/-- The nodes in front of the last one are out of reach. -/
theorem readOnto_append {xs : List Node} (hne : xs ≠ []) (done : List Node) (s : List Char) :
    readOnto (xs ++ done) s = done.reverse ++ readOnto xs s := by
  have hhead : (xs ++ done).head? = xs.head? := by
    obtain ⟨last, front, rfl⟩ := List.exists_cons_of_ne_nil hne
    rfl
  cases hnext : Piece.next? xs.head? s with
  | none =>
    have hblank := Piece.next?_eq_none_iff.1 hnext
    rw [readOnto_of_blank hblank, readOnto_of_blank hblank, List.reverse_append]
  | some taken =>
    obtain ⟨piece, rest⟩ := taken
    have hlength := (Piece.length_of_next? hnext).2
    rw [readOnto_of_next? hnext, readOnto_of_next? (hhead ▸ hnext), Piece.place_append hne]
    exact readOnto_append (by simp [Piece.place]) done rest
termination_by s.length

/-- A text that starts with no sign that reaches back is read as a line of its own. -/
theorem readOnto_of_no_retraction {s : List Char} (done : List Node)
    (hsign : ∀ c ∈ (skipBlanks s).head?, c ∉ retractionSigns) :
    readOnto done s = done.reverse ++ readLine s := by
  cases hnext : Piece.next? done.head? s with
  | none =>
    have hblank := Piece.next?_eq_none_iff.1 hnext
    rw [readOnto_of_blank hblank, readLine_eq_nil_iff.2 hblank, List.append_nil]
  | some taken =>
    obtain ⟨piece, rest⟩ := taken
    obtain ⟨typed, hskip, hreads⟩ := Piece.skipBlanks_of_next? hnext
    have hcut : s = leadingBlanks s ++ (typed ++ rest) := by
      rw [← hskip, leadingBlanks_append_skipBlanks]
    have htyped : ∀ c ∈ typed.head?, c ∉ retractionSigns := by
      intro c hc
      apply hsign
      rw [hskip, List.head?_append, hc]
      rfl
    obtain ⟨hreads', hretracts⟩ := hreads.of_no_retraction htyped none
    have hplace (nodes : List Node) : piece.place nodes (readLine piece.inner) =
        [piece.node (readLine piece.inner)] ++ nodes := by
      rw [Piece.place, hretracts]
      rfl
    have halone : Piece.next? ([] : List Node).head? s = some (piece, rest) :=
      Piece.next?_eq_some_iff.2 ⟨leadingBlanks s, typed, hcut, List.all_takeWhile, hreads'⟩
    rw [readLine, readOnto_of_next? hnext, readOnto_of_next? halone, hplace, hplace,
      readOnto_append (List.cons_ne_nil _ _), List.append_nil]

/-! ## Looking ahead -/

/-- What stands before a blank is read as it is without what comes after, if no bracket is
open there. -/
theorem readOnto_append_of_blank {s t : List Char} (done : List Node)
    (hopening : (loose s).opening = 0) (ht : nextChar? t = none) :
    readOnto done (s ++ t) = readOnto (readOnto done s).reverse t := by
  cases hnext : Piece.next? done.head? s with
  | none =>
    have hblank := Piece.next?_eq_none_iff.1 hnext
    rw [readOnto_blanks_append done t hblank, readOnto_of_blank hblank, List.reverse_reverse]
  | some taken =>
    obtain ⟨piece, rest⟩ := taken
    have hlength := (Piece.length_of_next? hnext).2
    obtain ⟨blanks, typed, rfl, hblanks, hreads⟩ := Piece.next?_eq_some_iff.1 hnext
    have hrest : (loose rest).opening = 0 := by
      rw [loose_append, loose_append] at hopening
      simp only [Loose.beside] at hopening
      omega
    have hopen : typed = ['('] → (loose rest).closing = 0 → (loose (rest ++ t)).closing = 0 := by
      rintro rfl hclosing
      rw [loose_append, List.singleton_append, loose_open] at hopening
      simp only [Loose.beside] at hopening
      omega
    have hreads' := hreads.of_sameAhead (SameAhead.append_of_blank hrest ht) hopen
    rw [readOnto_of_next? hnext, List.append_assoc, List.append_assoc,
      readOnto_blanks_append done _ hblanks, readOnto_of_reads hreads']
    exact readOnto_append_of_blank _ hrest ht
termination_by s.length

/-! ## Cutting a line -/

/-- A line is cut at blanks behind which no bracket of its first part is closed.  Then all
nodes of the first part but the last are nodes of the line, and if the second part starts
with no sign that reaches back, the nodes of the line are those of the two parts. -/
theorem readLine_append_blank_append {a w b : List Char} (hwaiting : (pairing a).waiting = [])
    (hblank : isBlankText w = true) (hne : w ≠ []) :
    (readLine a).dropLast <+: readLine (a ++ w ++ b) ∧
      ((∀ c ∈ (skipBlanks b).head?, c ∉ retractionSigns) →
        readLine (a ++ w ++ b) = readLine a ++ readLine b) := by
  have hopening : (loose a).opening = 0 := by
    rw [← counts_pairing, Pairing.counts, hwaiting, List.length_nil]
  have hnext : nextChar? (w ++ b) = none := by
    cases w with
    | nil => exact absurd rfl hne
    | cons c w => simp [nextChar?, List.all_eq_true.1 hblank c List.mem_cons_self]
  have hline : readLine (a ++ w ++ b) = readOnto (readLine a).reverse b := by
    rw [readLine, List.append_assoc, readOnto_append_of_blank [] hopening hnext,
      readOnto_blanks_append _ b hblank]
    rfl
  refine ⟨?_, ?_⟩
  · rw [hline]
    rcases List.eq_nil_or_concat (readLine a) with hnil | ⟨front, last, hconcat⟩
    · rw [hnil]
      exact List.nil_prefix
    · rw [hconcat, List.concat_eq_append, List.reverse_append, List.dropLast_concat,
        List.reverse_singleton, readOnto_append (List.cons_ne_nil _ _), List.reverse_reverse]
      exact List.prefix_append front _
  · intro hsign
    rw [hline, readOnto_of_no_retraction _ hsign, List.reverse_reverse]

/-- Behind the blanks a group is no argument of the caret, and only its own power reaches
back. -/
theorem readLine_append_group :
    (pairing ")_a √(y)^".toList).waiting = [] ∧ isBlankText "\t ".toList = true ∧
      "\t ".toList ≠ [] ∧ (∀ c ∈ (skipBlanks " (z)^2".toList).head?, c ∉ retractionSigns) ∧
        (readLine ")_a √(y)^".toList).dropLast <+:
          readLine (")_a √(y)^".toList ++ "\t ".toList ++ " (z)^2".toList) ∧
        readLine (")_a √(y)^".toList ++ "\t ".toList ++ " (z)^2".toList) =
          readLine ")_a √(y)^".toList ++ readLine " (z)^2".toList := by
  have hwaiting : (pairing ")_a √(y)^".toList).waiting = [] := by decide +kernel
  have hblank : isBlankText "\t ".toList = true := by decide +kernel
  have hne : "\t ".toList ≠ [] := by decide +kernel
  have hhead : (skipBlanks " (z)^2".toList).head? = some '(' := by decide +kernel
  have hsign : ∀ c ∈ (skipBlanks " (z)^2".toList).head?, c ∉ retractionSigns := by
    intro c hc
    rw [hhead] at hc
    obtain rfl := Option.some.inj hc
    decide
  obtain ⟨hfront, hlines⟩ :=
    readLine_append_blank_append (b := " (z)^2".toList) hwaiting hblank hne
  exact ⟨hwaiting, hblank, hne, hsign, hfront, hlines hsign⟩

end Node

end MathLine
