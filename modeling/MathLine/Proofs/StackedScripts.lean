import MathLine.Proofs.TexArguments

set_option autoImplicit false

/-!
# Superscripts on superscripts

TeX refuses a second superscript on one base: a superscript may not stand directly after the
argument of another.  The printer does not keep them apart, because it writes the base of a
power as it is, without a group around it, and some function names are written with a
superscript of their own.

`Node.rowHasStacked` says of a row where superscripts come to stand one after the other, and
`stacked_line` that these are all such places in the TeX of a line.  They are where a power, or
a name that ends in a superscript, is the base of a power or has a name after it that is
nothing but a superscript.
-/

namespace MathLine

namespace Node

/-- The function names whose TeX ends in a superscript. -/
def scriptedNames : List String := "chi2" :: raisedNames

/-- Whether the last thing that is written of a node is a superscript. -/
def endsRaised : Node → Bool
  | function name => scriptedNames.contains name
  | power _ _ => true
  | _ => false

mutual

/-- Whether a superscript comes to stand directly after another one inside the node. -/
def hasStacked : Node → Bool
  | fraction numerator denominator => rowHasStacked numerator || rowHasStacked denominator
  | power base exponent =>
    rowHasStacked base || base.getLast?.any endsRaised || rowHasStacked exponent
  | root radicand => rowHasStacked radicand
  | parens inner => rowHasStacked inner
  | subscript _ script => rowHasStacked script
  | _ => false

/-- Whether a superscript comes to stand directly after another one in the row, between two of
its nodes or inside one of them. -/
def rowHasStacked : List Node → Bool
  | [] => false
  | n :: rest => n.hasStacked || (n.endsRaised && rest.head?.any startsRaised) || rowHasStacked rest

end

end Node

namespace Tex

/-! ## One superscript after another -/

/-- What stands after the argument at the front: a group, or else a single token. -/
def afterArgument? : List Token → Option (List Token)
  | [] => none
  | t :: ts => if t = .char '{' then afterGroup? (t :: ts) else some ts

/-- Whether a superscript stands directly after the argument of another. -/
def stacked : List Token → Bool
  | [] => false
  | t :: ts => (t == .char '^' && (afterArgument? ts).any beginsRaised) || stacked ts

theorem stacked_cons {t : Token} (h : t ≠ .char '^') (ts : List Token) :
    stacked (t :: ts) = stacked ts := by
  rw [stacked, beq_false_of_ne h, Bool.false_and, Bool.false_or]

theorem beginsRaised_cons {t : Token} (h : t ≠ .char '^') (ts : List Token) :
    beginsRaised (t :: ts) = false := by
  rw [beginsRaised, List.head?_cons, beq_false_of_ne (by simpa using h)]

/-- The superscripts in `ts` that stand directly after another one: there are some among
themselves if `inside`, and a superscript that follows is one if `atEnd`. -/
def Stacks (ts : List Token) (inside atEnd : Bool) : Prop :=
  ∀ us, stacked (ts ++ us) = (inside || (atEnd && beginsRaised us) || stacked us)

theorem stacks_of_not_mem {ts : List Token} (h : .char '^' ∉ ts) : Stacks ts false false := by
  intro us
  induction ts with
  | nil => rfl
  | cons t ts ih =>
    rw [List.mem_cons, not_or] at h
    rw [List.cons_append, stacked_cons (Ne.symm h.1), ih h.2]

theorem Stacks.cons {t : Token} {ts : List Token} {inside atEnd : Bool} (ht : t ≠ .char '^')
    (h : Stacks ts inside atEnd) : Stacks (t :: ts) inside atEnd := by
  intro us
  rw [List.cons_append, stacked_cons ht, h]

/-- Where something else than a superscript ends, nothing is stacked on it. -/
theorem Stacks.append_left {s t : List Token} {inside inside' atEnd : Bool}
    (hs : Stacks s inside false) (ht : Stacks t inside' atEnd) :
    Stacks (s ++ t) (inside || inside') atEnd := by
  intro us
  rw [List.append_assoc, hs, ht, Bool.false_and, Bool.or_false]
  simp only [Bool.or_assoc]

/-- Where a superscript may end, it matters how the tokens after it begin. -/
theorem Stacks.append {s t : List Token} {inside inside' atEnd atEnd' raised : Bool}
    (hs : Stacks s inside atEnd) (ht : Stacks t inside' atEnd') (hbegins : Begins raised t) :
    Stacks (s ++ t) (inside || (atEnd && raised) || inside') atEnd' := by
  intro us
  rw [List.append_assoc, hs, ht, (hbegins.append us).beginsRaised]
  simp only [Bool.or_assoc]

theorem Stacks.grouped {ts : List Token} {inside atEnd : Bool} (h : Stacks ts inside atEnd) :
    Stacks (grouped ts) inside false := by
  intro us
  rw [grouped_append, stacked_cons (by decide), h, stacked_cons (by decide),
    beginsRaised_cons (by decide), Bool.and_false, Bool.false_and]

theorem Stacks.sized {ts : List Token} {inside atEnd : Bool} (h : Stacks ts inside atEnd) :
    Stacks (sized ts) inside false := by
  intro us
  rw [sized_append, stacked_cons (by decide), stacked_cons (by decide), h,
    stacked_cons (by decide), stacked_cons (by decide), beginsRaised_cons (by decide),
    Bool.and_false, Bool.false_and]

/-- After a group in a superscript no other superscript may follow. -/
theorem Stacks.raised {ts : List Token} {inside atEnd : Bool} (h : Stacks ts inside atEnd)
    (hnested : Nested ts) : Stacks (.char '^' :: Tex.grouped ts) inside true := by
  intro us
  have hafter : afterArgument? (Tex.grouped ts ++ us) = some us := by
    rw [grouped_append, afterArgument?, if_pos rfl, ← grouped_append,
      afterGroup?_grouped_append hnested]
  rw [List.cons_append, stacked, hafter, h.grouped]
  simp [Bool.or_left_comm, Bool.or_assoc]

/-- A superscript of one character. -/
theorem stacks_raised_char {c : Char} (hgroup : c ≠ '{') (hraised : c ≠ '^') :
    Stacks [.char '^', .char c] false true := by
  intro us
  have hafter : afterArgument? (.char c :: us) = some us := by
    rw [afterArgument?, if_neg (by simpa using hgroup)]
  rw [List.cons_append, List.cons_append, List.nil_append, stacked, hafter,
    stacked_cons (by simpa using hraised)]
  rfl

/-! ## What is written for nodes -/

theorem stacks_chars {s : List Char} (h : ∀ c ∈ s, c ∉ special) :
    Stacks (s.map .char) false false := by
  apply stacks_of_not_mem
  intro hmem
  obtain ⟨c, hc, heq⟩ := List.mem_map.1 hmem
  obtain rfl : c = '^' := by simpa using heq
  exact h _ hc (by decide)

theorem stacks_verbatim {n : Node} (h : n.HasShape) :
    Stacks ((verbatim n).map .char) false false :=
  stacks_chars fun _ hc => not_special (of_mem_verbatim h hc)

theorem stacks_escapeTokens (mode : Mode) (s : List Char) :
    Stacks (escapeTokens mode s) false false := by
  have hspecial : special.all fun c => !(tokens (escapeChar mode c)).contains (.char '^') := by
    cases mode <;> decide +kernel
  induction s with
  | nil => exact fun _ => rfl
  | cons c s ih =>
    have hescape : Stacks (tokens (escapeChar mode c)) false false := by
      by_cases hc : c ∈ special
      · apply stacks_of_not_mem
        simpa using List.all_eq_true.1 hspecial c hc
      · rw [tokens_escapeChar_of_not_special mode hc]
        split
        · exact fun _ => rfl
        · exact stacks_chars (List.forall_mem_singleton.2 hc)
    exact hescape.append_left ih

theorem stacks_operatorTokens (op : Operator) :
    Stacks (tokens (operator op).toList) false false := by
  have hall : ∀ op ∈ Operator.all, .char '^' ∉ tokens (operator op).toList := by decide +kernel
  exact stacks_of_not_mem (hall op op.mem_all)

/-- Three names are written with a superscript, and it stands at the end. -/
theorem stacks_nameTokens (name : String) :
    Stacks (nameTokens name) false (Node.endsRaised (.function name)) := by
  by_cases hscripted : name ∈ Node.scriptedNames
  · have hends : Node.endsRaised (.function name) = true := by
      rwa [Node.endsRaised, List.contains_iff_mem]
    rw [hends]
    simp only [Node.scriptedNames, Node.raisedNames, List.mem_cons, List.not_mem_nil,
      or_false] at hscripted
    rcases hscripted with rfl | rfl | rfl
    · have htokens : nameTokens "chi2" = [.control "chi".toList, .char '^', .char '2'] := by
        decide +kernel
      rw [htokens]
      exact .cons (by decide) (stacks_raised_char (by decide) (by decide))
    · have htokens : nameTokens "transpose" = [.char '^', .char 'T'] := by decide +kernel
      rw [htokens]
      exact stacks_raised_char (by decide) (by decide)
    · have htokens : nameTokens "inverse" = .char '^' :: grouped [.char '-', .char '1'] := by
        decide +kernel
      have hnested : Nested [.char '-', .char '1'] := (Nested.plain rfl).append (.plain rfl)
      rw [htokens]
      exact Stacks.raised (stacks_of_not_mem (by decide)) hnested
  · have hends : Node.endsRaised (.function name) = false := by
      rwa [Node.endsRaised, List.contains_eq_mem, decide_eq_false_iff_not]
    have hforms : ∀ entry ∈ functions,
        entry.1 ∉ Node.scriptedNames → .char '^' ∉ tokens entry.2.toList := by
      decide +kernel
    rw [hends]
    unfold nameTokens
    split
    · next form hform =>
      exact stacks_of_not_mem (hforms (name, form) (mem_functions hform) hscripted)
    · exact .cons (by decide) (stacks_escapeTokens .text name.toList).grouped

theorem stacks_callTokens (name : String) {arguments : List Token} {inside atEnd : Bool}
    (h : Stacks arguments inside atEnd) : Stacks (callTokens name arguments) inside false := by
  unfold callTokens
  split
  · exact .cons (by decide) h.grouped
  · have hname := (stacks_nameTokens name).append h.sized (begins_control _ _)
    rwa [Bool.and_false] at hname

/-- The superscripts that are stacked in what is written for a row of nodes are those that its
nodes tell of. -/
theorem stacks_row {ns : List Node} (h : ∀ m ∈ Node.inRow ns, m.HasShape) :
    Stacks (rowTokens ns) (Node.rowHasStacked ns) (ns.getLast?.any Node.endsRaised) := by
  -- the shape is asked for in the induction, as it tells how the rest of a row begins
  refine (Node.induction_of_all (fun n => Stacks (nodeTokens n) n.hasStacked n.endsRaised)
    (fun ns => (∀ m ∈ Node.inRow ns, m.HasShape) →
      Stacks (rowTokens ns) (Node.rowHasStacked ns) (ns.getLast?.any Node.endsRaised))
    ?number ?letter ?text ?operator ?function ?fraction ?power ?root ?parens ?subscript
    ?nil ?call ?cons).2 ns h h
  case number => exact fun digits hdigits => stacks_verbatim hdigits
  case letter => exact fun c hc => stacks_verbatim hc
  case text => exact fun content _ => stacks_escapeTokens .math content.toList
  case operator => exact stacks_operatorTokens
  case function => exact fun name _ => stacks_nameTokens name
  case fraction =>
    intro numerator denominator hover hunder
    rw [nodeTokens, Node.hasStacked]
    exact .cons (by decide)
      ((hover.2 hover.1).grouped.append_left (hunder.2 hunder.1).grouped)
  case power =>
    intro base exponent hunder hover
    -- the exponent is a superscript directly after whatever ends the base
    rw [nodeTokens, Node.hasStacked, scriptTokens, Node.endsRaised]
    have hraised := (hover.2 hover.1).raised (proper_node_and_row.2 _ hover.1).nested
    simpa using (hunder.2 hunder.1).append hraised (begins_superscript _)
  case root =>
    intro radicand hinner
    rw [nodeTokens, Node.hasStacked]
    exact .cons (by decide) (hinner.2 hinner.1).grouped
  case parens =>
    intro inner hinner
    rw [nodeTokens, Node.hasStacked]
    exact (hinner.2 hinner.1).sized
  case subscript =>
    intro base script hbase hinner
    rw [nodeTokens, Node.hasStacked]
    exact (stacks_verbatim hbase).append_left (.cons (by decide) (hinner.2 hinner.1).grouped)
  case nil => exact fun _ _ => rfl
  case call =>
    intro name inner rest hinner hrest hshape
    -- a called name ends in a bracket or a group, on which nothing is stacked
    have hafter := Node.forall_inRow_tail (Node.forall_inRow_tail hshape)
    have hwithin : Node.rowHasStacked (.function name :: .parens inner :: rest) =
        (Node.rowHasStacked inner || Node.rowHasStacked rest) := by
      simp [Node.rowHasStacked, Node.hasStacked, Node.startsRaised, Node.endsRaised]
    have hlast : (Node.function name :: .parens inner :: rest).getLast?.any Node.endsRaised =
        rest.getLast?.any Node.endsRaised := by
      cases rest <;> rfl
    rw [rowTokens, hwithin, hlast]
    exact (stacks_callTokens name (hinner.2 hinner.1)).append_left (hrest hafter)
  case cons =>
    intro n rest halone hn hrest hshape
    rw [rowTokens.eq_3 n rest halone]
    cases rest with
    | nil => simpa [rowTokens, Node.rowHasStacked] using hn
    | cons m more =>
      have hafter := Node.forall_inRow_tail hshape
      exact hn.append (hrest hafter) (begins_row hafter)

/-- In the TeX of a line a superscript stands directly after the argument of another in no
other places than where the nodes of the line put it there. -/
theorem stacked_line (s : List Char) :
    stacked (tokens (line (Node.readLine s)).toList) = Node.rowHasStacked (Node.readLine s) := by
  have hshape := hasShape_of_mem_readLine s
  have hstacks := stacks_row hshape []
  rw [line, String.toList_ofList, tokens_outerRow hshape]
  simpa [beginsRaised, stacked] using hstacks

/-- A power of a power has two superscripts on one base. -/
theorem stacked_power_of_power :
    stacked (tokens (line (Node.readLine "x^2^3".toList)).toList) = true := by
  decide +kernel

end Tex

end MathLine
