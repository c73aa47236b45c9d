import MathLine.Proofs.SoundTex

set_option autoImplicit false

/-!
# Arguments in TeX

A script and many a command take an argument: the group that stands directly after them, and
a script for want of a group the next token.  What is taken can be told only with what follows
in view, and so `afterGroup?` gives the tokens that are left when a group has been taken from
the front of others.  A group that the printer has put in braces is taken whole, because what
is nested in it closes all that it opens (`afterGroup?_grouped_append`).

What may go wrong with an argument goes wrong where two things meet.  Hence the second half:
how the tokens of a node begin.  None begins with a group, and those that begin with a
superscript are known by the first name in them (`begins_row`).
-/

namespace MathLine.Tex

/-! ## Taking groups -/

/-- What stands after the end of a group that has been opened, with `depth` groups open in it. -/
def afterClosing? : (depth : Nat) → List Token → Option (List Token)
  | _, [] => none
  | depth, t :: ts =>
    if t = .char '{' then afterClosing? (depth + 1) ts
    else if t = .char '}' then
      match depth with
      | 0 => some ts
      | depth + 1 => afterClosing? depth ts
    else afterClosing? depth ts

/-- What stands after the group at the front. -/
def afterGroup? : List Token → Option (List Token)
  | [] => none
  | t :: ts => if t = .char '{' then afterClosing? 0 ts else none

theorem afterClosing?_open (depth : Nat) (ts : List Token) :
    afterClosing? depth (.char '{' :: ts) = afterClosing? (depth + 1) ts := by
  cases depth <;> rw [afterClosing?, if_pos rfl]

theorem afterClosing?_close (depth : Nat) (ts : List Token) :
    afterClosing? (depth + 1) (.char '}' :: ts) = afterClosing? depth ts := by
  rw [afterClosing?, if_neg (by decide), if_pos rfl]

theorem afterClosing?_last (ts : List Token) :
    afterClosing? 0 (.char '}' :: ts) = some ts := by
  rw [afterClosing?, if_neg (by decide), if_pos rfl]

/-- What is no brace is passed over. -/
theorem afterClosing?_cons {t : Token} (hopen : t ≠ .char '{') (hclose : t ≠ .char '}')
    (depth : Nat) (ts : List Token) : afterClosing? depth (t :: ts) = afterClosing? depth ts := by
  cases depth <;> rw [afterClosing?, if_neg hopen, if_neg hclose]

theorem grouped_append (ts us : List Token) :
    grouped ts ++ us = .char '{' :: (ts ++ .char '}' :: us) := by
  rw [grouped, List.append_assoc, List.cons_append, List.singleton_append]

theorem sized_append (ts us : List Token) :
    sized ts ++ us = .control "left".toList :: .char '(' ::
      (ts ++ .control "right".toList :: .char ')' :: us) := by
  simp only [sized, List.cons_append, List.nil_append, List.append_assoc]

/-- What closes all that it opens is passed over on the way to the end of a group. -/
theorem afterClosing?_append_of_nested {ts : List Token} (h : Nested ts) (depth : Nat)
    (us : List Token) : afterClosing? depth (ts ++ us) = afterClosing? depth us := by
  induction h generalizing depth us with
  | nil => rfl
  | @plain t ht =>
    have hopen : t ≠ .char '{' := by
      rintro rfl
      exact absurd ht (by decide)
    have hclose : t ≠ .char '}' := by
      rintro rfl
      exact absurd ht (by decide)
    exact afterClosing?_cons hopen hclose depth us
  | append _ _ ihs iht => rw [List.append_assoc, ihs, iht]
  | grouped _ ih => rw [grouped_append, afterClosing?_open, ih, afterClosing?_close]
  | sized _ ih =>
    rw [sized_append, afterClosing?_cons (by decide) (by decide),
      afterClosing?_cons (by decide) (by decide), ih, afterClosing?_cons (by decide) (by decide),
      afterClosing?_cons (by decide) (by decide)]

theorem afterGroup?_grouped_append {ts : List Token} (h : Nested ts) (us : List Token) :
    afterGroup? (grouped ts ++ us) = some us := by
  rw [grouped_append, afterGroup?, if_pos rfl, afterClosing?_append_of_nested h,
    afterClosing?_last]

/-- A group is taken in the same way whatever stands after the tokens. -/
theorem afterClosing?_append {depth : Nat} {ts rest : List Token}
    (h : afterClosing? depth ts = some rest) (us : List Token) :
    afterClosing? depth (ts ++ us) = some (rest ++ us) := by
  fun_induction afterClosing? depth ts with
  | case1 => exact absurd h (by simp)
  | case2 depth ts ih => rw [List.cons_append, afterClosing?_open, ih h]
  | case3 ts =>
    rw [List.cons_append, afterClosing?_last, Option.some.inj h]
  | case4 ts _ depth ih => rw [List.cons_append, afterClosing?_close, ih h]
  | case5 depth t ts hopen hclose ih =>
    rw [List.cons_append, afterClosing?_cons hopen hclose, ih h]

theorem afterGroup?_append {ts rest : List Token} (h : afterGroup? ts = some rest)
    (us : List Token) : afterGroup? (ts ++ us) = some (rest ++ us) := by
  cases ts with
  | nil => exact absurd h (by simp [afterGroup?])
  | cons t ts =>
    rw [List.cons_append]
    by_cases hopen : t = .char '{'
    · rw [afterGroup?, if_pos hopen] at h ⊢
      exact afterClosing?_append h us
    · rw [afterGroup?, if_neg hopen] at h
      exact absurd h (by simp)

/-! ## How tokens begin -/

/-- Whether a superscript stands at the front. -/
def beginsRaised (ts : List Token) : Bool := ts.head? == some (.char '^')

/-- Whether a group stands at the front. -/
def beginsGroup (ts : List Token) : Bool := ts.head? == some (.char '{')

/-- The tokens begin, and not with a group; they begin with a superscript if `raised` and else
with something else. -/
structure Begins (raised : Bool) (ts : List Token) : Prop where
  ne_nil : ts ≠ []
  not_group : beginsGroup ts = false
  beginsRaised : beginsRaised ts = raised

instance (raised : Bool) (ts : List Token) : Decidable (Begins raised ts) :=
  decidable_of_iff (ts ≠ [] ∧ beginsGroup ts = false ∧ beginsRaised ts = raised)
    ⟨fun ⟨hne, hgroup, hraised⟩ => ⟨hne, hgroup, hraised⟩,
      fun ⟨hne, hgroup, hraised⟩ => ⟨hne, hgroup, hraised⟩⟩

/-- How tokens begin does not change with what stands after them. -/
theorem Begins.append {raised : Bool} {ts : List Token} (h : Begins raised ts) (us : List Token) :
    Begins raised (ts ++ us) := by
  obtain ⟨hne, hgroup, hraised⟩ := h
  obtain ⟨t, ts, rfl⟩ := List.exists_cons_of_ne_nil hne
  exact ⟨List.cons_ne_nil _ _, hgroup, hraised⟩

theorem begins_control (name : List Char) (ts : List Token) :
    Begins false (.control name :: ts) :=
  ⟨List.cons_ne_nil _ _, rfl, rfl⟩

theorem begins_superscript (ts : List Token) : Begins true (.char '^' :: ts) :=
  ⟨List.cons_ne_nil _ _, rfl, rfl⟩

theorem begins_chars {s : List Char} (hne : s ≠ []) (h : ∀ c ∈ s, c ∉ special) :
    Begins false (s.map .char) := by
  obtain ⟨c, s, rfl⟩ := List.exists_cons_of_ne_nil hne
  have hc := h c List.mem_cons_self
  simp only [special, backslashed, List.cons_append, List.nil_append, List.mem_cons,
    List.not_mem_nil, or_false, not_or] at hc
  constructor
  · exact List.cons_ne_nil _ _
  · simp [beginsGroup, hc]
  · simp [beginsRaised, hc]

end MathLine.Tex

/-! ## How nodes begin -/

namespace MathLine.Node

/-- The function names that TeX has as a superscript with nothing under it. -/
def raisedNames : List String := ["transpose", "inverse"]

/-- Whether the first thing that is written of a node is a superscript: its own name, or the
first name in the base of a power. -/
def startsRaised : Node → Bool
  | function name => raisedNames.contains name
  | power [] _ => true
  | power (n :: _) _ => n.startsRaised
  | _ => false

/-- What is so for all nodes of a row at every depth is so for those after its first node. -/
theorem forall_inRow_tail {Q : Node → Prop} {n : Node} {rest : List Node}
    (h : ∀ m ∈ inRow (n :: rest), Q m) : ∀ m ∈ inRow rest, Q m := by
  rw [inRow_cons, List.forall_mem_append] at h
  exact h.2

end MathLine.Node

namespace MathLine.Tex

theorem begins_nameTokens (name : String) :
    Begins (Node.startsRaised (.function name)) (nameTokens name) := by
  have hforms : ∀ entry ∈ functions,
      Begins (Node.startsRaised (.function entry.1)) (tokens entry.2.toList) := by
    decide +kernel
  unfold nameTokens
  split
  · next form hform => exact hforms (name, form) (mem_functions hform)
  · next hnone =>
    have hraised : Node.startsRaised (.function name) = false := by
      have hall : ∀ name ∈ Node.raisedNames, (function? name).isSome := by decide
      rw [Node.startsRaised, List.contains_eq_mem, decide_eq_false_iff_not]
      intro hmem
      exact absurd (hall name hmem) (by simp [hnone])
    rw [hraised]
    exact begins_control _ _

/-- A character that needs no escape is a token, unless it is a space. -/
theorem tokens_escapeChar_of_not_special (mode : Mode) {c : Char} (h : c ∉ special) :
    tokens (escapeChar mode c) = if c = ' ' then [] else [.char c] := by
  have hslash : c ≠ '\\' := by
    rintro rfl
    exact h (by decide)
  rw [escapeChar_of_not_special mode h]
  split
  · next hspace => rw [hspace, tokens_space, tokens_nil]
  · next hspace => rw [tokens_char [] hslash hspace, tokens_nil]

theorem begins_escapeTokens {content : String} (h : (Node.text content).HasShape) :
    Begins false (escapeTokens .math content.toList) := by
  have hspecial : special.all fun c => decide (Begins false (tokens (escapeChar .math c))) := by
    decide +kernel
  obtain ⟨c, hcontent, hc⟩ := h
  rw [hcontent, escapeTokens, List.flatMap_singleton]
  by_cases hmem : c ∈ special
  · exact of_decide_eq_true (List.all_eq_true.1 hspecial c hmem)
  · have hspace : c ≠ ' ' := by
      rintro rfl
      exact absurd hc (by decide)
    rw [tokens_escapeChar_of_not_special .math hmem, if_neg hspace]
    exact begins_chars (List.cons_ne_nil c []) (List.forall_mem_singleton.2 hmem)

theorem begins_operatorTokens (op : Operator) : Begins false (tokens (operator op).toList) := by
  have hall : ∀ op ∈ Operator.all, Begins false (tokens (operator op).toList) := by
    decide +kernel
  exact hall op op.mem_all

theorem begins_verbatim {n : Node} (h : n.HasShape) (hne : verbatim n ≠ []) :
    Begins false ((verbatim n).map .char) :=
  begins_chars hne fun _ hc => not_special (of_mem_verbatim h hc)

theorem begins_callTokens (name : String) (arguments : List Token) :
    Begins (Node.startsRaised (.function name)) (callTokens name arguments) := by
  unfold callTokens
  split
  · next hname =>
    rw [hname]
    exact begins_control _ _
  · exact (begins_nameTokens name).append _

/-- What is written for a row of nodes that have their shape begins as its first node does. -/
theorem begins_row {n : Node} {rest : List Node} (h : ∀ m ∈ Node.inRow (n :: rest), m.HasShape) :
    Begins n.startsRaised (rowTokens (n :: rest)) := by
  refine (Node.induction_of_all (fun n => Begins n.startsRaised (nodeTokens n))
    (fun ns => ∀ n rest, ns = n :: rest → Begins n.startsRaised (rowTokens ns))
    ?number ?letter ?text ?operator ?function ?fraction ?power ?root ?parens ?subscript
    ?nil ?call ?cons).2 _ h n rest rfl
  case number => exact fun digits hdigits => begins_verbatim hdigits hdigits.ne_nil
  case letter => exact fun c hc => begins_verbatim hc (List.cons_ne_nil _ _)
  case text => exact fun content hcontent => begins_escapeTokens hcontent
  case operator => exact begins_operatorTokens
  case function => exact fun name _ => begins_nameTokens name
  case fraction =>
    intro numerator denominator _ _
    rw [nodeTokens]
    exact begins_control _ _
  case power =>
    intro base exponent hunder _
    rw [nodeTokens, scriptTokens]
    cases base with
    | nil => exact begins_superscript _
    | cons n rest => exact (hunder.2 n rest rfl).append _
  case root =>
    intro radicand _
    rw [nodeTokens]
    exact begins_control _ _
  case parens =>
    intro inner _
    rw [nodeTokens]
    exact begins_control _ _
  case subscript =>
    intro base script hbase _
    have hne : base.toList ≠ [] := by
      rcases hbase.1 with hnumeral | ⟨c, hc, -⟩
      · exact hnumeral.ne_nil
      · rw [hc]
        exact List.cons_ne_nil c []
    rw [nodeTokens]
    exact (begins_verbatim hbase hne).append _
  case nil => exact fun n rest hnil => absurd hnil.symm (List.cons_ne_nil n rest)
  case call =>
    intro name inner rest _ _ n after hcons
    obtain ⟨rfl, -⟩ := List.cons.inj hcons
    rw [rowTokens]
    exact (begins_callTokens name _).append _
  case cons =>
    intro n rest halone hn _ m after hcons
    obtain ⟨rfl, -⟩ := List.cons.inj hcons
    rw [rowTokens.eq_3 n rest halone]
    exact hn.append _

end MathLine.Tex
