import MathLine.Fragment.OfNodes
import MathLine.Proofs.Printing
import MathLine.Proofs.RowSigns
import MathLine.Proofs.Spelling

set_option autoImplicit false

/-!
# Room around the signs of a line

Layouts and transcripts agree on which plus and minus signs of a line stand between operands, if
the line is typed with `√` and what else is on a keyboard (`signsAgree_readLine`).

They would not agree behind a text that looks like an operator.  A text is a character that has
been typed (`RowSpells.exists_stretch`).  An operator glyph that is on a keyboard is never text,
and the others cannot be typed.  So the fragments of all rows end as they look
(`endsAlike_ofNode_and_ofNodes`).
-/

namespace MathLine

open MathLine.Text

/-! ## Fragments that end as they look -/

namespace Fragment

open MathLine.Geometry

/-- What ends in anything but a character of a glyph ends as it looks. -/
theorem endsAlike_of_concat {fragment : Fragment} (front : List Mark) (mark : Mark)
    (hmarks : Mark.ofFragment fragment = front ++ [mark]) (hmark : mark.isOperator = false)
    (hfragment : fragment.isOperator = false) : fragment.EndsAlike :=
  ⟨front, mark, hmarks, hmark.trans hfragment.symm⟩

/-- A glyph ends as it looks if it is not empty and none of its characters is an operator
sign. -/
theorem endsAlike_glyph {text : String} {style : Style} (hne : text.toList ≠ [])
    (hsigns : style = .upright → ∀ c ∈ text.toList, Operator.isGlyph c = false) :
    (glyph text style).EndsAlike := by
  obtain ⟨front, c, htext⟩ := (List.eq_nil_or_concat' text.toList).resolve_left hne
  refine endsAlike_of_concat (front.map (.char · style)) (.char c style) ?_ ?_ rfl
  · rw [Mark.ofFragment, Mark.ofText, htext, List.map_append, List.map_singleton]
  · cases style with
    | italic => rfl
    | upright => exact hsigns rfl c (htext ▸ List.mem_append_right front List.mem_cons_self)

theorem endsAlike_ofCall (name : String) (arguments : List Fragment) :
    (ofCall name arguments).EndsAlike := by
  unfold ofCall
  split
  · exact endsAlike_of_concat [] _ (by rw [Mark.ofFragment, List.nil_append]) rfl rfl
  · exact endsAlike_of_concat _ _ (by rw [Mark.ofFragment]) rfl rfl

end Fragment

/-! ## Signs that cannot be typed -/

theorem Operator.isGlyph_eq_false {c : Char} (h : ∀ op : Operator, op.glyph ≠ c) :
    isGlyph c = false := by
  rw [isGlyph, List.any_eq_false]
  intro op _
  simpa using h op

/-- A character that may be text is drawn like an operator only if it is not on a keyboard. -/
theorem Operator.isGlyph_of_isTextChar {c : Char} (htext : Node.isTextChar c = true)
    (hkey : c.toNat < 128 ∨ c = '√') : isGlyph c = false := by
  apply isGlyph_eq_false
  rintro op rfl
  cases op <;> revert htext hkey <;> decide

theorem Operator.isGlyph_of_isStart {c : Char} (h : Numeral.isStart c = true) :
    isGlyph c = false := by
  apply isGlyph_eq_false
  rintro op rfl
  cases op <;> revert h <;> decide

namespace Node

/-- The text that a node holds, if it is text, has no operator glyph in it. -/
def HoldsNoSign (n : Node) : Prop :=
  ∀ content, n = text content → ∀ c ∈ content.toList, Operator.isGlyph c = false

/-- The rows right inside a node are spelled by stretches of its spelling, and not by all of
it. -/
theorem Spells.exists_childRow {n : Node} {t : List Char} (h : Spells n t) :
    ∀ row ∈ n.childRows, ∃ u, RowSpells row u ∧ u <:+: t ∧ u.length < t.length := by
  have hargument {sign : Char} (front : List Char) {u v : List Char} (harg : BareOrEnclosed u v) :
      u <:+: front ++ sign :: v ∧ u.length < (front ++ sign :: v).length := by
    rcases harg with rfl | rfl
    · refine ⟨⟨front ++ [sign], [], by simp⟩, ?_⟩
      simp only [List.length_append, List.length_cons]
      omega
    · refine ⟨⟨front ++ [sign, '('], [')'], by simp⟩, ?_⟩
      simp only [List.length_append, List.length_cons]
      omega
  intro row hrow
  cases h with
  | number _ | letter _ | text _ | operator _ | function _ => exact absurd hrow List.not_mem_nil
  | @fraction _ _ t u hnumerator hdenominator =>
    simp only [childRows, List.mem_cons, List.not_mem_nil, or_false] at hrow
    rcases hrow with rfl | rfl
    · exact ⟨t, hnumerator, (List.prefix_append _ _).isInfix, by simp⟩
    · exact ⟨u, hdenominator, hargument t (.inl rfl)⟩
  | @power _ _ t u v hbase hexponent harg =>
    simp only [childRows, List.mem_cons, List.not_mem_nil, or_false] at hrow
    rcases hrow with rfl | rfl
    · exact ⟨t, hbase, (List.prefix_append _ _).isInfix, by simp⟩
    · exact ⟨u, hexponent, hargument t harg⟩
  | @root _ u v hradicand harg =>
    obtain rfl := List.mem_singleton.1 hrow
    exact ⟨u, hradicand, hargument [] harg⟩
  | @parens _ t hinner =>
    obtain rfl := List.mem_singleton.1 hrow
    refine ⟨t, hinner, ⟨['('], [')'], rfl⟩, ?_⟩
    simp only [List.length_append, List.length_cons]
    omega
  | @subscript base _ u v hscript harg =>
    obtain rfl := List.mem_singleton.1 hrow
    exact ⟨u, hscript, hargument base.toList harg⟩

/-- Each node inside a row is spelled by a stretch of the row's spelling. -/
theorem RowSpells.exists_stretch {m : Node} : {ns : List Node} → {t : List Char} →
    RowSpells ns t → m ∈ inRow ns → ∃ u, Spells m u ∧ u <:+: t
  | [], _, _, hm => absurd hm (by simp)
  | n :: ns, _, .cons (t := t) (u := u) hnode hrest, hm => by
    rw [inRow_cons, List.mem_append, inTree_eq, List.mem_cons, List.mem_flatMap] at hm
    rcases hm with (rfl | ⟨row, hrow, hm⟩) | hm
    · exact ⟨t, hnode, (List.prefix_append t u).isInfix⟩
    · obtain ⟨v, hv, hin, hlength⟩ := hnode.exists_childRow row hrow
      obtain ⟨w, hw, hin'⟩ := hv.exists_stretch hm
      exact ⟨w, hw, hin'.trans (hin.trans (List.prefix_append t u).isInfix)⟩
    · obtain ⟨w, hw, hin⟩ := hrest.exists_stretch hm
      exact ⟨w, hw, hin.trans (List.suffix_append t u).isInfix⟩
termination_by ns t => (t.length, ns.length)
decreasing_by
  all_goals
    simp only [Prod.lex_def, List.length_append, List.length_cons]
    omega

/-- A text in a line that is typed on a keyboard has no operator glyph in it. -/
theorem holdsNoSign_of_mem_readLine {s : List Char} (hs : ∀ c ∈ s, c.toNat < 128 ∨ c = '√') :
    ∀ n ∈ inRow (readLine s), n.HoldsNoSign := by
  rintro n hn content rfl c hc
  obtain ⟨u, hspells, hin⟩ := (rowSpells_readLine s).exists_stretch hn
  cases hspells
  have htyped : c ∈ s := List.mem_of_mem_filter (hin.subset hc)
  obtain ⟨d, hcontent, hd⟩ := hasShape_of_mem_readLine s _ hn
  rw [hcontent, List.mem_singleton] at hc
  exact Operator.isGlyph_of_isTextChar (hc ▸ hd) (hs c htyped)

end Node

/-! ## All fragments of a line -/

namespace Fragment

open MathLine.Geometry

/-- All rows of a row end as they look if those of the first fragment and of the others do. -/
theorem endsAlike_cons {path : List Place} {fragment : Fragment} {rest : List Fragment}
    (hself : fragment.EndsAlike)
    (hinside : ∀ inner ∈ fragmentRows path fragment, ∀ part ∈ inner.2, part.EndsAlike)
    (hrest : ∀ inner ∈ (path, rest) :: rowsInFragments path rest,
      ∀ part ∈ inner.2, part.EndsAlike) :
    ∀ inner ∈ (path, fragment :: rest) :: rowsInFragments path (fragment :: rest),
      ∀ part ∈ inner.2, part.EndsAlike := by
  rw [List.forall_mem_cons] at hrest ⊢
  refine ⟨List.forall_mem_cons.2 ⟨hself, hrest.1⟩, ?_⟩
  rw [rowsInFragments]
  exact List.forall_mem_append.2 ⟨hinside, hrest.2⟩

/-- The fragments of nodes end as they look if the nodes have their shape and hold no sign, and
so do those of all rows inside them. -/
theorem endsAlike_ofNode_and_ofNodes :
    (∀ n, (∀ m ∈ Node.inTree n, m.HasShape ∧ m.HoldsNoSign) →
      (ofNode n).EndsAlike ∧ ∀ path, ∀ inner ∈ fragmentRows path (ofNode n),
        ∀ fragment ∈ inner.2, fragment.EndsAlike) ∧
      ∀ ns, (∀ m ∈ Node.inRow ns, m.HasShape ∧ m.HoldsNoSign) →
        ∀ path, ∀ inner ∈ (path, ofNodes ns) :: rowsInFragments path (ofNodes ns),
          ∀ fragment ∈ inner.2, fragment.EndsAlike := by
  refine Node.induction_of_all
    (fun n => (ofNode n).EndsAlike ∧ ∀ path, ∀ inner ∈ fragmentRows path (ofNode n),
      ∀ fragment ∈ inner.2, fragment.EndsAlike)
    (fun ns => ∀ path, ∀ inner ∈ (path, ofNodes ns) :: rowsInFragments path (ofNodes ns),
      ∀ fragment ∈ inner.2, fragment.EndsAlike)
    ?number ?letter ?text ?operator ?function ?fraction ?power ?root ?parens ?subscript
    ?nil ?call ?cons
  case number =>
    rintro digits ⟨hdigits, -⟩
    rw [ofNode]
    refine ⟨endsAlike_glyph (Numeral.IsNumeral.ne_nil hdigits) fun _ c hc => ?_,
      by simp [fragmentRows]⟩
    exact Operator.isGlyph_of_isStart (Numeral.IsNumeral.isStart_of_mem hdigits c hc)
  case letter =>
    intro c _
    rw [ofNode]
    exact ⟨endsAlike_glyph (by simp) nofun, by simp [fragmentRows]⟩
  case text =>
    rintro content ⟨⟨c, hcontent, -⟩, hsigns⟩
    rw [ofNode]
    exact ⟨endsAlike_glyph (by simp [hcontent]) fun _ => hsigns content rfl,
      by simp [fragmentRows]⟩
  case operator =>
    intro op
    rw [ofNode]
    refine ⟨⟨[], .char op.glyph .upright, by rw [Mark.ofFragment, List.nil_append], ?_⟩,
      by simp [fragmentRows]⟩
    exact List.any_eq_true.2 ⟨op, op.mem_all, beq_self_eq_true _⟩
  case function =>
    intro name _
    rw [ofNode]
    exact ⟨endsAlike_of_concat _ _ (by rw [Mark.ofFragment]) (by decide) rfl,
      by simp [fragmentRows]⟩
  case fraction =>
    rintro numerator denominator ⟨-, hover⟩ ⟨-, hunder⟩
    rw [ofNode]
    refine ⟨endsAlike_of_concat [] _ (by rw [Mark.ofFragment, List.nil_append]) rfl rfl,
      fun path => ?_⟩
    rw [fragmentRows]
    exact List.forall_mem_append.2 ⟨hover _, hunder _⟩
  case power =>
    rintro base exponent ⟨-, hunder⟩ ⟨-, hover⟩
    rw [ofNode]
    refine ⟨endsAlike_of_concat _ _ (by rw [Mark.ofFragment]) rfl rfl, fun path => ?_⟩
    rw [fragmentRows]
    exact List.forall_mem_append.2 ⟨(List.forall_mem_cons.1 (hunder path)).2, hover _⟩
  case root | parens =>
    rintro inner ⟨-, hinner⟩
    rw [ofNode]
    refine ⟨endsAlike_of_concat [] _ (by rw [Mark.ofFragment, List.nil_append]) rfl rfl,
      fun path => ?_⟩
    rw [fragmentRows]
    exact hinner _
  case subscript =>
    rintro base script - ⟨-, hinner⟩
    rw [ofNode]
    refine ⟨endsAlike_of_concat _ _ (by rw [Mark.ofFragment]) rfl rfl, fun path => ?_⟩
    rw [fragmentRows, ofBase, rowsInFragments, fragmentRows, rowsInFragments]
    exact hinner _
  case nil =>
    intro path
    rw [ofNodes, rowsInFragments]
    simp
  case call =>
    rintro name inner rest ⟨-, hinner⟩ hrest path
    have hcall : ∀ within ∈ fragmentRows path (ofCall name (ofNodes inner)),
        ∀ fragment ∈ within.2, fragment.EndsAlike := by
      unfold ofCall
      split
      · rw [fragmentRows]
        exact hinner _
      · rw [fragmentRows]
        exact hinner _
    rw [ofNodes]
    exact endsAlike_cons (endsAlike_ofCall name _) hcall (hrest path)
  case cons =>
    intro n rest halone hn hrest path
    rw [ofNodes.eq_3 n rest halone]
    exact endsAlike_cons hn.1 (hn.2 path) (hrest path)

/-! ## Bases of subscripts -/

/-- The rows right inside a fragment. -/
def childRows : Fragment → List (List Fragment)
  | glyph _ _ | operator _ | functionName _ => []
  | call _ row | radical row | group row => [row]
  | fraction first second | power first second | subscript first second => [first, second]

/-- The row `inner` is the row `row` or stands inside it, at any depth. -/
inductive RowInside (row : List Fragment) : (inner : List Fragment) → Prop where
  | self : RowInside row row
  | child {outer inner : List Fragment} {fragment : Fragment} (h : RowInside row outer)
      (hmem : fragment ∈ outer) (hchild : inner ∈ fragment.childRows) : RowInside row inner

/-- The row is the row of some nodes, or the base of a subscript. -/
def IsMade (row : List Fragment) : Prop :=
  (∃ ns, row = ofNodes ns) ∨ ∃ base, row = [ofBase base]

theorem isMade_of_childRow {n : Node} : ∀ row ∈ (ofNode n).childRows, IsMade row := by
  intro row hrow
  cases n <;> simp only [ofNode, childRows, List.mem_cons, List.not_mem_nil, or_false] at hrow
  case fraction | power =>
    rcases hrow with rfl | rfl
    · exact .inl ⟨_, rfl⟩
    · exact .inl ⟨_, rfl⟩
  case root | parens => exact .inl ⟨_, hrow⟩
  case subscript =>
    rcases hrow with rfl | rfl
    · exact .inr ⟨_, rfl⟩
    · exact .inl ⟨_, rfl⟩

theorem mem_ofNodes {fragment : Fragment} : {ns : List Node} → fragment ∈ ofNodes ns →
    (∃ n, fragment = ofNode n) ∨ ∃ name inner, fragment = ofCall name (ofNodes inner)
  | [], hmem => by
    rw [ofNodes] at hmem
    exact absurd hmem List.not_mem_nil
  | n :: rest, hmem => by
    rw [ofNodes.eq_def] at hmem
    split at hmem
    · exact absurd hmem List.not_mem_nil
    · next name inner rest heq =>
      obtain ⟨rfl, rfl⟩ := List.cons.inj heq
      rcases List.mem_cons.1 hmem with rfl | hmem
      · exact .inr ⟨name, inner, rfl⟩
      · exact mem_ofNodes hmem
    · next heq =>
      obtain ⟨rfl, rfl⟩ := List.cons.inj heq
      rcases List.mem_cons.1 hmem with rfl | hmem
      · exact .inl ⟨n, rfl⟩
      · exact mem_ofNodes hmem

/-- Each row of a drawing that is made of nodes is made of nodes, but for bases of subscripts. -/
theorem RowInside.isMade {ns : List Node} {row : List Fragment}
    (h : RowInside (ofNodes ns) row) : IsMade row := by
  induction h with
  | self => exact .inl ⟨ns, rfl⟩
  | child _ hmem hchild ih =>
    rcases ih with ⟨ns, rfl⟩ | ⟨base, rfl⟩
    · rcases mem_ofNodes hmem with ⟨n, rfl⟩ | ⟨name, inner, rfl⟩
      · exact isMade_of_childRow _ hchild
      · refine .inl ⟨inner, ?_⟩
        unfold ofCall at hchild
        split at hchild <;> exact List.mem_singleton.1 hchild
    · obtain rfl := List.mem_singleton.1 hmem
      exact absurd hchild List.not_mem_nil

/-- No operator sign stands in the base of a subscript. -/
theorem RowInside.isOperator_of_base {ns : List Node} {row base script : List Fragment}
    (h : RowInside (ofNodes ns) row) (hmem : .subscript base script ∈ row) :
    ∀ fragment ∈ base, fragment.isOperator = false := by
  rcases h.isMade with ⟨ns, rfl⟩ | ⟨base, rfl⟩
  · rcases mem_ofNodes hmem with ⟨n, hn⟩ | ⟨name, inner, hcall⟩
    · cases n <;> simp only [ofNode, reduceCtorEq, subscript.injEq] at hn
      rw [hn.1]
      exact List.forall_mem_singleton.2 rfl
    · unfold ofCall at hcall
      split at hcall <;> simp at hcall
  · simp [ofBase] at hmem

end Fragment

/-! ## Layouts and transcripts agree -/

open MathLine.Geometry in
/-- The layout and the transcript of the fragments agree on which plus and minus signs stand
between operands. -/
structure SignsAgree (fragments : List Fragment) : Prop where
  /-- in each row, a sign is arranged with room just when it is written with spaces -/
  room : ∀ {K : Type} [Scalar K] (m : Metrics K),
    List.Forall₂ (fun inner arranged => ∀ p : RowSign inner.2, p.HasRoom m arranged)
      (([], fragments) :: rowsInFragments [] fragments)
      (arrange m (Mark.ofFragments fragments)).rows
  /-- and so its width tells how it is written -/
  width : ∀ m : Metrics ℚ, m.operatorSpace ≠ 0 →
    List.Forall₂ (fun inner arranged => ∀ p : RowSign inner.2, p.ShowsWidth m arranged)
      (([], fragments) :: rowsInFragments [] fragments)
      (arrange m (Mark.ofFragments fragments)).rows
  /-- the bases of subscripts, which are not among these rows, have no signs in them -/
  bases : ∀ row, Fragment.RowInside fragments row → ∀ base script,
    .subscript base script ∈ row → ∀ fragment ∈ base, fragment.isOperator = false

open MathLine.Geometry in
/-- Layouts and transcripts agree on the signs of lines of `√` and characters that are on a
keyboard. -/
theorem signsAgree_readLine {s : List Char} (hs : ∀ c ∈ s, c.toNat < 128 ∨ c = '√') :
    SignsAgree (Fragment.ofNodes (Node.readLine s)) := by
  have hends := Fragment.endsAlike_ofNode_and_ofNodes.2 (Node.readLine s) (fun n hn =>
    ⟨hasShape_of_mem_readLine s n hn, Node.holdsNoSign_of_mem_readLine hs n hn⟩) []
  have hroom : ∀ {K : Type} [Scalar K] (m : Metrics K),
      List.Forall₂ (fun inner arranged => ∀ p : RowSign inner.2, p.HasRoom m arranged)
        (([], Fragment.ofNodes (Node.readLine s)) ::
          rowsInFragments [] (Fragment.ofNodes (Node.readLine s)))
        (arrange m (Mark.ofFragments (Fragment.ofNodes (Node.readLine s)))).rows := by
    intro K _ m
    have hcells := hasCellsOf_arrange m (Fragment.ofNodes (Node.readLine s))
    exact ((List.forall₂_and_left _ _).2 ⟨hends, hcells⟩).imp
      fun inner arranged h p => p.hasRoom_of_endsAlike m h.1 h.2
  constructor
  case room => exact hroom
  case width =>
    intro m hspace
    exact (hroom m).imp fun inner arranged h p => (h p).showsWidth hspace
  case bases =>
    intro row hrow base script hmem
    exact hrow.isOperator_of_base hmem

open MathLine.Geometry in
/-- In `x-√(-2)` the width of each minus tells how it is written. -/
theorem signsAgree_two_minuses :
    (∀ c ∈ "x-√(-2)".toList, c.toNat < 128 ∨ c = '√') ∧
      (Metrics.standard : Metrics ℚ).operatorSpace ≠ 0 ∧
        List.Forall₂
          (fun inner arranged => ∀ p : RowSign inner.2, p.ShowsWidth Metrics.standard arranged)
          (([], Fragment.ofNodes (Node.readLine "x-√(-2)".toList)) ::
            rowsInFragments [] (Fragment.ofNodes (Node.readLine "x-√(-2)".toList)))
          (arrange Metrics.standard
            (Mark.ofFragments (Fragment.ofNodes (Node.readLine "x-√(-2)".toList)))).rows :=
  have hs : ∀ c ∈ "x-√(-2)".toList, c.toNat < 128 ∨ c = '√' := by simp
  have hspace : (Metrics.standard : Metrics ℚ).operatorSpace ≠ 0 := by
    norm_num [Metrics.standard]
  ⟨hs, hspace, (signsAgree_readLine hs).width Metrics.standard hspace⟩

/-- The first of them stands between operands. -/
example : Fragment.rowTranscript (Fragment.ofNodes (Node.readLine "x-√(-2)".toList)) =
    "x − √(−2)" := by
  decide +kernel

end MathLine
