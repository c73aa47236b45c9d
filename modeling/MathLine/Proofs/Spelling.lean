import MathLine.Proofs.Steps

set_option autoImplicit false

/-!
# Every character is kept

Reading a line loses, invents, doubles and moves nothing but blanks.  To say so, nodes
are spelled back: `Spells n t` says that the text `t` is a way of typing the node `n`,
and `RowSpells` says the same of a row of nodes, whose spellings follow each other.  A
node can be typed in more than one way only where an argument may stand bare or in
brackets (`BareOrEnclosed`).

`rowSpells_readLine` says that a line without its blanks is a spelling of the nodes that
are read from it.
-/

namespace MathLine

open MathLine.Text

/-- The text `s` without its blanks. -/
def withoutBlanks (s : List Char) : List Char := s.filter fun c => !isBlank c

/-- The text `u` is `t`, or `t` in one pair of brackets. -/
def BareOrEnclosed (t u : List Char) : Prop := u = t ∨ u = '(' :: t ++ [')']

namespace Node

mutual

/-- The text is a way of typing the node. -/
inductive Spells : Node → List Char → Prop where
  | number (digits : String) : Spells (.number digits) digits.toList
  | letter (c : Char) : Spells (.letter c) [c]
  | text (content : String) : Spells (.text content) content.toList
  | operator (op : Operator) : Spells (.operator op) op.typed.toList
  | function (name : String) : Spells (.function name) name.toList
  | fraction {numerator denominator : List Node} {t u : List Char}
      (hnumerator : RowSpells numerator t) (hdenominator : RowSpells denominator u) :
      Spells (.fraction numerator denominator) (t ++ '/' :: u)
  | power {base exponent : List Node} {t u v : List Char} (hbase : RowSpells base t)
      (hexponent : RowSpells exponent u) (harg : BareOrEnclosed u v) :
      Spells (.power base exponent) (t ++ '^' :: v)
  | root {radicand : List Node} {u v : List Char} (hradicand : RowSpells radicand u)
      (harg : BareOrEnclosed u v) : Spells (.root radicand) ('√' :: v)
  | parens {inner : List Node} {t : List Char} (hinner : RowSpells inner t) :
      Spells (.parens inner) ('(' :: t ++ [')'])
  | subscript {base : String} {script : List Node} {u v : List Char}
      (hscript : RowSpells script u) (harg : BareOrEnclosed u v) :
      Spells (.subscript base script) (base.toList ++ '_' :: v)

/-- The text is a way of typing the nodes of a row one after the other. -/
inductive RowSpells : List Node → List Char → Prop where
  | nil : RowSpells [] []
  | cons {n : Node} {ns : List Node} {t u : List Char} (hnode : Spells n t)
      (hrow : RowSpells ns u) : RowSpells (n :: ns) (t ++ u)

end

/-! ## Spellings of rows -/

theorem RowSpells.singleton {n : Node} {t : List Char} (h : Spells n t) : RowSpells [n] t :=
  List.append_nil t ▸ RowSpells.cons h .nil

theorem RowSpells.eq_nil {t : List Char} (h : RowSpells [] t) : t = [] := by
  cases h
  rfl

theorem RowSpells.of_singleton {n : Node} {t : List Char} (h : RowSpells [n] t) :
    Spells n t := by
  cases h with
  | cons hnode hrow =>
    rw [hrow.eq_nil, List.append_nil]
    exact hnode

theorem RowSpells.append {ms ns : List Node} {t u : List Char} (hms : RowSpells ms t)
    (hns : RowSpells ns u) : RowSpells (ms ++ ns) (t ++ u) := by
  induction ms generalizing t with
  | nil =>
    cases hms
    exact hns
  | cons m ms ih =>
    cases hms with
    | cons hnode hrow =>
      rw [List.cons_append, List.append_assoc]
      exact .cons hnode (ih hrow)

/-- A spelling of two rows one after the other is one of the first and then one of the
second. -/
theorem RowSpells.of_append {ms ns : List Node} {v : List Char} (h : RowSpells (ms ++ ns) v) :
    ∃ t u, v = t ++ u ∧ RowSpells ms t ∧ RowSpells ns u := by
  induction ms generalizing v with
  | nil => exact ⟨[], v, rfl, .nil, h⟩
  | cons m ms ih =>
    rw [List.cons_append] at h
    cases h with
    | cons hnode hrow =>
      obtain ⟨t, u, rfl, hms, hns⟩ := ih hrow
      exact ⟨_, u, (List.append_assoc _ _ _).symm, .cons hnode hms, hns⟩

/-- The text of a number or letter is its spelling. -/
theorem spells_literal {n : Node} {base : String} {t : List Char}
    (hbase : n.literal? = some base) (h : Spells n t) : t = base.toList := by
  cases h <;> simp only [literal?, Option.some.injEq, reduceCtorEq] at hbase
  · rw [hbase]
  · rw [← hbase, String.toList_ofList]

end Node

/-! ## Blanks -/

@[simp] theorem withoutBlanks_append (s t : List Char) :
    withoutBlanks (s ++ t) = withoutBlanks s ++ withoutBlanks t :=
  List.filter_append s t

theorem withoutBlanks_cons {c : Char} (s : List Char) (h : isBlank c = false) :
    withoutBlanks (c :: s) = c :: withoutBlanks s :=
  List.filter_cons_of_pos (by simp [h])

theorem withoutBlanks_of_blank {s : List Char} (h : isBlankText s = true) :
    withoutBlanks s = [] := by
  rw [withoutBlanks, List.filter_eq_nil_iff]
  intro c hc
  simp [List.all_eq_true.1 h c hc]

theorem withoutBlanks_eq_self {s : List Char} (h : ∀ c ∈ s, isBlank c = false) :
    withoutBlanks s = s := by
  rw [withoutBlanks, List.filter_eq_self]
  intro c hc
  simp [h c hc]

theorem withoutBlanks_word {w : List Char} (h : IsWord w) : withoutBlanks w = w := by
  apply withoutBlanks_eq_self
  intro c hc
  exact isBlank_of_isWordChar (h.2 c hc)

/-- An argument without its blanks stands bare or enclosed as it did with them. -/
theorem Argument.bareOrEnclosed {arg written rest : List Char}
    (h : Argument arg written rest) :
    BareOrEnclosed (withoutBlanks arg) (withoutBlanks written) := by
  cases h with
  | word _ _ => exact .inl rfl
  | group _ _ =>
    right
    rw [withoutBlanks_append, withoutBlanks_cons _ rfl]
    rfl

/-! ## One step -/

theorem Operator.isBlank_of_mem_typed (op : Operator) :
    ∀ c ∈ op.typed.toList, isBlank c = false := by
  intro c hc
  have hall : op.typed.toList.all (fun c => !isBlank c) = true := by cases op <;> rfl
  simpa using List.all_eq_true.1 hall c hc

/-- The text that a step takes, after the spelling of the nodes that it takes back, is a
spelling of its node. -/
theorem Piece.Reads.spells {last : Option Node} {piece : Piece} {typed rest u : List Char}
    {inside : List Node} (h : piece.Reads last typed rest)
    (hinside : Node.RowSpells inside (withoutBlanks piece.inner))
    (htaken : Node.RowSpells (piece.retracted last) u) :
    Node.Spells (piece.node inside) (u ++ withoutBlanks typed) := by
  cases h with
  | number hne hlead =>
    have hnumeral := Numeral.isNumeral_of_leading_append hne hlead
    have hblank : ∀ c ∈ typed, isBlank c = false := by
      intro c hc
      exact Numeral.isBlank_of_isStart (hnumeral.isStart_of_mem c hc)
    rw [Node.RowSpells.eq_nil htaken, withoutBlanks_eq_self hblank]
    have hspells := Node.Spells.number (String.ofList typed)
    rwa [String.toList_ofList] at hspells
  | @function name _ hname _ =>
    rw [Node.RowSpells.eq_nil htaken, withoutBlanks_word (Lexicon.isWord_of_contains hname)]
    exact .function name
  | @letter c _ hc _ =>
    rw [Node.RowSpells.eq_nil htaken,
      withoutBlanks_cons _ (isBlank_of_isWordChar (isWordChar_of_isAlpha hc))]
    exact .letter c
  | @operator op _ _ =>
    rw [Node.RowSpells.eq_nil htaken, withoutBlanks_eq_self op.isBlank_of_mem_typed]
    exact .operator op
  | @fraction numerator w _ hlast _ _ _ =>
    subst hlast
    rw [withoutBlanks_cons w rfl]
    exact .fraction htaken hinside
  | divide _ =>
    rw [Node.RowSpells.eq_nil htaken]
    exact .operator .divide
  | @power base arg written _ hlast harg =>
    subst hlast
    rw [withoutBlanks_cons written rfl]
    exact .power htaken hinside harg.bareOrEnclosed
  | caret _ =>
    rw [Node.RowSpells.eq_nil htaken]
    exact .text "^"
  | @subscript base arg written _ hlast harg =>
    obtain ⟨node, rfl, hbase⟩ := Option.bind_eq_some_iff.1 hlast
    rw [Node.spells_literal hbase (Node.RowSpells.of_singleton htaken),
      withoutBlanks_cons written rfl]
    exact .subscript hinside harg.bareOrEnclosed
  | underscore _ =>
    rw [Node.RowSpells.eq_nil htaken]
    exact .text "_"
  | @root arg written _ harg =>
    rw [Node.RowSpells.eq_nil htaken, withoutBlanks_cons written rfl]
    exact .root hinside harg.bareOrEnclosed
  | radical _ =>
    rw [Node.RowSpells.eq_nil htaken]
    exact .text "√"
  | @group inner _ _ =>
    rw [Node.RowSpells.eq_nil htaken, withoutBlanks_append, withoutBlanks_cons inner rfl]
    exact .parens hinside
  | openBracket _ =>
    rw [Node.RowSpells.eq_nil htaken]
    exact .text "("
  | closeBracket =>
    rw [Node.RowSpells.eq_nil htaken]
    exact .text ")"
  | @other c _ hc _ =>
    rw [Node.RowSpells.eq_nil htaken, withoutBlanks_cons _ (isOther_iff.1 hc).1]
    have hspells := Node.Spells.text (String.ofList [c])
    rwa [String.toList_ofList] at hspells

/-! ## A whole line -/

/-- While a line is read, the nodes so far are spelled by what has been passed. -/
theorem keptByReading_spells :
    KeptByReading (fun s nodes => Node.RowSpells nodes (withoutBlanks s))
      (fun whole done s => ∃ t, Node.RowSpells done.reverse t ∧
        withoutBlanks whole = t ++ withoutBlanks s) where
  start s := ⟨[], .nil, rfl⟩
  skip := by
    intro whole blanks s done hblanks hinv
    obtain ⟨t, hspells, hwhole⟩ := hinv
    refine ⟨t, hspells, ?_⟩
    rw [hwhole, withoutBlanks_append, withoutBlanks_of_blank hblanks, List.nil_append]
  step := by
    intro whole typed rest done piece hinv hreads hrow
    obtain ⟨t, hspells, hwhole⟩ := hinv
    obtain ⟨front, hdone, hplace⟩ := piece.exists_front done (Node.readLine piece.inner)
    rw [hdone] at hspells
    obtain ⟨v, u, rfl, hfront, htaken⟩ := hspells.of_append
    have hnode := hreads.spells hrow htaken
    refine ⟨v ++ (u ++ withoutBlanks typed), ?_, ?_⟩
    · rw [hplace]
      exact hfront.append (.singleton hnode)
    · rw [hwhole, withoutBlanks_append]
      simp only [List.append_assoc]
  finish := by
    intro whole done hinv
    obtain ⟨t, hspells, hwhole⟩ := hinv
    have hall : withoutBlanks whole = t := hwhole.trans (List.append_nil t)
    rw [hall]
    exact hspells

/-- A line without its blanks is a spelling of the nodes that are read from it: nothing
but blanks is lost, and nothing is added, doubled or moved. -/
theorem rowSpells_readLine (s : List Char) :
    Node.RowSpells (Node.readLine s) (withoutBlanks s) :=
  keptByReading_spells.readLine s

end MathLine
