import MathLine.Proofs.StepsApart
import MathLine.Proofs.TexTokens

set_option autoImplicit false

/-!
# Nothing that is typed breaks the TeX

What a user writes ends up inside TeX, both as math and as words of explanation.  However it
is written, the TeX around it stays as the printer means it: groups and sized brackets are
closed where the printer closes them, the characters that TeX gives a meaning to are escaped,
and every control sequence is one of the printer's own.

The tokens of what is written were found in another module.  There a text of the user counts
one character at a time, as that character or its escape, so a control sequence is never
spelled by the user.  Here those tokens are shown to be `Proper`, and `sound_steps` says what
follows for the TeX of a list of steps.
-/

namespace MathLine.Tex

/-! ## Nesting -/

/-- Whether a token neither opens nor closes anything. -/
def Token.isPlain (t : Token) : Bool :=
  !List.elem t [.char '{', .char '}', .control "left".toList, .control "right".toList]

/-- Groups and sized brackets are closed, one inside the other. -/
inductive Nested : List Token → Prop where
  | nil : Nested []
  | plain {t : Token} (h : t.isPlain = true) : Nested [t]
  | append {s t : List Token} (hs : Nested s) (ht : Nested t) : Nested (s ++ t)
  | grouped {s : List Token} (hs : Nested s) : Nested (grouped s)
  | sized {s : List Token} (hs : Nested s) : Nested (sized s)

/-- Whether the tokens are plain but for groups of plain tokens, the first of which may have
been opened before them. -/
def isFlat : (inGroup : Bool) → List Token → Bool
  | inGroup, [] => !inGroup
  | inGroup, t :: ts =>
    if t = .char '{' then !inGroup && isFlat true ts
    else if t = .char '}' then inGroup && isFlat false ts
    else t.isPlain && isFlat inGroup ts

theorem nested_of_isFlat {ts : List Token} {inGroup : Bool} (h : isFlat inGroup ts = true) :
    if inGroup then ∃ inner rest, ts = inner ++ .char '}' :: rest ∧ Nested inner ∧ Nested rest
    else Nested ts := by
  fun_induction isFlat inGroup ts with
  | case1 inGroup =>
    obtain rfl : inGroup = false := by simpa using h
    exact .nil
  | case2 inGroup ts ih =>
    obtain ⟨hgroup, hts⟩ := Bool.and_eq_true_iff.1 h
    obtain rfl : inGroup = false := by simpa using hgroup
    obtain ⟨inner, rest, rfl, hinner, hrest⟩ := ih hts
    have hsplit : .char '{' :: (inner ++ .char '}' :: rest) = grouped inner ++ rest := by
      simp [grouped]
    exact hsplit ▸ hinner.grouped.append hrest
  | case3 inGroup ts _ ih =>
    obtain ⟨rfl, hts⟩ := Bool.and_eq_true_iff.1 h
    exact ⟨[], ts, rfl, .nil, ih hts⟩
  | case4 inGroup t ts _ _ ih =>
    obtain ⟨hplain, hts⟩ := Bool.and_eq_true_iff.1 h
    cases inGroup with
    | false => exact (Nested.plain hplain).append (ih hts)
    | true =>
      obtain ⟨inner, rest, rfl, hinner, hrest⟩ := ih hts
      exact ⟨t :: inner, rest, rfl, (Nested.plain hplain).append hinner, hrest⟩

/-! ## What the printer has of its own -/

/-- The control sequences in a text. -/
def controls (s : List Char) : List (List Char) :=
  (tokens s).filterMap fun
    | .control name => some name
    | .char _ => none

/-- What the printer writes of its own for operators and function names, to escape a character,
to begin a construction or a step, and between two steps. -/
def ownTexts : List (List Char) :=
  Operator.all.map (fun op => (operator op).toList) ++ functions.map (fun form => form.2.toList) ++
    special.map (escapeChar .math) ++ special.map (escapeChar .text) ++
    ["\\text".toList, "\\frac".toList, "\\sqrt".toList, gap, lineBreak]

/-- The control sequences of the printer. -/
def commands : List (List Char) := "left".toList :: "right".toList :: ownTexts.flatMap controls

/-- Whether `c` may stand in TeX without a backslash before it: it begins no control sequence
and opens or closes no group, and TeX shows it as it is. -/
def isBare (c : Char) : Bool := !List.elem c ['\\', '%', '#', '&', '$', '~']

/-- A token is the printer's own: a control sequence that it has, or a character that needs no
escape. -/
def Token.IsOwn : Token → Prop
  | .control name => name ∈ commands
  | .char c => isBare c = true

/-- Everything is closed, and every token is the printer's own. -/
structure Proper (ts : List Token) : Prop where
  nested : Nested ts
  own : ∀ t ∈ ts, t.IsOwn

theorem proper_nil : Proper [] := ⟨.nil, by simp⟩

theorem Proper.append {s t : List Token} (hs : Proper s) (ht : Proper t) : Proper (s ++ t) where
  nested := hs.nested.append ht.nested
  own := List.forall_mem_append.2 ⟨hs.own, ht.own⟩

theorem proper_char {c : Char} (hbare : isBare c = true) (hplain : (Token.char c).isPlain = true) :
    Proper [.char c] where
  nested := .plain hplain
  own := List.forall_mem_singleton.2 hbare

theorem Proper.grouped {s : List Token} (hs : Proper s) : Proper (grouped s) where
  nested := hs.nested.grouped
  own := by
    simp only [Tex.grouped, List.forall_mem_append, List.forall_mem_cons]
    exact ⟨⟨rfl, hs.own⟩, rfl, by simp⟩

theorem Proper.sized {s : List Token} (hs : Proper s) : Proper (sized s) where
  nested := hs.nested.sized
  own := by
    simp only [Tex.sized, List.forall_mem_append, List.forall_mem_cons]
    have hleft : (Token.control "left".toList).IsOwn := List.mem_cons_self
    have hright : (Token.control "right".toList).IsOwn := List.mem_cons_of_mem _ List.mem_cons_self
    exact ⟨⟨⟨hleft, rfl, by simp⟩, hs.own⟩, hright, rfl, by simp⟩

/-- What the printer writes of its own is proper. -/
theorem proper_tokens {s : List Char} (h : s ∈ ownTexts) : Proper (tokens s) := by
  have hall : ownTexts.all fun s => isFlat false (tokens s) &&
      (tokens s).all fun
        | .control _ => true
        | .char c => isBare c := by
    decide +kernel
  obtain ⟨hflat, hchars⟩ := Bool.and_eq_true_iff.1 (List.all_eq_true.1 hall s h)
  refine ⟨nested_of_isFlat hflat, ?_⟩
  intro t ht
  cases t with
  | control name =>
    have hname : name ∈ controls s := List.mem_filterMap.2 ⟨.control name, ht, rfl⟩
    exact List.mem_cons_of_mem _ (List.mem_cons_of_mem _ (List.mem_flatMap.2 ⟨s, h, hname⟩))
  | char c => exact List.all_eq_true.1 hchars _ ht

theorem proper_control {name : String} (h : name ∈ ["text", "frac", "sqrt", "quad"]) :
    Proper [.control name.toList] := by
  have hall : ["text", "frac", "sqrt", "quad"].all fun name =>
      (Token.control name.toList).isPlain && commands.contains name.toList := by
    decide +kernel
  obtain ⟨hplain, hname⟩ := Bool.and_eq_true_iff.1 (List.all_eq_true.1 hall name h)
  exact ⟨.plain hplain, List.forall_mem_singleton.2 (List.contains_iff_mem.1 hname)⟩

/-! ## What is written for nodes -/

theorem proper_char_of_not_special {c : Char} (h : c ∉ special) : Proper [.char c] := by
  simp only [special, backslashed, List.cons_append, List.nil_append, List.mem_cons,
    List.not_mem_nil, or_false, not_or] at h
  apply proper_char
  · simp [isBare, h]
  · simp [Token.isPlain, h]

theorem proper_chars {s : List Char} (h : ∀ c ∈ s, c ∉ special) : Proper (s.map .char) := by
  induction s with
  | nil => exact proper_nil
  | cons c s ih =>
    obtain ⟨hc, hs⟩ := List.forall_mem_cons.1 h
    exact (proper_char_of_not_special hc).append (ih hs)

theorem not_special {c : Char} (h : c.isAlpha = true ∨ Numeral.isStart c = true) :
    c ∉ special := by
  have hall : special.all fun c => !c.isAlpha && !Numeral.isStart c := by decide
  intro hspecial
  have hno := List.all_eq_true.1 hall c hspecial
  rcases h with h | h <;> simp [h] at hno

theorem proper_verbatim {n : Node} (h : n.HasShape) : Proper ((verbatim n).map .char) :=
  proper_chars fun _ hc => not_special (of_mem_verbatim h hc)

/-- Whatever text is escaped, what is written for it is proper. -/
theorem proper_escapeTokens (mode : Mode) (s : List Char) : Proper (escapeTokens mode s) := by
  induction s with
  | nil => exact proper_nil
  | cons c s ih =>
    refine Proper.append (s := tokens (escapeChar mode c)) ?_ ih
    by_cases hc : c ∈ special
    · apply proper_tokens
      cases mode <;> simp only [ownTexts, List.mem_append, List.mem_map]
      · exact .inl (.inl (.inr ⟨c, hc, rfl⟩))
      · exact .inl (.inr ⟨c, hc, rfl⟩)
    · rw [escapeChar_of_not_special mode hc]
      by_cases hspace : c = ' '
      · rw [hspace, tokens_space, tokens_nil]
        exact proper_nil
      · have hslash : c ≠ '\\' := by
          rintro rfl
          exact hc (by decide)
        rw [tokens_char [] hslash hspace, tokens_nil]
        exact proper_char_of_not_special hc

theorem proper_textTokens {ts : List Token} (h : Proper ts) :
    Proper (.control "text".toList :: grouped ts) :=
  (proper_control (by decide)).append h.grouped

theorem proper_nameTokens (name : String) : Proper (nameTokens name) := by
  unfold nameTokens
  split
  · next form hform =>
    apply proper_tokens
    simp only [ownTexts, List.mem_append, List.mem_map]
    exact .inl (.inl (.inl (.inr ⟨(name, form), mem_functions hform, rfl⟩)))
  · exact proper_textTokens (proper_escapeTokens .text name.toList)

theorem proper_operatorTokens (op : Operator) : Proper (tokens (operator op).toList) := by
  apply proper_tokens
  simp only [ownTexts, List.mem_append, List.mem_map]
  exact .inl (.inl (.inl (.inl ⟨op, op.mem_all, rfl⟩)))

theorem proper_rootTokens {radicand : List Token} (h : Proper radicand) :
    Proper (rootTokens radicand) :=
  (proper_control (by decide)).append h.grouped

theorem proper_callTokens (name : String) {arguments : List Token} (h : Proper arguments) :
    Proper (callTokens name arguments) := by
  unfold callTokens
  split
  · exact proper_rootTokens h
  · exact (proper_nameTokens name).append h.sized

theorem proper_scriptTokens {sign : Char} (hsign : sign ∈ ['^', '_']) {base script : List Token}
    (hbase : Proper base) (hscript : Proper script) : Proper (scriptTokens sign base script) := by
  have hchar : Proper [.char sign] := by
    obtain rfl | rfl : sign = '^' ∨ sign = '_' := by simpa using hsign
    all_goals exact proper_char rfl rfl
  exact hbase.append (hchar.append hscript.grouped)

/-- What is written for nodes and for rows of nodes that have their shape is proper. -/
theorem proper_node_and_row :
    (∀ n, (∀ m ∈ Node.inTree n, m.HasShape) → Proper (nodeTokens n)) ∧
      ∀ ns, (∀ m ∈ Node.inRow ns, m.HasShape) → Proper (rowTokens ns) := by
  refine Node.induction_of_all (fun n => Proper (nodeTokens n)) (fun ns => Proper (rowTokens ns))
    ?number ?letter ?text ?operator ?function ?fraction ?power ?root ?parens ?subscript
    ?nil ?call ?cons
  case number => exact fun digits hdigits => proper_verbatim hdigits
  case letter => exact fun c hc => proper_verbatim hc
  case text => exact fun content _ => proper_escapeTokens .math content.toList
  case operator => exact proper_operatorTokens
  case function => exact fun name _ => proper_nameTokens name
  case fraction =>
    rintro numerator denominator ⟨-, hover⟩ ⟨-, hunder⟩
    rw [nodeTokens]
    exact (proper_control (by decide)).append (hover.grouped.append hunder.grouped)
  case power =>
    rintro base exponent ⟨-, hunder⟩ ⟨-, hover⟩
    rw [nodeTokens]
    exact proper_scriptTokens (by decide) hunder hover
  case root =>
    rintro radicand ⟨-, hinner⟩
    rw [nodeTokens]
    exact proper_rootTokens hinner
  case parens =>
    rintro inner ⟨-, hinner⟩
    rw [nodeTokens]
    exact hinner.sized
  case subscript =>
    rintro base script hbase ⟨-, hinner⟩
    rw [nodeTokens]
    exact proper_scriptTokens (by decide) (proper_verbatim hbase) hinner
  case nil =>
    rw [rowTokens]
    exact proper_nil
  case call =>
    rintro name inner rest ⟨-, hinner⟩ hrest
    rw [rowTokens]
    exact (proper_callTokens name hinner).append hrest
  case cons =>
    intro n rest halone hn hrest
    rw [rowTokens.eq_3 n rest halone]
    exact hn.append hrest

/-! ## The tokens of steps -/

/-- The tokens of an explanation, as it follows the line that it explains. -/
def explanationTokens (words : String) : List Token :=
  .control "quad".toList :: .control "text".toList ::
    grouped (.char '(' :: escapeTokens .text words.toList ++ [.char ')'])

/-- The tokens of a step without its heading. -/
def stepTokens (step : Step) : List Token :=
  rowTokens step.content.parts ++
    match step.explanation with
    | some words => explanationTokens words
    | none => []

/-- The tokens of the heading of the step with the given place in its list. -/
def headingTokens (place : Nat) : List Token :=
  .control "text".toList ::
    grouped (("Step".toList ++ (Nat.toDigits 10 place ++ [':'])).map .char) ++
    [.control "quad".toList]

/-- The tokens of a list of steps. -/
def listTokens (list : List Step) : List Token :=
  [.control ['\\'], .char '\n'].intercalate
    ((list.zipIdx 1).map fun entry => headingTokens entry.2 ++ stepTokens entry.1)

theorem tokens_gap : tokens gap = [.control "quad".toList] := by decide +kernel

theorem joins_gap (s : List Char) : Joins gap s :=
  ⟨by decide, fun hends => absurd hends (by decide)⟩

theorem tokens_explained (words : String) :
    tokens (explained words) = explanationTokens words := by
  have hwords : (escape .text words.toList).getLast? ≠ some '\\' := (leads_escape .text _).2
  have hjoins : Joins (escape .text words.toList) [')'] := joins_of_stop hwords rfl
  have hinside : tokens ('(' :: escape .text words.toList ++ [')']) =
      .char '(' :: escapeTokens .text words.toList ++ [.char ')'] := by
    rw [List.cons_append, tokens_char _ (by decide) (by decide), tokens_append hjoins,
      tokens_escape, tokens_char _ (by decide) (by decide), tokens_nil]
    rfl
  have hlast : ('(' :: escape .text words.toList ++ [')']).getLast? ≠ some '\\' := by
    rw [List.getLast?_concat]
    decide
  rw [explained, tokens_append (joins_gap _), tokens_gap, tokens_textGroup hlast, hinside]
  rfl

theorem tokens_outerRow {ns : List Node} (h : ∀ m ∈ Node.inRow ns, m.HasShape) :
    tokens (outerRow ns) = rowTokens ns := by
  rw [outerRow, tokens_join .apart (whole_parts h), tokens_node_and_parts.2 ns h]

theorem hasShape_of_isRead {step : Step} (h : step.IsRead) :
    ∀ m ∈ Node.inRow step.content.parts, m.HasShape := by
  obtain ⟨s, hs⟩ := h
  rw [hs]
  exact hasShape_of_mem_readLine s.toList

theorem tokens_stepChars {step : Step} (h : step.IsRead) :
    tokens (stepChars step) = stepTokens step := by
  unfold stepChars stepTokens
  cases step.explanation with
  | none => simp only [List.append_nil, tokens_outerRow (hasShape_of_isRead h)]
  | some words =>
    have hjoins : Joins (outerRow step.content.parts) (explained words) :=
      joins_of_stop (leads_content h).2 rfl
    rw [tokens_append hjoins, tokens_outerRow (hasShape_of_isRead h), tokens_explained]

theorem getLast?_textGroup (s : List Char) : (textGroup s).getLast? = some '}' := by
  rw [textGroup, List.getLast?_append, getLast?_braced, Option.some_or]

theorem tokens_heading_append (place : Nat) (s : List Char) :
    tokens (heading place ++ s) = headingTokens place ++ tokens s := by
  have hdigits : ∀ c ∈ Nat.toDigits 10 place ++ [':'], c ≠ '\\' ∧ c ≠ ' ' := by
    intro c hc
    rcases List.mem_append.1 hc with hc | hc
    · have hdigit := Nat.isDigit_of_mem_toDigits (by decide) (by decide) hc
      constructor <;> rintro rfl <;> exact absurd hdigit (by decide)
    · rw [List.mem_singleton.1 hc]
      decide
  have hword : tokens "Step ".toList = "Step".toList.map .char := by decide +kernel
  have htitle : Joins "Step ".toList (Nat.toDigits 10 place ++ [':']) :=
    ⟨by decide, fun hends => absurd hends (by decide)⟩
  have hinside : tokens ("Step ".toList ++ Nat.toDigits 10 place ++ [':']) =
      ("Step".toList ++ (Nat.toDigits 10 place ++ [':'])).map .char := by
    rw [List.append_assoc, tokens_append htitle, tokens_of_plain hdigits]
    exact (congrArg (· ++ (Nat.toDigits 10 place ++ [':']).map .char) hword).trans
      List.map_append.symm
  have hlast : ("Step ".toList ++ Nat.toDigits 10 place ++ [':']).getLast? ≠ some '\\' := by
    rw [List.getLast?_concat]
    decide
  have hjoins : Joins (textGroup ("Step ".toList ++ Nat.toDigits 10 place ++ [':'])) (gap ++ s) :=
    joins_of_stop (by rw [getLast?_textGroup]; decide) rfl
  rw [heading, tokens_enclosed hjoins (joins_gap s), tokens_textGroup hlast, tokens_gap, hinside]
  rfl

/-- Lines that end in no backslash are read one after the other, with the break between. -/
theorem tokens_intercalate {lines : List (List Char)}
    (h : ∀ line ∈ lines, line.getLast? ≠ some '\\') :
    tokens (lineBreak.intercalate lines) =
      [.control ['\\'], .char '\n'].intercalate (lines.map tokens) := by
  have hbreak : tokens lineBreak = [.control ['\\'], .char '\n'] := by decide +kernel
  induction lines with
  | nil => exact tokens_nil
  | cons line rest ih =>
    obtain ⟨hline, hrest⟩ := List.forall_mem_cons.1 h
    cases rest with
    | nil => simp
    | cons next more =>
      have hjoins : Joins line (lineBreak ++ lineBreak.intercalate (next :: more)) :=
        joins_of_stop hline rfl
      have hafter : Joins lineBreak (lineBreak.intercalate (next :: more)) :=
        ⟨by decide, fun hends => absurd hends (by decide)⟩
      rw [List.intercalate_cons_cons, List.append_assoc, tokens_append hjoins,
        tokens_append hafter, hbreak, ih hrest, List.map_cons, List.map_cons, List.map_cons,
        List.intercalate_cons_cons, List.append_assoc]

/-- A list of steps is read as the tokens of its steps. -/
theorem tokens_steps {list : List Step} (h : ∀ step ∈ list, step.IsRead) :
    tokens (steps list).toList = listTokens list := by
  have hlines : ∀ line ∈ stepLines list, line.getLast? ≠ some '\\' := by
    intro line hline
    obtain ⟨place, step, hstep, rfl⟩ := exists_of_mem_stepLines hline
    exact ((leads_heading place).append (leads_stepChars (h step hstep))).2
  rw [steps, String.toList_ofList, tokens_intercalate hlines, listTokens, stepLines, List.map_map]
  congr 1
  apply List.map_congr_left
  intro entry hentry
  have hread := h entry.1 (List.fst_mem_of_mem_zipIdx hentry)
  rw [Function.comp_apply, tokens_heading_append, tokens_stepChars hread]

/-! ## Steps are proper -/

theorem proper_headingTokens (place : Nat) : Proper (headingTokens place) := by
  have htitle : ∀ c ∈ "Step".toList ++ (Nat.toDigits 10 place ++ [':']), c ∉ special := by
    have hword : "Step".toList.all Char.isAlpha = true := by decide
    have hcolon : ':' ∉ special := by decide
    intro c hc
    simp only [List.mem_append, List.mem_singleton] at hc
    rcases hc with hc | hc | rfl
    · exact not_special (.inl (List.all_eq_true.1 hword c hc))
    · have hdigit : c.isDigit = true := Nat.isDigit_of_mem_toDigits (by decide) (by decide) hc
      exact not_special (.inr (by rw [Numeral.isStart, hdigit, Bool.true_or]))
    · exact hcolon
  exact (proper_textTokens (proper_chars htitle)).append (proper_control (by decide))

theorem proper_explanationTokens (words : String) : Proper (explanationTokens words) := by
  have hinside : Proper (.char '(' :: escapeTokens .text words.toList ++ [.char ')']) :=
    ((proper_char rfl rfl).append (proper_escapeTokens .text words.toList)).append
      (proper_char rfl rfl)
  exact (proper_control (by decide)).append (proper_textTokens hinside)

theorem proper_stepTokens {step : Step} (h : step.IsRead) : Proper (stepTokens step) := by
  refine (proper_node_and_row.2 _ (hasShape_of_isRead h)).append ?_
  split
  · exact proper_explanationTokens _
  · exact proper_nil

theorem proper_intercalate {separator : List Token} (hsep : Proper separator)
    {lines : List (List Token)} (h : ∀ line ∈ lines, Proper line) :
    Proper (separator.intercalate lines) := by
  induction lines with
  | nil => exact proper_nil
  | cons line rest ih =>
    obtain ⟨hline, hrest⟩ := List.forall_mem_cons.1 h
    cases rest with
    | nil => simpa using hline
    | cons next more =>
      rw [List.intercalate_cons_cons]
      exact (hline.append hsep).append (ih hrest)

theorem proper_listTokens {list : List Step} (h : ∀ step ∈ list, step.IsRead) :
    Proper (listTokens list) := by
  have hbreak : Proper [.control ['\\'], .char '\n'] := by
    have htokens : tokens lineBreak = [.control ['\\'], .char '\n'] := by decide +kernel
    exact htokens ▸ proper_tokens (by simp [ownTexts])
  apply proper_intercalate hbreak
  intro line hline
  obtain ⟨entry, hentry, rfl⟩ := List.mem_map.1 hline
  exact (proper_headingTokens entry.2).append
    (proper_stepTokens (h entry.1 (List.fst_mem_of_mem_zipIdx hentry)))

/-! ## The TeX of a list of steps -/

/-- The characters of a token. -/
def Token.chars : Token → List Char
  | .control name => '\\' :: name
  | .char c => [c]

/-- Of a text nothing but spaces is left out in its tokens. -/
theorem exists_mem_tokens {s : List Char} {c : Char} (hc : c ∈ s) (hspace : c ≠ ' ') :
    ∃ t ∈ tokens s, c ∈ t.chars := by
  fun_induction tokens s with
  | case1 => exact absurd hc List.not_mem_nil
  | case2 d s hd ih =>
    have hcut : '\\' :: d :: s =
        ('\\' :: d :: s.takeWhile Char.isAlpha) ++ s.dropWhile Char.isAlpha := by simp
    rw [hcut, List.mem_append] at hc
    rcases hc with hc | hc
    · exact ⟨_, List.mem_cons_self, hc⟩
    · obtain ⟨t, ht, htc⟩ := ih hc
      exact ⟨t, List.mem_cons_of_mem _ ht, htc⟩
  | case3 d s hd ih =>
    rw [show '\\' :: d :: s = ['\\', d] ++ s from rfl, List.mem_append] at hc
    rcases hc with hc | hc
    · exact ⟨_, List.mem_cons_self, hc⟩
    · obtain ⟨t, ht, htc⟩ := ih hc
      exact ⟨t, List.mem_cons_of_mem _ ht, htc⟩
  | case4 s _ ih => exact ih ((List.mem_cons.1 hc).resolve_left hspace)
  | case5 d s _ _ ih =>
    rcases List.mem_cons.1 hc with rfl | hc
    · exact ⟨.char c, List.mem_cons_self, List.mem_singleton_self c⟩
    · obtain ⟨t, ht, htc⟩ := ih hc
      exact ⟨t, List.mem_cons_of_mem _ ht, htc⟩

/-- The TeX of a list of steps is what the printer means it to be. -/
structure Sound (list : List Step) : Prop where
  /-- groups and sized brackets are closed, one inside the other -/
  nested : Nested (tokens (steps list).toList)
  /-- these stand only where a backslash makes a control sequence of them -/
  escaped : ∀ c ∈ ['%', '#', '&', '$', '\\'], .char c ∉ tokens (steps list).toList
  no_tilde : '~' ∉ (steps list).toList
  /-- every control sequence is one that the printer has -/
  known : ∀ name, .control name ∈ tokens (steps list).toList → name ∈ commands
  /-- the tokens are those of the steps, to which a text of the user adds nothing but single
  characters and escapes of characters -/
  read : tokens (steps list).toList = listTokens list

/-- Steps whose contents were read from lines are written in sound TeX, whatever their
explanations are. -/
theorem sound_steps {list : List Step} (h : ∀ step ∈ list, step.IsRead) : Sound list := by
  have hread := tokens_steps h
  have hproper : Proper (tokens (steps list).toList) := hread ▸ proper_listTokens h
  have hbare : ∀ c, isBare c = false → .char c ∉ tokens (steps list).toList := by
    intro c hc hmem
    exact Bool.false_ne_true (hc.symm.trans (hproper.own _ hmem))
  constructor
  case nested => exact hproper.nested
  case escaped =>
    intro c hc
    apply hbare
    simp only [List.mem_cons, List.not_mem_nil, or_false] at hc
    rcases hc with rfl | rfl | rfl | rfl | rfl <;> rfl
  case no_tilde =>
    have hcommands : commands.all fun name => !name.contains '~' := by decide +kernel
    intro hmem
    obtain ⟨t, ht, htc⟩ := exists_mem_tokens hmem (by decide)
    cases t with
    | control name =>
      have hname := List.all_eq_true.1 hcommands name (hproper.own _ ht)
      rcases List.mem_cons.1 htc with htc | htc
      · exact absurd htc (by decide)
      · simp [htc] at hname
    | char c =>
      obtain rfl : '~' = c := List.mem_singleton.1 htc
      exact hbare '~' rfl ht
  case known => exact fun name hmem => hproper.own _ hmem
  case read => exact hread

/-- Steps with texts that would close groups, begin commands or comments, or go on with a
command if they were written as they are. -/
def intrudingSteps : List Step :=
  [⟨⟨1⟩, .ofString ("\\input" ++ group "x" ++ "%$ (2*a√(b)) sin x)"),
      some (String.singleton '}' ++ "\\end" ++ group "x" ++ " \\right) 100% ~ #1 & $2$^_")⟩,
   ⟨⟨2⟩, .ofString "(x ~ chi2 ^ 2)^(sqrt(y)/mean) \\left(", some "\\"⟩,
   ⟨⟨7⟩, .ofString "", none⟩]

theorem sound_intrudingSteps :
    (∀ step ∈ intrudingSteps, step.IsRead) ∧ Sound intrudingSteps :=
  have hread : ∀ step ∈ intrudingSteps, step.IsRead := by
    simp only [intrudingSteps, List.forall_mem_cons]
    exact ⟨⟨_, rfl⟩, ⟨_, rfl⟩, ⟨_, rfl⟩, by simp⟩
  ⟨hread, sound_steps hread⟩

end MathLine.Tex
