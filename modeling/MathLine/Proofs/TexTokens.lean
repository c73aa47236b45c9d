import MathLine.Proofs.Backslashes

set_option autoImplicit false

/-!
# The tokens of TeX

TeX does not see characters but tokens.  A backslash makes a control sequence of the
letters after it, all of them, or of the one character after it if that is no letter; any
other character is a token of its own.  Spaces are left out, because in a formula they do
nothing but keep tokens apart.

Two texts side by side may be read as something else than the two of them, when letters come
to stand after a control word.  `tokens_append` says that nothing else can go wrong, and
`tokens_join` that the printer prevents it: the tokens of a row are those of its parts.
`tokens_node_and_parts` draws the conclusion for all nodes.  What is written for a node has
the tokens `nodeTokens`, in which numbers, letters and texts count for their characters only.
-/

namespace MathLine.Tex

/-- What TeX reads. -/
inductive Token where
  | control (name : List Char)
  | char (c : Char)
  deriving DecidableEq, Repr

/-- The tokens that a text is read as, spaces left out. -/
def tokens : List Char → List Token
  | [] => []
  | '\\' :: c :: s =>
    if c.isAlpha then .control (c :: s.takeWhile Char.isAlpha) :: tokens (s.dropWhile Char.isAlpha)
    else .control [c] :: tokens s
  | c :: s => if c = ' ' then tokens s else .char c :: tokens s
termination_by s => s.length
decreasing_by
  · have := (List.dropWhile_suffix Char.isAlpha (l := s)).length_le
    simp only [List.length_cons]
    omega
  · simp only [List.length_cons]
    omega
  all_goals simp

/-! ## One token at a time -/

@[simp] theorem tokens_nil : tokens [] = [] := by
  rw [tokens]

@[simp] theorem tokens_space (s : List Char) : tokens (' ' :: s) = tokens s := by
  rw [tokens, if_pos rfl]
  simp

/-- A character that is no backslash and no space is a token. -/
theorem tokens_char {c : Char} (s : List Char) (hslash : c ≠ '\\') (hspace : c ≠ ' ') :
    tokens (c :: s) = .char c :: tokens s := by
  rw [tokens, if_neg hspace]
  intro d t hc
  exact absurd hc hslash

/-- A backslash escapes a character that is no letter. -/
theorem tokens_symbol {c : Char} (s : List Char) (h : c.isAlpha = false) :
    tokens ('\\' :: c :: s) = .control [c] :: tokens s := by
  rw [tokens, if_neg (by simp [h])]

theorem takeWhile_of_not_startsWithLetter {s : List Char} (h : startsWithLetter s = false) :
    s.takeWhile Char.isAlpha = [] ∧ s.dropWhile Char.isAlpha = s := by
  cases s with
  | nil => simp
  | cons c s => simp [show c.isAlpha = false from h]

/-- A backslash makes a control sequence of all letters after it. -/
theorem tokens_word_append {word : List Char} (s : List Char) (hne : word ≠ [])
    (hword : ∀ c ∈ word, c.isAlpha = true) :
    tokens ('\\' :: (word ++ s)) =
      .control (word ++ s.takeWhile Char.isAlpha) :: tokens (s.dropWhile Char.isAlpha) := by
  obtain ⟨c, more, rfl⟩ := List.exists_cons_of_ne_nil hne
  obtain ⟨hc, hmore⟩ := List.forall_mem_cons.1 hword
  rw [List.cons_append, tokens, if_pos hc, List.takeWhile_append_of_pos hmore,
    List.dropWhile_append_of_pos hmore, List.cons_append]

/-- Where no letter follows, the control sequence is the word after the backslash. -/
theorem tokens_word {word : List Char} (s : List Char) (hne : word ≠ [])
    (hword : ∀ c ∈ word, c.isAlpha = true) (hstop : startsWithLetter s = false) :
    tokens ('\\' :: (word ++ s)) = .control word :: tokens s := by
  obtain ⟨htake, hdrop⟩ := takeWhile_of_not_startsWithLetter hstop
  rw [tokens_word_append s hne hword, htake, hdrop, List.append_nil]

/-! ## Two texts side by side -/

/-- A text ends in a control word when letters stand at its end after a backslash. -/
theorem endsInControlWord_iff {s : List Char} :
    endsInControlWord s = true ↔
      ∃ before word, s = before ++ '\\' :: word ∧ word ≠ [] ∧ ∀ c ∈ word, c.isAlpha = true := by
  constructor
  · intro h
    unfold endsInControlWord at h
    split at h
    · simp at h
    · next c rest hreverse =>
      obtain ⟨hc, hhead⟩ := Bool.and_eq_true_iff.1 h
      obtain ⟨more, hmore⟩ := List.head?_eq_some_iff.1 (beq_iff_eq.1 hhead)
      have hrest : rest = rest.takeWhile Char.isAlpha ++ '\\' :: more := by
        rw [← hmore, List.takeWhile_append_dropWhile]
      refine ⟨more.reverse, (rest.takeWhile Char.isAlpha).reverse ++ [c], ?_, by simp, ?_⟩
      · rw [← List.reverse_inj, hreverse]
        simpa using hrest
      · intro d hd
        rcases List.mem_append.1 hd with hd | hd
        · exact List.all_eq_true.1 List.all_takeWhile d (List.mem_reverse.1 hd)
        · rwa [List.mem_singleton.1 hd]
  · rintro ⟨before, word, rfl, hne, hword⟩
    obtain ⟨init, c, rfl⟩ := (List.eq_nil_or_concat' word).resolve_left hne
    have hinit : ∀ d ∈ init.reverse, d.isAlpha = true := by
      intro d hd
      exact hword d (List.mem_append_left _ (List.mem_reverse.1 hd))
    have hreverse : (before ++ '\\' :: (init ++ [c])).reverse =
        c :: (init.reverse ++ '\\' :: before.reverse) := by simp
    rw [endsInControlWord, hreverse]
    simp [List.dropWhile_append_of_pos hinit, hword c (by simp)]

/-- The text `t` may stand after `s`: no token of `s` goes on in it. -/
structure Joins (s t : List Char) : Prop where
  /-- no backslash is left to make a control sequence with what follows -/
  whole : s.getLast? ≠ some '\\'
  apart : endsInControlWord s = true → startsWithLetter t = false

/-- What may stand after a text may stand after its end. -/
theorem Joins.of_append (before : List Char) {s t : List Char} (h : Joins (before ++ s) t) :
    Joins s t where
  whole := by
    intro hlast
    apply h.whole
    rw [List.getLast?_append, hlast, Option.some_or]
  apart := by
    intro hends
    obtain ⟨first, word, rfl, hword⟩ := endsInControlWord_iff.1 hends
    apply h.apart
    exact endsInControlWord_iff.2 ⟨before ++ first, word, by simp, hword⟩

/-- Texts of which the second may stand after the first are read one after the other. -/
theorem tokens_append {s t : List Char} (h : Joins s t) :
    tokens (s ++ t) = tokens s ++ tokens t := by
  fun_induction tokens s with
  | case1 => rfl
  | case2 c s hc ih =>
    have hword : ∀ d ∈ c :: s.takeWhile Char.isAlpha, d.isAlpha = true := by
      rw [List.forall_mem_cons]
      exact ⟨hc, List.all_eq_true.1 List.all_takeWhile⟩
    have hcut : '\\' :: c :: s =
        '\\' :: (c :: s.takeWhile Char.isAlpha) ++ s.dropWhile Char.isAlpha := by simp
    have hstop : startsWithLetter (s.dropWhile Char.isAlpha ++ t) = false := by
      cases hrest : s.dropWhile Char.isAlpha with
      | nil =>
        apply h.apart
        exact endsInControlWord_iff.2 ⟨[], _, by rw [hcut, hrest]; simp, by simp, hword⟩
      | cons d rest => simpa [hrest, startsWithLetter] using List.head?_dropWhile_not Char.isAlpha s
    rw [hcut] at h
    rw [hcut, List.append_assoc, List.cons_append,
      tokens_word _ (List.cons_ne_nil _ _) hword hstop, ih (.of_append _ h)]
    rfl
  | case3 c s hc ih =>
    rw [List.cons_append, List.cons_append, tokens_symbol _ (by simpa using hc),
      ih (.of_append ['\\', c] h)]
    rfl
  | case4 s _ ih => rw [List.cons_append, tokens_space, ih (.of_append [' '] h)]
  | case5 c s hpair hspace ih =>
    have hslash : c ≠ '\\' := by
      rintro rfl
      cases s with
      | nil => exact h.whole rfl
      | cons d s => exact hpair d s rfl rfl
    rw [List.cons_append, tokens_char _ hslash hspace, ih (.of_append [c] h)]
    rfl

/-! ## What the printer puts together -/

/-- The tokens `ts` as a group. -/
def grouped (ts : List Token) : List Token := .char '{' :: ts ++ [.char '}']

/-- The tokens `ts` between brackets that grow with them. -/
def sized (ts : List Token) : List Token :=
  [.control "left".toList, .char '('] ++ ts ++ [.control "right".toList, .char ')']

theorem joins_of_stop {s t : List Char} (hs : s.getLast? ≠ some '\\')
    (ht : startsWithLetter t = false) : Joins s t :=
  ⟨hs, fun _ => ht⟩

theorem tokens_braced {s : List Char} (hs : s.getLast? ≠ some '\\') :
    tokens (braced s) = grouped (tokens s) := by
  have hjoins : Joins s ['}'] := joins_of_stop hs rfl
  rw [braced, List.cons_append, tokens_char _ (by decide) (by decide), tokens_append hjoins,
    tokens_char _ (by decide) (by decide), tokens_nil]
  rfl

theorem tokens_enclosed {before s after : List Char} (hbefore : Joins before (s ++ after))
    (hs : Joins s after) :
    tokens (before ++ s ++ after) = tokens before ++ tokens s ++ tokens after := by
  rw [List.append_assoc, tokens_append hbefore, tokens_append hs, List.append_assoc]

theorem tokens_bracketed {s : List Char} (hs : s.getLast? ≠ some '\\') :
    tokens (bracketed s) = sized (tokens s) := by
  have hopen : Joins "\\left(".toList (s ++ "\\right)".toList) :=
    ⟨by decide, fun hends => absurd hends (by decide)⟩
  have hinner : Joins s "\\right)".toList := joins_of_stop hs (by decide)
  have htokens : tokens "\\left(".toList = [.control "left".toList, .char '('] := by
    decide +kernel
  have hclose : tokens "\\right)".toList = [.control "right".toList, .char ')'] := by
    decide +kernel
  exact (tokens_enclosed hopen hinner).trans (congrArg₂ (· ++ tokens s ++ ·) htokens hclose)

/-- An escape goes on in nothing. -/
theorem joins_escapeChar (mode : Mode) (c : Char) (t : List Char) :
    Joins (escapeChar mode c) t where
  whole := (leads_escapeChar mode c).2
  apart := by
    intro hends
    by_cases h : c ∈ special
    · have hall : special.all fun c => !endsInControlWord (escapeChar mode c) := by
        cases mode <;> decide
      have hno := List.all_eq_true.1 hall c h
      rw [hends] at hno
      exact absurd hno (by simp)
    · rw [escapeChar_of_not_special mode h] at hends
      simp [endsInControlWord] at hends

/-- The tokens of a text of the user: what is written for each of its characters is read on
its own. -/
def escapeTokens (mode : Mode) (s : List Char) : List Token :=
  s.flatMap fun c => tokens (escapeChar mode c)

theorem tokens_escape (mode : Mode) (s : List Char) :
    tokens (escape mode s) = escapeTokens mode s := by
  induction s with
  | nil => exact tokens_nil
  | cons c s ih =>
    rw [escape_cons, tokens_append (joins_escapeChar mode c _), ih]
    rfl

theorem tokens_textGroup {s : List Char} (hs : s.getLast? ≠ some '\\') :
    tokens (textGroup s) = .control "text".toList :: grouped (tokens s) := by
  have hword : tokens "\\text".toList = [.control "text".toList] := by decide +kernel
  have hjoins : Joins "\\text".toList (braced s) := joins_of_stop (by decide) rfl
  calc tokens (textGroup s)
      = tokens "\\text".toList ++ tokens (braced s) := tokens_append hjoins
    _ = [.control "text".toList] ++ grouped (tokens s) :=
        congrArg₂ (· ++ ·) hword (tokens_braced hs)

/-- What stands after a part in a row does not go on with it. -/
theorem joins_joinAfter (spacing : Spacing) {part : List Char} {rest : List (List Char)}
    (hpart : part ≠ [] ∧ part.getLast? ≠ some '\\') (hrest : ∀ next ∈ rest, next ≠ []) :
    Joins part (joinAfter spacing part rest) where
  whole := hpart.2
  apart := by
    intro hends
    cases rest with
    | nil => rfl
    | cons next more =>
      obtain ⟨c, s, rfl⟩ := List.exists_cons_of_ne_nil (hrest next List.mem_cons_self)
      have hpart' : part.isEmpty = false := by simpa using hpart.1
      unfold joinAfter separator
      rw [hpart', hends, Bool.true_and]
      cases spacing with
      | apart => rfl
      | together =>
        -- a letter has a space before it here, and anything else does not go on with a word
        cases hc : startsWithLetter (c :: s) with
        | true => rfl
        | false => exact hc

/-- The tokens of a row are those of its parts, one part after the other. -/
theorem tokens_joinAfter (spacing : Spacing) {parts : List (List Char)}
    (h : ∀ part ∈ parts, part ≠ [] ∧ part.getLast? ≠ some '\\') (previous : List Char) :
    tokens (joinAfter spacing previous parts) = parts.flatMap tokens := by
  induction parts generalizing previous with
  | nil => exact tokens_nil
  | cons part rest ih =>
    obtain ⟨hpart, hrest⟩ := List.forall_mem_cons.1 h
    have hjoins := joins_joinAfter spacing hpart fun next hnext => (hrest next hnext).1
    have hseparator : separator spacing previous part = [] ∨
        separator spacing previous part = [' '] := by
      unfold separator
      split
      · exact .inl rfl
      · split
        · exact .inr rfl
        · split
          · exact .inr rfl
          · exact .inl rfl
    rw [joinAfter, List.append_assoc, List.flatMap_cons, ← ih hrest part, ← tokens_append hjoins]
    rcases hseparator with hsep | hsep <;> rw [hsep]
    · rfl
    · exact tokens_space _

theorem tokens_join (spacing : Spacing) {parts : List (List Char)}
    (h : ∀ part ∈ parts, part ≠ [] ∧ part.getLast? ≠ some '\\') :
    tokens (join spacing parts) = parts.flatMap tokens :=
  tokens_joinAfter spacing h []

/-! ## Nodes -/

/-- The tokens of a function name. -/
def nameTokens (name : String) : List Token :=
  match function? name with
  | some form => tokens form.toList
  | none => .control "text".toList :: grouped (escapeTokens .text name.toList)

/-- The tokens of a root. -/
def rootTokens (radicand : List Token) : List Token := .control "sqrt".toList :: grouped radicand

/-- The tokens of a function applied to arguments. -/
def callTokens (name : String) (arguments : List Token) : List Token :=
  if name = Lexicon.squareRoot then rootTokens arguments else nameTokens name ++ sized arguments

/-- The tokens of a base with a script. -/
def scriptTokens (sign : Char) (base script : List Token) : List Token :=
  base ++ .char sign :: grouped script

mutual

/-- The tokens of a node that stands alone. -/
def nodeTokens : Node → List Token
  | .number digits => digits.toList.map .char
  | .letter c => [.char c]
  | .text content => escapeTokens .math content.toList
  | .operator op => tokens (operator op).toList
  | .function name => nameTokens name
  | .fraction numerator denominator =>
    .control "frac".toList :: (grouped (rowTokens numerator) ++ grouped (rowTokens denominator))
  | .power base exponent => scriptTokens '^' (rowTokens base) (rowTokens exponent)
  | .root radicand => rootTokens (rowTokens radicand)
  | .parens inner => sized (rowTokens inner)
  | .subscript base script => scriptTokens '_' (base.toList.map .char) (rowTokens script)

/-- The tokens of a row of nodes. -/
def rowTokens : List Node → List Token
  | [] => []
  | .function name :: .parens inner :: rest => callTokens name (rowTokens inner) ++ rowTokens rest
  | n :: rest => nodeTokens n ++ rowTokens rest

end

/-- A text without backslashes and spaces is read one character at a time. -/
theorem tokens_of_plain {s : List Char} (h : ∀ c ∈ s, c ≠ '\\' ∧ c ≠ ' ') :
    tokens s = s.map .char := by
  induction s with
  | nil => exact tokens_nil
  | cons c s ih =>
    obtain ⟨hc, hs⟩ := List.forall_mem_cons.1 h
    rw [tokens_char s hc.1 hc.2, ih hs]
    rfl

theorem tokens_verbatim {n : Node} (h : n.HasShape) :
    tokens (verbatim n) = (verbatim n).map .char := by
  apply tokens_of_plain
  intro c hc
  constructor <;> rintro rfl <;> rcases of_mem_verbatim h hc with hc | hc <;>
    exact absurd hc (by decide)

theorem tokens_functionName (name : String) : tokens (functionName name) = nameTokens name := by
  unfold functionName nameTokens
  cases function? name with
  | some form => rfl
  | none => exact (tokens_textGroup (leads_escape .text _).2).trans (by rw [tokens_escape])

theorem tokens_rooted {radicand : List Char} (h : radicand.getLast? ≠ some '\\') :
    tokens (rooted radicand) = rootTokens (tokens radicand) := by
  have hword : tokens "\\sqrt".toList = [.control "sqrt".toList] := by decide +kernel
  have hjoins : Joins "\\sqrt".toList (braced radicand) := joins_of_stop (by decide) rfl
  exact (tokens_append hjoins).trans (congrArg₂ (· ++ ·) hword (tokens_braced h))

theorem tokens_call (name : String) {arguments : List Char}
    (h : arguments.getLast? ≠ some '\\') :
    tokens (call name arguments) = callTokens name (tokens arguments) := by
  unfold call callTokens
  split
  · exact tokens_rooted h
  · have hjoins : Joins (functionName name) (bracketed arguments) :=
      joins_of_stop (stable_leads.functionName name).2 rfl
    rw [tokens_append hjoins, tokens_functionName, tokens_bracketed h]

theorem tokens_scripted {base script : List Char} (hbase : base.getLast? ≠ some '\\')
    (hscript : script.getLast? ≠ some '\\') {sign : Char} (hsign : sign ∈ ['^', '_']) :
    tokens (base ++ sign :: braced script) =
      scriptTokens sign (tokens base) (tokens script) := by
  have hclass : sign.isAlpha = false ∧ sign ≠ '\\' ∧ sign ≠ ' ' := by
    obtain rfl | rfl : sign = '^' ∨ sign = '_' := by simpa using hsign
    all_goals decide
  have hjoins : Joins base (sign :: braced script) := joins_of_stop hbase hclass.1
  rw [tokens_append hjoins, tokens_char _ hclass.2.1 hclass.2.2, tokens_braced hscript]
  rfl

theorem getLast?_braced (s : List Char) : (braced s).getLast? = some '}' :=
  List.getLast?_concat

theorem tokens_fraction {numerator denominator : List Char}
    (hnumerator : numerator.getLast? ≠ some '\\')
    (hdenominator : denominator.getLast? ≠ some '\\') :
    tokens ("\\frac".toList ++ braced numerator ++ braced denominator) =
      [.control "frac".toList] ++ grouped (tokens numerator) ++ grouped (tokens denominator) := by
  have hword : tokens "\\frac".toList = [.control "frac".toList] := by decide +kernel
  have hbefore : Joins "\\frac".toList (braced numerator ++ braced denominator) :=
    joins_of_stop (by decide) rfl
  have hgroups : Joins (braced numerator) (braced denominator) :=
    joins_of_stop (by rw [getLast?_braced]; decide) rfl
  rw [tokens_enclosed hbefore hgroups, tokens_braced hnumerator, tokens_braced hdenominator]
  exact congrArg (· ++ _ ++ _) hword

theorem braced_ne_nil (s : List Char) : braced s ≠ [] := List.cons_ne_nil _ _

theorem functionName_ne_nil (name : String) : functionName name ≠ [] := by
  have hforms : ∀ entry ∈ functions, entry.2.toList ≠ [] := by decide
  unfold functionName
  split
  · next form hform => exact hforms (name, form) (mem_functions hform)
  · exact List.append_ne_nil_of_right_ne_nil _ (braced_ne_nil _)

/-- Something is written for every node that has its shape. -/
theorem node_ne_nil {n : Node} (h : n.HasShape) : node n ≠ [] := by
  cases n with
  | number digits => exact Numeral.IsNumeral.ne_nil h
  | letter c => exact List.cons_ne_nil c []
  | text content =>
    obtain ⟨c, hcontent, -⟩ := h
    rw [node, hcontent, escape_cons]
    exact List.append_ne_nil_of_left_ne_nil (escapeChar_ne_nil .math c) _
  | operator op => cases op <;> decide
  | function name => exact functionName_ne_nil name
  | parens inner => exact List.append_ne_nil_of_right_ne_nil _ (by decide)
  | power _ _ | subscript _ _ => exact List.append_ne_nil_of_right_ne_nil _ (List.cons_ne_nil _ _)
  | fraction _ _ | root _ => exact List.append_ne_nil_of_right_ne_nil _ (braced_ne_nil _)

theorem call_ne_nil (name : String) (arguments : List Char) : call name arguments ≠ [] := by
  unfold call
  split
  · exact List.append_ne_nil_of_right_ne_nil _ (braced_ne_nil _)
  · exact List.append_ne_nil_of_left_ne_nil (functionName_ne_nil name) _

theorem part_ne_nil {ns : List Node} (h : ∀ m ∈ ns, m.HasShape) :
    ∀ part ∈ parts ns, part ≠ [] := by
  unfold parts
  split
  · simp
  · next name inner rest =>
    rw [List.forall_mem_cons]
    exact ⟨call_ne_nil name _, part_ne_nil fun m hm => h m (by simp [hm])⟩
  · next n rest _ =>
    rw [List.forall_mem_cons] at h ⊢
    exact ⟨node_ne_nil h.1, part_ne_nil h.2⟩
termination_by ns.length

/-- No part of a row of nodes that have their shape is nothing, and none ends in a backslash. -/
theorem whole_parts {ns : List Node} (h : ∀ m ∈ Node.inRow ns, m.HasShape) :
    ∀ part ∈ parts ns, part ≠ [] ∧ part.getLast? ≠ some '\\' := by
  have hleads := stable_leads.node_and_parts.2 ns fun m hm =>
    leads_of_not_mem (not_mem_verbatim (h m hm))
  intro part hpart
  exact ⟨part_ne_nil (fun m hm => h m (Node.mem_inRow_of_mem hm)) part hpart,
    (hleads part hpart).2⟩

theorem whole_join {ns : List Node} (h : ∀ m ∈ Node.inRow ns, m.HasShape) :
    (join .together (parts ns)).getLast? ≠ some '\\' := by
  refine (stable_leads.join .together (stable_leads.node_and_parts.2 ns ?_)).2
  exact fun m hm => leads_of_not_mem (not_mem_verbatim (h m hm))

/-- What is written for nodes that have their shape, and for the parts of rows of them, is
read token by token. -/
theorem tokens_node_and_parts :
    (∀ n, (∀ m ∈ Node.inTree n, m.HasShape) → tokens (node n) = nodeTokens n) ∧
      ∀ ns, (∀ m ∈ Node.inRow ns, m.HasShape) → (parts ns).flatMap tokens = rowTokens ns := by
  have hrow : ∀ {ns : List Node},
      (∀ m ∈ Node.inRow ns, m.HasShape) ∧ (parts ns).flatMap tokens = rowTokens ns →
        tokens (join .together (parts ns)) = rowTokens ns := by
    rintro ns ⟨hshape, ih⟩
    rw [tokens_join .together (whole_parts hshape), ih]
  refine Node.induction_of_all (fun n => tokens (node n) = nodeTokens n)
    (fun ns => (parts ns).flatMap tokens = rowTokens ns)
    ?number ?letter ?text ?operator ?function ?fraction ?power ?root ?parens ?subscript
    ?nil ?call ?cons
  case number => exact fun digits hdigits => tokens_verbatim hdigits
  case letter => exact fun c hc => tokens_verbatim hc
  case text => exact fun content _ => tokens_escape .math content.toList
  case operator => exact fun op => rfl
  case function => exact fun name _ => tokens_functionName name
  case fraction =>
    intro numerator denominator hover hunder
    rw [node, tokens_fraction (whole_join hover.1) (whole_join hunder.1), hrow hover, hrow hunder,
      nodeTokens]
    rfl
  case power =>
    intro base exponent hunder hover
    rw [node, tokens_scripted (whole_join hunder.1) (whole_join hover.1) (by decide), hrow hunder,
      hrow hover, nodeTokens]
  case root =>
    intro radicand hinner
    rw [node, tokens_rooted (whole_join hinner.1), hrow hinner, nodeTokens]
  case parens =>
    intro inner hinner
    rw [node, tokens_bracketed (whole_join hinner.1), hrow hinner, nodeTokens]
  case subscript =>
    intro base script hbase hinner
    have hwhole : base.toList.getLast? ≠ some '\\' := by
      intro hlast
      exact not_mem_verbatim hbase (List.mem_of_getLast? hlast)
    rw [node, tokens_scripted hwhole (whole_join hinner.1) (by decide), hrow hinner, nodeTokens]
    exact congrArg (scriptTokens '_' · _) (tokens_verbatim hbase)
  case nil => rw [parts, rowTokens, List.flatMap_nil]
  case call =>
    -- a function name and the group that it is called on are one part
    intro name inner rest hinner hrest
    rw [parts, List.flatMap_cons, tokens_call name (whole_join hinner.1), hrow hinner, hrest,
      rowTokens]
  case cons =>
    intro n rest halone hn hrest
    rw [parts.eq_3 n rest halone, List.flatMap_cons, hn, hrest, rowTokens.eq_3 n rest halone]

end MathLine.Tex
