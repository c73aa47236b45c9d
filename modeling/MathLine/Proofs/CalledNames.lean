import Mathlib.Data.List.Infix
import MathLine.Proofs.Lookahead
import MathLine.Proofs.Shape
import MathLine.Proofs.Stretches

set_option autoImplicit false

/-!
# Which names a line calls

Reading looks for a function name at every letter, and cuts a line into numbers, arguments,
denominators and groups on the way.  None of this changes which names are found: they can
be told from the words of the line alone.  A word calls the longest function name that it
ends with, if there is one, and its other letters stand for themselves (`wordSymbols`).

`symbols_readLine` says that these names and letters, word after word, are those of the
nodes that are read, wherever they stand in the tree.  A step may take a part of a word, but
then it takes the symbols of that part with it (`Piece.Reads.textSymbols_append`).
-/

namespace MathLine

open MathLine.Text

/-! ## Words -/

/-- The words of a text: its longest runs of letters and digits. -/
def Text.words (s : List Char) : List (List Char) := stretches (fun c => !isWordChar c) s

/-- The longest function name that a word ends with.  It starts with a letter, as all names
do. -/
def endingName? (w : List Char) : Option String :=
  (w.tails.find? fun ending => Lexicon.contains (String.ofList ending)).map String.ofList

/-- What letters stand for: together for a function, or one of them for itself. -/
inductive Symbol where
  | name (called : String)
  | letter (c : Char)
  deriving DecidableEq, Repr, Inhabited

/-- The function that a symbol calls. -/
def Symbol.name? : Symbol → Option String
  | name called => some called
  | letter _ => none

/-- The letters of a text, each on its own. -/
def letterSymbols (s : List Char) : List Symbol := (s.filter Char.isAlpha).map .letter

/-- The symbols of a word: the letters in front of the name that it ends with, and the
name. -/
def wordSymbols (w : List Char) : List Symbol :=
  match endingName? w with
  | none => letterSymbols w
  | some name => letterSymbols (w.take (w.length - name.length)) ++ [.name name]

/-- The symbols of a text, word after word. -/
def textSymbols (s : List Char) : List Symbol := (words s).flatMap wordSymbols

namespace Node

/-- The function that a node calls. -/
def called? : Node → Option String
  | function name => some name
  | _ => none

/-- The symbols of a node itself, what is inside it apart: a name, a letter, or the letter on
which a subscript hangs. -/
def symbols : Node → List Symbol
  | function name => [.name name]
  | letter c => [.letter c]
  | subscript base _ => letterSymbols base.toList
  | _ => []

/-- The symbols of a row, at any depth, in the order in which they are typed. -/
def rowSymbols (ns : List Node) : List Symbol := (inRow ns).flatMap symbols

end Node

/-! ## Words with and without a name -/

theorem letterSymbols_cons (c : Char) (s : List Char) :
    letterSymbols (c :: s) = letterSymbols [c] ++ letterSymbols s := by
  cases hc : c.isAlpha <;> simp [letterSymbols, hc]

theorem letterSymbols_of_isAlpha {c : Char} (h : c.isAlpha = true) :
    letterSymbols [c] = [.letter c] := by
  simp [letterSymbols, h]

theorem letterSymbols_of_none {s : List Char} (h : ∀ c ∈ s, c.isAlpha = false) :
    letterSymbols s = [] := by
  rw [letterSymbols, List.filter_eq_nil_iff.2 fun c hc => by simp [h c hc], List.map_nil]

theorem endingName?_nil : endingName? [] = none := by
  decide +kernel

theorem endingName?_cons (c : Char) (w : List Char) :
    endingName? (c :: w) =
      if Lexicon.contains (String.ofList (c :: w)) then some (String.ofList (c :: w))
      else endingName? w := by
  rw [endingName?, List.tails_cons, List.find?_cons]
  cases Lexicon.contains (String.ofList (c :: w)) <;> rfl

/-- The name that a word ends with is the longest ending of the word that is one. -/
theorem endingName?_eq_some_iff {w : List Char} {name : String} :
    endingName? w = some name ↔
      Lexicon.contains name = true ∧ name.toList <:+ w ∧
        ∀ other, Lexicon.contains other = true → other.toList <:+ w →
          other.length ≤ name.length := by
  induction w with
  | nil =>
    rw [endingName?_nil]
    refine ⟨nofun, ?_⟩
    rintro ⟨hname, hsuffix, -⟩
    exact absurd (List.suffix_nil.1 hsuffix) (Lexicon.ne_nil_of_contains hname)
  | cons c w ih =>
    rw [endingName?_cons]
    split
    · next hwhole =>
      rw [Option.some.injEq]
      constructor
      · rintro rfl
        refine ⟨hwhole, by rw [String.toList_ofList], ?_⟩
        intro other _ hsuffix
        rw [← String.length_toList, ← String.length_toList, String.toList_ofList]
        exact hsuffix.length_le
      · rintro ⟨-, hsuffix, hlongest⟩
        have hle := hlongest _ hwhole (by rw [String.toList_ofList])
        rw [← String.length_toList, ← String.length_toList, String.toList_ofList] at hle
        rw [← hsuffix.eq_of_length_le hle, String.ofList_toList]
    · next hwhole =>
      -- The word is no name, so a name at its end is one at the end of what follows.
      have hshorter {other : String} (hother : Lexicon.contains other = true)
          (hsuffix : other.toList <:+ c :: w) : other.toList <:+ w := by
        rcases List.suffix_cons_iff.1 hsuffix with heq | hsuffix
        · rw [← heq, String.ofList_toList] at hwhole
          exact absurd hother hwhole
        · exact hsuffix
      rw [ih]
      constructor
      · rintro ⟨hname, hsuffix, hlongest⟩
        exact ⟨hname, hsuffix.trans (List.suffix_cons c w), fun other hother hend =>
          hlongest other hother (hshorter hother hend)⟩
      · rintro ⟨hname, hsuffix, hlongest⟩
        exact ⟨hname, hshorter hname hsuffix, fun other hother hend =>
          hlongest other hother (hend.trans (List.suffix_cons c w))⟩

theorem length_le_of_endingName? {w : List Char} {name : String}
    (h : endingName? w = some name) : name.length ≤ w.length := by
  have hlength := (endingName?_eq_some_iff.1 h).2.1.length_le
  rwa [String.length_toList] at hlength

/-- A word that is a name has this symbol alone. -/
theorem wordSymbols_of_contains {name : String} (h : Lexicon.contains name = true) :
    wordSymbols name.toList = [.name name] := by
  cases hlist : name.toList with
  | nil => exact absurd hlist (Lexicon.ne_nil_of_contains h)
  | cons c w =>
    have hname : String.ofList (c :: w) = name := by rw [← hlist, String.ofList_toList]
    have hending : endingName? (c :: w) = some name := by
      rw [endingName?_cons, hname, if_pos h]
    have hlength : (c :: w).length = name.length := by rw [← hlist, String.length_toList]
    rw [wordSymbols, hending]
    simp only [hlength, Nat.sub_self, List.take_zero]
    rfl

/-- A word that is no name has the symbol of its first letter, and those of what follows. -/
theorem wordSymbols_cons {c : Char} {w : List Char}
    (h : Lexicon.contains (String.ofList (c :: w)) = false) :
    wordSymbols (c :: w) = letterSymbols [c] ++ wordSymbols w := by
  have hending : endingName? (c :: w) = endingName? w := by
    rw [endingName?_cons, h, if_neg Bool.false_ne_true]
  rw [wordSymbols, hending, wordSymbols]
  cases hname : endingName? w with
  | none => exact letterSymbols_cons c w
  | some name =>
    have hle := length_le_of_endingName? hname
    have htake : (c :: w).length - name.length = (w.length - name.length) + 1 := by
      rw [List.length_cons]
      omega
    simp only [htake, List.take_succ_cons]
    rw [letterSymbols_cons, List.append_assoc]

/-- The symbols of a word call the function that it ends with, and no other. -/
theorem filterMap_wordSymbols (w : List Char) :
    (wordSymbols w).filterMap Symbol.name? = (endingName? w).toList := by
  have hletters (s : List Char) : (letterSymbols s).filterMap Symbol.name? = [] := by
    rw [letterSymbols, List.filterMap_map]
    exact List.filterMap_eq_nil_iff.2 fun c _ => rfl
  rw [wordSymbols]
  cases endingName? w with
  | none => exact hletters w
  | some name =>
    rw [List.filterMap_append, hletters]
    rfl

/-! ## Texts -/

theorem separates_of_stop {s : List Char} (h : startsInWord s = false) :
    ∀ c ∈ s.head?, (!isWordChar c) = true := by
  intro c hc
  cases s with
  | nil => simp at hc
  | cons d s =>
    obtain rfl := Option.some.inj hc
    simpa [startsInWord] using h

/-- The symbols of a text end where no word goes on. -/
theorem textSymbols_append {s t : List Char} (h : startsInWord t = false) :
    textSymbols (s ++ t) = textSymbols s ++ textSymbols t := by
  rw [textSymbols, words, stretches_append (separates_of_stop h), List.flatMap_append]
  rfl

/-- What can not stand in a word has no symbol. -/
theorem textSymbols_append_of_no_word {gap : List Char} (t : List Char)
    (h : ∀ c ∈ gap, isWordChar c = false) : textSymbols (gap ++ t) = textSymbols t := by
  rw [textSymbols, words, stretches_separators_append t fun c hc => by simp [h c hc]]
  rfl

/-- A character that can not stand in a word has no symbol. -/
theorem textSymbols_cons_of_no_word {c : Char} (t : List Char) (h : isWordChar c = false) :
    textSymbols (c :: t) = textSymbols t := by
  rw [textSymbols, words, stretches_separator_cons t (by rw [h]; rfl)]
  rfl

theorem textSymbols_nil : textSymbols [] = [] := rfl

theorem textSymbols_of_word {w : List Char} (h : ∀ c ∈ w, isWordChar c = true) :
    textSymbols w = wordSymbols w := by
  cases w with
  | nil =>
    rw [textSymbols_nil, wordSymbols, endingName?_nil]
    rfl
  | cons c w =>
    rw [textSymbols, words, stretches_of_whole (List.cons_ne_nil c w)
      (fun d hd => by simp [h d hd]), List.flatMap_singleton]

/-- A text has the symbols of the word that it starts with, and of what follows. -/
theorem textSymbols_eq (s : List Char) :
    textSymbols s = wordSymbols (leadingWord s) ++ textSymbols (afterWord s) := by
  conv => lhs; rw [← leadingWord_append_afterWord s]
  rw [textSymbols_append (startsInWord_afterWord s),
    textSymbols_of_word fun _ => isWordChar_of_mem_leadingWord]

/-- In front of a word a letter or digit stands for itself, unless it makes a name of the
word. -/
theorem textSymbols_cons {c : Char} {s : List Char} (hc : isWordChar c = true)
    (h : Lexicon.contains (String.ofList (c :: leadingWord s)) = false) :
    textSymbols (c :: s) = letterSymbols [c] ++ textSymbols s := by
  have hleading : leadingWord (c :: s) = c :: leadingWord s := List.takeWhile_cons_of_pos hc
  have hafter : afterWord (c :: s) = afterWord s := List.dropWhile_cons_of_pos hc
  rw [textSymbols_eq (c :: s), hleading, hafter, wordSymbols_cons h, List.append_assoc,
    ← textSymbols_eq s]

theorem Numeral.isAlpha_of_isStart {c : Char} (h : isStart c = true) : c.isAlpha = false := by
  rw [Bool.eq_false_iff]
  intro halpha
  rw [isStart, isDigit_of_isAlpha halpha, Bool.false_or, beq_iff_eq] at h
  subst h
  exact absurd halpha (by decide)

/-- No name starts with a digit. -/
theorem textSymbols_digit_cons {c : Char} (s : List Char) (hc : c.isDigit = true) :
    textSymbols (c :: s) = textSymbols s := by
  have halpha : c.isAlpha = false := Numeral.isAlpha_of_isStart (by simp [Numeral.isStart, hc])
  have hname : Lexicon.contains (String.ofList (c :: leadingWord s)) = false := by
    rw [Bool.eq_false_iff]
    intro hname
    have := Lexicon.isName_of_contains hname
    rw [String.toList_ofList, isName, halpha] at this
    exact Bool.false_ne_true this
  rw [textSymbols_cons (isWordChar_of_isDigit hc) hname,
    letterSymbols_of_none (List.forall_mem_singleton.2 halpha), List.nil_append]

/-- A number has no symbols, also where a word goes on after it. -/
theorem textSymbols_number_append {t : List Char} (s : List Char)
    (h : ∀ c ∈ t, Numeral.isStart c = true) : textSymbols (t ++ s) = textSymbols s := by
  induction t with
  | nil => rfl
  | cons c t ih =>
    have htail := ih fun d hd => h d (List.mem_cons_of_mem c hd)
    rw [List.cons_append, ← htail]
    have hstart := h c List.mem_cons_self
    rw [Numeral.isStart, Bool.or_eq_true, beq_iff_eq] at hstart
    rcases hstart with hdigit | rfl
    · exact textSymbols_digit_cons _ hdigit
    · exact textSymbols_cons_of_no_word _ (by decide)

/-- A group has the symbols of what is in it. -/
theorem textSymbols_group_append (inner rest : List Char) :
    textSymbols ('(' :: inner ++ [')'] ++ rest) = textSymbols inner ++ textSymbols rest := by
  rw [List.append_assoc, List.cons_append, List.singleton_append,
    textSymbols_cons_of_no_word _ (by decide), textSymbols_append rfl,
    textSymbols_cons_of_no_word rest (by decide)]

/-! ## One step -/

/-- The symbols of an argument are those of what it was written for. -/
theorem Argument.symbols {arg written rest : List Char} (h : Argument arg written rest) :
    textSymbols (written ++ rest) = textSymbols arg ++ textSymbols rest := by
  cases h with
  | word _ hstop => exact textSymbols_append hstop
  | group _ _ => exact textSymbols_group_append arg rest

namespace Node

theorem rowSymbols_append (ms ns : List Node) :
    rowSymbols (ms ++ ns) = rowSymbols ms ++ rowSymbols ns := by
  rw [rowSymbols, inRow_append, List.flatMap_append]
  rfl

theorem rowSymbols_singleton (n : Node) :
    rowSymbols [n] = n.symbols ++ n.childRows.flatMap rowSymbols := by
  rw [rowSymbols, inRow_cons, inRow_nil, List.append_nil, inTree_eq, List.flatMap_cons,
    List.flatMap_assoc]
  rfl

/-- The symbols of a number or letter are the letters of its text. -/
theorem rowSymbols_literal {n : Node} {base : String} (hshape : n.HasShape)
    (hbase : n.literal? = some base) : rowSymbols [n] = letterSymbols base.toList := by
  rw [rowSymbols_singleton]
  cases n <;> simp only [literal?, Option.some.injEq, reduceCtorEq] at hbase
  · subst hbase
    have hnumeral : Numeral.IsNumeral _ := hshape
    exact (letterSymbols_of_none fun c hc =>
      Numeral.isAlpha_of_isStart (hnumeral.isStart_of_mem c hc)).symm
  · subst hbase
    rw [String.toList_ofList, letterSymbols_of_isAlpha hshape]
    rfl

end Node

namespace Piece

/-- The symbols that a piece adds to a line: those of a leaf, or of its inside. -/
def symbols (inside : List Symbol) : Piece → List Symbol
  | leaf n => n.symbols
  | _ => inside

/-- A step takes the symbols of its piece from a text. -/
theorem Reads.textSymbols_append {last : Option Node} {piece : Piece} {typed rest : List Char}
    (h : piece.Reads last typed rest) :
    textSymbols (typed ++ rest) =
      piece.symbols (textSymbols piece.inner) ++ textSymbols rest := by
  cases h with
  | number hne hlead =>
    have hnumeral := Numeral.isNumeral_of_leading_append hne hlead
    exact textSymbols_number_append rest hnumeral.isStart_of_mem
  | @function name _ hname hstop =>
    rw [MathLine.textSymbols_append hstop,
      textSymbols_of_word (Lexicon.isWord_of_contains hname).2, wordSymbols_of_contains hname]
    rfl
  | @letter c _ hc hname =>
    have hword := isWordChar_of_isAlpha hc
    have hleading : leadingWord (c :: rest) = c :: leadingWord rest :=
      List.takeWhile_cons_of_pos hword
    rw [Lexicon.leading?_eq, hleading] at hname
    have hcons := textSymbols_cons (s := rest) hword (by simpa using hname)
    rwa [letterSymbols_of_isAlpha hc] at hcons
  | @operator op _ _ =>
    have hsign : op.typed.toList.any isWordChar = false := by
      cases op <;> decide
    refine textSymbols_append_of_no_word rest ?_
    intro c hc
    exact Bool.eq_false_iff.2 (List.any_eq_false.1 hsign c hc)
  | divide _ | caret _ | underscore _ | radical _ | openBracket _ | closeBracket =>
    exact textSymbols_cons_of_no_word rest rfl
  | other hc _ => exact textSymbols_cons_of_no_word rest (isOther_iff.1 hc).2.1
  | fraction _ _ hword hstop =>
    exact (textSymbols_cons_of_no_word _ rfl).trans (MathLine.textSymbols_append hstop)
  | power _ harg | subscript _ harg | root harg =>
    exact (textSymbols_cons_of_no_word _ rfl).trans harg.symbols
  | @group inner _ _ => exact textSymbols_group_append inner rest

/-- The node of a piece has the symbols of the nodes that are taken back, and those that the
piece adds. -/
theorem Reads.rowSymbols_node {last : Option Node} {piece : Piece} {typed rest : List Char}
    (h : piece.Reads last typed rest) (hshape : ∀ n ∈ piece.retracted last, n.HasShape)
    (inside : List Node) :
    Node.rowSymbols [piece.node inside] =
      Node.rowSymbols (piece.retracted last) ++ piece.symbols (Node.rowSymbols inside) := by
  rw [Node.rowSymbols_singleton]
  cases h with
  | fraction hlast _ _ _ | power hlast _ =>
    subst hlast
    simp [Node.childRows, Node.symbols, symbols, node, retracted, retracts]
  | @subscript base arg written _ hlast harg =>
    obtain ⟨n, rfl, hbase⟩ := Option.bind_eq_some_iff.1 hlast
    have hn : n.HasShape := hshape n (List.mem_singleton.2 rfl)
    have htaken : Node.rowSymbols (retracted (some n) (Piece.subscript base arg)) =
        letterSymbols base.toList := Node.rowSymbols_literal hn hbase
    rw [htaken]
    simp [Node.childRows, Node.symbols, symbols, node]
  | root _ | group _ =>
    simp [Node.childRows, Node.symbols, Node.rowSymbols, symbols, node, retracted, retracts]
  | _ => exact List.append_nil _

end Piece

/-! ## A whole line -/

/-- While a line is read, the symbols of the nodes so far and of what is left are those of the
line. -/
theorem keptByReading_symbols :
    KeptByReading (fun s nodes => Node.rowSymbols nodes = textSymbols s)
      (fun whole done s => (∀ n ∈ done.reverse, n.HasShape) ∧
        textSymbols whole = Node.rowSymbols done.reverse ++ textSymbols s) where
  start s := ⟨nofun, rfl⟩
  skip := by
    intro whole blanks s done hblanks hinv
    obtain ⟨hshape, hwhole⟩ := hinv
    have hno : ∀ c ∈ blanks, isWordChar c = false := by
      intro c hc
      rw [Bool.eq_false_iff]
      intro hword
      have hblank := List.all_eq_true.1 hblanks c hc
      rw [isBlank_of_isWordChar hword] at hblank
      exact Bool.false_ne_true hblank
    exact ⟨hshape, by rw [hwhole, textSymbols_append_of_no_word s hno]⟩
  step := by
    intro whole typed rest done piece hinv hreads hrow
    obtain ⟨hshape, hwhole⟩ := hinv
    obtain ⟨front, hdone, hplace⟩ := piece.exists_front done (Node.readLine piece.inner)
    rw [hdone] at hshape hwhole
    obtain ⟨hfront, htaken⟩ := List.forall_mem_append.1 hshape
    have hnode := hreads.rowSymbols_node htaken (Node.readLine piece.inner)
    refine ⟨?_, ?_⟩
    · rw [hplace]
      exact List.forall_mem_append.2
        ⟨hfront, List.forall_mem_singleton.2 (hreads.hasShape htaken)⟩
    · rw [hwhole, hreads.textSymbols_append, hplace, Node.rowSymbols_append,
        Node.rowSymbols_append, hnode, hrow]
      simp only [List.append_assoc]
  finish := by
    intro whole done hinv
    rw [hinv.2, textSymbols_nil, List.append_nil]

namespace Node

theorem filterMap_symbols (n : Node) : n.symbols.filterMap Symbol.name? = n.called?.toList := by
  cases n with
  | subscript base script =>
    rw [symbols, letterSymbols, List.filterMap_map]
    exact List.filterMap_eq_nil_iff.2 fun c _ => rfl
  | _ => rfl

/-- The functions that a line calls, at any depth, are the longest ones that its words end
with.  All other letters of its words stand for themselves, in the same order. -/
theorem symbols_readLine (s : List Char) :
    (inRow (readLine s)).filterMap called? = (words s).filterMap endingName? ∧
      (inRow (readLine s)).flatMap symbols = (words s).flatMap wordSymbols := by
  have hsymbols : rowSymbols (readLine s) = textSymbols s := keptByReading_symbols.readLine s
  refine ⟨?_, hsymbols⟩
  have hnames := congrArg (List.filterMap Symbol.name?) hsymbols
  simp only [rowSymbols, textSymbols, List.filterMap_flatMap, filterMap_symbols,
    filterMap_wordSymbols] at hnames
  rw [List.filterMap_eq_flatMap_toList, List.filterMap_eq_flatMap_toList]
  exact hnames

/-- The word `xchi2` goes on after a point that belongs to a number, and ends at one. -/
example : (words "1.5xchi2.sinx/lim_sup".toList).flatMap wordSymbols =
    [.letter 'x', .name "chi2", .letter 's', .letter 'i', .letter 'n', .letter 'x',
      .name "lim", .letter 's', .letter 'u', .letter 'p'] := by
  decide +kernel

end Node

end MathLine
