import MathLine.Proofs.Offsets
import MathLine.Proofs.Steps

set_option autoImplicit false

/-!
# Reading by byte offsets

A reader that holds its line in UTF-8 does not take the line apart.  It keeps the byte
offset it has come to, slices the line there whenever it looks ahead, and counts the
bytes of what it takes.  Each of these counts may be wrong: they come from searches in
slices that start elsewhere, and are added to offsets of the line itself.

`readFrom` is this reader.  A slice that is not between two places of the text is a
fault, and so is a move to where there is no place, a step that does not move on, and a
text inside a piece that is no shorter than the whole.  `readFrom_eq_ok_readLine` says
that no line leads to a fault, and that the nodes are those of the line.

`Reaches` is what is shown of one step: what it makes of the line and the offset at
which it ends are those of the step that takes the line apart.
-/

namespace MathLine

open MathLine.Text

namespace Lexeme

/-- The next lexeme of `line` from the byte offset `offset` on, with the place where it
starts. -/
def fromOffset? (line : List Char) (offset : Nat) : Except Fault (Option PlacedLexeme) := do
  let rest ← sliceFrom offset line
  return (PlacedLexeme.scanFrom offset rest).head?

end Lexeme

namespace Piece

/-! ## Looking ahead -/

/-- The word that `s` starts with, up to the byte offset at which no word goes on. -/
def wordAt (s : List Char) : Except Fault (List Char) :=
  slice 0 ((offsetWhere? (fun c => !isWordChar c) s).getD (byteLength s)) s

/-- Whether `s` starts with `name` and its word ends there.  Only a text that starts
with the name is sliced after it. -/
def endsAfter (name : String) (s : List Char) : Except Fault Bool :=
  if name.toList.isPrefixOf s then do
    let rest ← sliceFrom (byteLength name.toList) s
    return !startsInWord rest
  else return false

/-- The first name of the entries that `s` starts with as a word. -/
def nameAmong : (entries : List (Category × String)) → (s : List Char) →
    Except Fault (Option String)
  | [], _ => return none
  | entry :: entries, s => do
    if ← endsAfter entry.2 s then return some entry.2
    else nameAmong entries s

/-- The function name that `s` starts with. -/
def nameAt (s : List Char) : Except Fault (Option String) := nameAmong Lexicon.entries s

/-- The argument that a script or root sign finds in the text `s` after it, and how many
bytes of `s` it is written with. -/
def argumentAt (s : List Char) : Except Fault (Option (List Char × Nat)) :=
  if ['('].isPrefixOf s then
    match closingFrom? 0 0 s with
    | none => return none
    | some closing => do
      let inner ← slice 1 closing s
      return if isBlankText inner then none else some (inner, closing + 1)
  else do
    let word ← wordAt s
    return if word.isEmpty then none else some (word, byteLength word)

/-! ## The signs -/

/-- The letter `c` from `start` to `stop` starts a function name or stands for a
variable. -/
def letterAt (line : List Char) (c : Char) (start stop : Nat) : Except Fault (Piece × Nat) := do
  let s ← sliceFrom start line
  match ← nameAt s with
  | some name =>
    let others ← lessen (byteLength name.toList) 1
    return (leaf (.function name), ← advance line stop others)
  | none => return (leaf (.letter c), stop)

/-- The slash that ends at `stop`. -/
def slashAt (line : List Char) (last : Option Node) (stop : Nat) :
    Except Fault (Piece × Nat) := do
  let rest ← sliceFrom stop line
  let word ← wordAt rest
  match last.filter fun node => node.literal?.isSome && !word.isEmpty with
  | some numerator =>
    return (fraction numerator word, ← advance line stop (byteLength word))
  | none => return (leaf (.operator .divide), stop)

/-- The caret that ends at `stop`. -/
def caretAt (line : List Char) (last : Option Node) (stop : Nat) :
    Except Fault (Piece × Nat) := do
  let rest ← sliceFrom stop line
  match ← argumentAt rest, last with
  | some (exponent, count), some base =>
    return (power base exponent, ← advance line stop count)
  | _, _ => return (leaf (.text "^"), stop)

/-- The underscore that ends at `stop`. -/
def underscoreAt (line : List Char) (last : Option Node) (stop : Nat) :
    Except Fault (Piece × Nat) := do
  let rest ← sliceFrom stop line
  match last.bind Node.literal?, ← argumentAt rest with
  | some base, some (script, count) =>
    return (subscript base script, ← advance line stop count)
  | _, _ => return (leaf (.text "_"), stop)

/-- The root sign that ends at `stop`. -/
def radicalAt (line : List Char) (stop : Nat) : Except Fault (Piece × Nat) := do
  let rest ← sliceFrom stop line
  match ← argumentAt rest with
  | some (radicand, count) => return (root radicand, ← advance line stop count)
  | none => return (leaf (.text "√"), stop)

/-- The opening bracket from `start` to `stop`. -/
def bracketAt (line : List Char) (start stop : Nat) : Except Fault (Piece × Nat) := do
  let s ← sliceFrom start line
  match closingFrom? 0 0 s with
  | some closing =>
    let after ← advance line stop closing
    let inner ← slice (start + 1) (start + closing) line
    return (group inner, after)
  | none => return (leaf (.text "("), stop)

/-- The piece that the lexeme `p` of `line` makes, and the byte offset at which the piece
ends. -/
def ofPlaced (line : List Char) (last : Option Node) (p : PlacedLexeme) :
    Except Fault (Piece × Nat) :=
  match p.lexeme.token with
  | .number => return (leaf (.number (String.ofList p.lexeme.text)), p.stop)
  | .letter c => letterAt line c p.start p.stop
  | .operator op => return (leaf (.operator op), p.stop)
  | .slash => slashAt line last p.stop
  | .caret => caretAt line last p.stop
  | .underscore => underscoreAt line last p.stop
  | .radical => radicalAt line p.stop
  | .openBracket => bracketAt line p.start p.stop
  | .closeBracket | .other => return (leaf (.text (String.ofList p.lexeme.text)), p.stop)

end Piece

namespace Node

/-- Reads the text `line` from the byte offset `offset` on after the nodes `done`, which
are listed from the last to the first. -/
def readFrom (line : List Char) (done : List Node) (offset : Nat) :
    Except Fault (List Node) := do
  match ← Lexeme.fromOffset? line offset with
  | none => return done.reverse
  | some p =>
    let (piece, stop) ← Piece.ofPlaced line done.head? p
    if _hstop : offset < stop ∧ stop ≤ byteLength line then
      if _hinner : byteLength piece.inner < byteLength line then
        let inside ← readFrom piece.inner [] 0
        readFrom line (piece.place done inside) stop
      else throw (.nested piece.inner)
    else throw (.stalled offset)
termination_by (byteLength line, byteLength line - offset)
decreasing_by
  · exact Prod.Lex.left _ _ ‹_›
  · exact Prod.Lex.right _ (by omega)

end Node

/-! ## Looking ahead finds what stands there -/

theorem ok_bind {α β : Type} (a : α) (f : α → Except Fault β) : (Except.ok a >>= f) = f a := rfl

namespace Token

/-- The character that a token is always read from, if there is one. -/
def char? : Token → Option Char
  | letter c => some c
  | slash => some '/'
  | caret => some '^'
  | underscore => some '_'
  | radical => some '√'
  | openBracket => some '('
  | closeBracket => some ')'
  | number | operator _ | other => none

end Token

namespace Lexeme

theorem eq_of_char?_ofChar {c d : Char} (h : (ofChar c).char? = some d) : c = d := by
  unfold ofChar at h
  split at h
  · exact Option.some.inj h
  · split at h <;> first | exact Option.some.inj h | cases h

/-- A lexeme with a character of its own is that character. -/
theorem text_of_char? {s rest : List Char} {lexeme : Lexeme} {c : Char}
    (hnext : next? s = some (lexeme, rest)) (hchar : lexeme.token.char? = some c) :
    lexeme.text = [c] := by
  unfold next? at hnext
  split at hnext
  · cases hnext
  · next d tail _ =>
    have hfirst := Option.some.inj hnext
    unfold first at hfirst
    split at hfirst
    · obtain ⟨rfl, -⟩ := Prod.mk.inj hfirst
      cases hchar
    · split at hfirst
      · obtain ⟨rfl, -⟩ := Prod.mk.inj hfirst
        cases hchar
      · obtain ⟨rfl, -⟩ := Prod.mk.inj hfirst
        rw [eq_of_char?_ofChar hchar]

/-- The next lexeme is the one that the text from the offset on starts with. -/
theorem fromOffset?_append (taken s : List Char) :
    fromOffset? (taken ++ s) (byteLength taken) =
      .ok ((next? s).map fun found =>
        ⟨found.1, byteLength taken + byteLength (leadingBlanks s)⟩) := by
  rw [fromOffset?, sliceFrom_append, ok_bind]
  unfold PlacedLexeme.scanFrom
  split
  · next hnone =>
    rw [hnone]
    rfl
  · next lexeme rest hsome =>
    rw [hsome]
    rfl

end Lexeme

namespace Piece

theorem wordAt_eq_ok (s : List Char) : wordAt s = .ok (leadingWord s) := by
  have hslice := slice_append [] (leadingWord s) (afterWord s)
  rw [List.nil_append, leadingWord_append_afterWord, byteLength_nil, Nat.zero_add] at hslice
  rw [wordAt, offsetWhere?_not]
  exact hslice

theorem endsAfter_eq_ok (name : String) (s : List Char) :
    endsAfter name s = .ok (Lexicon.afterName? name s).isSome := by
  unfold endsAfter
  split
  · next hprefix =>
    obtain ⟨rest, rfl⟩ := List.isPrefixOf_iff_prefix.1 hprefix
    rw [sliceFrom_append, ok_bind, Lexicon.afterName?, dropLeading?_eq_some_iff.2 rfl,
      Option.filter_some]
    cases startsInWord rest <;> rfl
  · next hprefix =>
    cases hafter : Lexicon.afterName? name s with
    | none => rfl
    | some rest =>
      obtain ⟨rfl, -⟩ := Lexicon.afterName?_eq_some_iff.1 hafter
      exact absurd (List.isPrefixOf_iff_prefix.2 (List.prefix_append _ _)) hprefix

theorem nameAmong_eq_ok (entries : List (Category × String)) (s : List Char) :
    nameAmong entries s =
      .ok ((entries.findSome? fun entry =>
        (Lexicon.afterName? entry.2 s).map fun rest => (entry.2, rest)).map (·.1)) := by
  induction entries with
  | nil => rfl
  | cons entry entries ih =>
    rw [nameAmong, endsAfter_eq_ok, ok_bind, List.findSome?_cons]
    cases Lexicon.afterName? entry.2 s with
    | none => exact ih
    | some rest => rfl

theorem nameAt_eq_ok (s : List Char) : nameAt s = .ok ((Lexicon.leading? s).map (·.1)) :=
  nameAmong_eq_ok Lexicon.entries s

/-- An argument is found where one is written, and its bytes are counted. -/
theorem argumentAt_append {arg written rest : List Char} (h : Argument arg written rest) :
    argumentAt (written ++ rest) = .ok (some (arg, byteLength written)) := by
  cases h with
  | word hword hstop =>
    obtain ⟨hne, hchars⟩ := hword
    cases arg with
    | nil => exact absurd rfl hne
    | cons c w =>
      have hopen : c ≠ '(' := by
        rintro rfl
        exact absurd (hchars '(' List.mem_cons_self) (by decide)
      have hprefix : ['('].isPrefixOf (c :: w ++ rest) = false := by
        simp [List.isPrefixOf, hopen.symm]
      rw [argumentAt, hprefix, wordAt_eq_ok, leadingWord_append_of_stop hchars hstop]
      rfl
  | group hbalanced hblank =>
    have hslice : slice 1 (1 + byteLength arg) ('(' :: (arg ++ ')' :: rest)) = .ok arg :=
      slice_append ['('] arg (')' :: rest)
    have hprefix : ['('].isPrefixOf ('(' :: (arg ++ ')' :: rest)) = true := rfl
    have hwritten : byteLength ('(' :: arg ++ [')']) = 1 + byteLength arg + 1 :=
      byteLength_append ('(' :: arg) [')']
    rw [hwritten, List.cons_append, List.cons_append, List.append_assoc, List.singleton_append,
      argumentAt, if_pos hprefix, closingFrom?_open, splitAtClosing_append rest hbalanced,
      Option.map_some]
    simp only [hslice, ok_bind, hblank]
    rfl

/-- Where no argument is written, none is found. -/
theorem argumentAt_of_none {s : List Char} (h : argument? s = none) :
    argumentAt s = .ok none := by
  unfold argumentAt
  split
  · next hprefix =>
    obtain ⟨rest, rfl⟩ := List.isPrefixOf_iff_prefix.1 hprefix
    rw [List.singleton_append] at h ⊢
    rw [closingFrom?_open]
    cases hcut : splitAtClosing 0 rest with
    | none => rfl
    | some cut =>
      obtain ⟨inner, after⟩ := cut
      obtain rfl := splitAtClosing_eq_append hcut
      have hslice : slice 1 (1 + byteLength inner) ('(' :: (inner ++ ')' :: after)) = .ok inner :=
        slice_append ['('] inner (')' :: after)
      have hblank : isBlankText inner = true := by
        rw [argument?, hcut, Option.filter_some] at h
        simpa using h
      simp only [Option.map_some, hslice, ok_bind, hblank]
      rfl
  · next hprefix =>
    have hstop : startsInWord s = false := by
      unfold argument? at h
      split at h
      · exact absurd rfl hprefix
      · split at h
        · cases h
        · next hstart => exact Bool.eq_false_iff.2 hstart
    rw [wordAt_eq_ok, ok_bind, leadingWord_of_stop hstop]
    rfl

/-! ## A step ends where its piece ends -/

/-- The result of a step through `line` by byte offsets is the step `step`: the same
piece, and the offset at which what follows the piece starts. -/
def Reaches (line : List Char) (step : Piece × List Char)
    (result : Except Fault (Piece × Nat)) : Prop :=
  ∃ taken, line = taken ++ step.2 ∧ result = .ok (step.1, byteLength taken)

/-- A step that takes no more than its sign ends where it looked ahead. -/
theorem reaches_sign (front rest : List Char) (piece : Piece) :
    Reaches (front ++ rest) (piece, rest) (.ok (piece, byteLength front)) :=
  ⟨front, rfl, rfl⟩

/-- A step that moves on over what it found ends after it. -/
theorem reaches_advance (front written after : List Char) (piece : Piece) :
    Reaches (front ++ (written ++ after)) (piece, after) (do
      let stop ← advance (front ++ (written ++ after)) (byteLength front) (byteLength written)
      return (piece, stop)) := by
  refine ⟨front ++ written, (List.append_assoc ..).symm, ?_⟩
  rw [advance_append, ok_bind]
  rfl

theorem reaches_letterAt (front : List Char) (c : Char) (rest : List Char) :
    Reaches (front ++ [c] ++ rest) (ofLetter c rest)
      (letterAt (front ++ [c] ++ rest) c (byteLength front) (byteLength (front ++ [c]))) := by
  have hslice : sliceFrom (byteLength front) (front ++ [c] ++ rest) = .ok (c :: rest) := by
    rw [List.append_assoc, List.singleton_append, sliceFrom_append]
  rw [letterAt, hslice, ok_bind, nameAt_eq_ok, ok_bind]
  unfold ofLetter
  cases hfound : Lexicon.leading? (c :: rest) with
  | none => exact reaches_sign (front ++ [c]) rest (leaf (.letter c))
  | some found =>
    obtain ⟨name, after⟩ := found
    obtain ⟨hname, hcut, -⟩ := Lexicon.of_leading?_eq_some hfound
    have hword := (Lexicon.isWord_of_contains hname).2
    cases hlist : name.toList with
    | nil => exact absurd hlist (Lexicon.ne_nil_of_contains hname)
    | cons d w =>
      rw [hlist, List.cons_append] at hcut
      rw [hlist] at hword
      obtain ⟨rfl, rfl⟩ := List.cons.inj hcut
      have hsize : c.utf8Size = 1 := utf8Size_of_isWordChar (hword c List.mem_cons_self)
      have hlessen : lessen (byteLength name.toList) 1 = .ok (byteLength w) := by
        rw [hlist, byteLength_cons, hsize, lessen_of_le (Nat.le_add_right 1 _),
          Nat.add_sub_cancel_left]
      simp only [Option.map_some, hlessen, ok_bind]
      exact reaches_advance (front ++ [c]) w after (leaf (.function name))

theorem reaches_slashAt (last : Option Node) (front rest : List Char) :
    Reaches (front ++ rest) (ofSlash last rest)
      (slashAt (front ++ rest) last (byteLength front)) := by
  rw [slashAt, sliceFrom_append, ok_bind, wordAt_eq_ok, ok_bind]
  simp only [isEmpty_leadingWord, Bool.not_not]
  unfold ofSlash
  cases last.filter fun node => node.literal?.isSome && startsInWord rest with
  | none => exact reaches_sign front rest (leaf (.operator .divide))
  | some numerator =>
    have hreaches := reaches_advance front (leadingWord rest) (afterWord rest)
      (fraction numerator (leadingWord rest))
    rw [leadingWord_append_afterWord] at hreaches
    exact hreaches

theorem reaches_caretAt (last : Option Node) (front rest : List Char) :
    Reaches (front ++ rest) (ofCaret last rest)
      (caretAt (front ++ rest) last (byteLength front)) := by
  rw [caretAt, sliceFrom_append, ok_bind]
  unfold ofCaret
  cases hfound : argument? rest with
  | none =>
    rw [argumentAt_of_none hfound, ok_bind]
    cases last <;> exact reaches_sign front rest (leaf (.text "^"))
  | some found =>
    obtain ⟨written, rfl, harg⟩ := argument?_eq_some_iff.1 hfound
    rw [argumentAt_append harg, ok_bind]
    cases last with
    | none => exact reaches_sign front _ (leaf (.text "^"))
    | some base => exact reaches_advance front written _ (power base _)

theorem reaches_underscoreAt (last : Option Node) (front rest : List Char) :
    Reaches (front ++ rest) (ofUnderscore last rest)
      (underscoreAt (front ++ rest) last (byteLength front)) := by
  rw [underscoreAt, sliceFrom_append, ok_bind]
  unfold ofUnderscore
  cases hfound : argument? rest with
  | none =>
    rw [argumentAt_of_none hfound, ok_bind]
    cases last.bind Node.literal? <;> exact reaches_sign front rest (leaf (.text "_"))
  | some found =>
    obtain ⟨written, rfl, harg⟩ := argument?_eq_some_iff.1 hfound
    rw [argumentAt_append harg, ok_bind]
    cases last.bind Node.literal? with
    | none => exact reaches_sign front _ (leaf (.text "_"))
    | some base => exact reaches_advance front written _ (subscript base _)

theorem reaches_radicalAt (front rest : List Char) :
    Reaches (front ++ rest) (ofRadical rest) (radicalAt (front ++ rest) (byteLength front)) := by
  rw [radicalAt, sliceFrom_append, ok_bind]
  unfold ofRadical
  cases hfound : argument? rest with
  | none =>
    rw [argumentAt_of_none hfound, ok_bind]
    exact reaches_sign front rest (leaf (.text "√"))
  | some found =>
    obtain ⟨written, rfl, harg⟩ := argument?_eq_some_iff.1 hfound
    rw [argumentAt_append harg, ok_bind]
    exact reaches_advance front written _ (root _)

theorem reaches_bracketAt (front rest : List Char) :
    Reaches (front ++ ['('] ++ rest) (ofBracket rest)
      (bracketAt (front ++ ['('] ++ rest) (byteLength front) (byteLength (front ++ ['(']))) := by
  have hslice : sliceFrom (byteLength front) (front ++ ['('] ++ rest) = .ok ('(' :: rest) := by
    rw [List.append_assoc, List.singleton_append, sliceFrom_append]
  rw [bracketAt, hslice, ok_bind, closingFrom?_open]
  unfold ofBracket
  cases hcut : splitAtClosing 0 rest with
  | none => exact reaches_sign (front ++ ['(']) rest (leaf (.text "("))
  | some cut =>
    obtain ⟨inner, after⟩ := cut
    obtain rfl := splitAtClosing_eq_append hcut
    have hinner : slice (byteLength front + 1) (byteLength front + (1 + byteLength inner))
        (front ++ ['('] ++ (inner ++ ')' :: after)) = .ok inner := by
      have hslice := slice_append (front ++ ['(']) inner (')' :: after)
      rw [byteLength_append, Nat.add_assoc] at hslice
      exact hslice
    have hadvance : advance (front ++ ['('] ++ (inner ++ ')' :: after))
        (byteLength (front ++ ['('])) (1 + byteLength inner) =
          .ok (byteLength (front ++ ['('] ++ (inner ++ [')']))) := by
      have hadvance := advance_append (front ++ ['(']) (inner ++ [')']) after
      rw [List.append_assoc inner, byteLength_append inner, Nat.add_comm] at hadvance
      exact hadvance
    refine ⟨front ++ ['('] ++ (inner ++ [')']), by simp, ?_⟩
    simp only [Option.map_some, hadvance, hinner, ok_bind]
    rfl

/-- The piece that a lexeme makes by byte offsets is the one that it makes of the text
after it. -/
theorem reaches_ofPlaced (last : Option Node) (front : List Char) {s rest : List Char}
    {lexeme : Lexeme} (hnext : Lexeme.next? s = some (lexeme, rest)) :
    Reaches (front ++ lexeme.text ++ rest) (ofLexeme last lexeme rest)
      (ofPlaced (front ++ lexeme.text ++ rest) last ⟨lexeme, byteLength front⟩) := by
  have htext {c : Char} (h : lexeme.token.char? = some c) : lexeme.text = [c] :=
    Lexeme.text_of_char? hnext h
  obtain ⟨token, text⟩ := lexeme
  have hstop : (PlacedLexeme.mk ⟨token, text⟩ (byteLength front)).stop =
      byteLength (front ++ text) := (byteLength_append front text).symm
  unfold ofLexeme ofPlaced
  rw [hstop]
  cases token with
  | number | operator _ | closeBracket | other =>
    exact reaches_sign (front ++ text) rest _
  | letter c =>
    obtain rfl : text = [c] := htext rfl
    exact reaches_letterAt front c rest
  | slash => exact reaches_slashAt last (front ++ text) rest
  | caret => exact reaches_caretAt last (front ++ text) rest
  | underscore => exact reaches_underscoreAt last (front ++ text) rest
  | radical => exact reaches_radicalAt (front ++ text) rest
  | openBracket =>
    obtain rfl : text = ['('] := htext rfl
    exact reaches_bracketAt front rest

end Piece

/-! ## The loop moves on -/

/-- An argument takes no more bytes than it is written with. -/
theorem Argument.byteLength_le {arg written rest : List Char} (h : Argument arg written rest) :
    byteLength arg ≤ byteLength written := by
  cases h with
  | word => exact Nat.le_refl _
  | group => exact Nat.le_of_lt (byteLength_lt_cons '(' (byteLength_le_append arg [')']))

/-- The text inside a piece takes fewer bytes than the piece. -/
theorem Piece.Reads.byteLength_inner_lt {last : Option Node} {piece : Piece}
    {typed rest : List Char} (h : Reads last piece typed rest) :
    byteLength piece.inner < byteLength typed := by
  cases h with
  | number hne _ => exact byteLength_pos hne
  | function hname _ => exact byteLength_pos (Lexicon.ne_nil_of_contains hname)
  | operator _ => exact byteLength_pos (Operator.typed_ne_nil _)
  | letter | divide | caret | underscore | radical | openBracket | closeBracket | other =>
    exact byteLength_pos (List.cons_ne_nil _ _)
  | fraction => exact byteLength_lt_cons '/' (Nat.le_refl _)
  | power _ harg => exact byteLength_lt_cons '^' harg.byteLength_le
  | subscript _ harg => exact byteLength_lt_cons '_' harg.byteLength_le
  | root harg => exact byteLength_lt_cons '√' harg.byteLength_le
  | @group inner =>
    exact byteLength_lt_cons '(' (byteLength_le_append inner [')'])

namespace Node

/-- From a place in the line on, the reader by byte offsets reads what is left. -/
theorem readFrom_append (taken : List Char) (done : List Node) (s : List Char) :
    readFrom (taken ++ s) done (byteLength taken) = .ok (readOnto done s) := by
  rw [readFrom, Lexeme.fromOffset?_append, ok_bind]
  cases hlexeme : Lexeme.next? s with
  | none =>
    rw [readOnto_of_blank (Lexeme.next?_eq_none_iff.1 hlexeme)]
    rfl
  | some found =>
    obtain ⟨lexeme, tail⟩ := found
    have hreaches := Piece.reaches_ofPlaced done.head? (taken ++ leadingBlanks s) hlexeme
    have hcut : taken ++ leadingBlanks s ++ lexeme.text ++ tail = taken ++ s := by
      rw [List.append_assoc, ← Lexeme.skipBlanks_eq_append_of_next? hlexeme, List.append_assoc,
        leadingBlanks_append_skipBlanks]
    rw [hcut, byteLength_append] at hreaches
    have hnext : Piece.next? done.head? s =
        some (Piece.ofLexeme done.head? lexeme tail) := by
      rw [Piece.next?, hlexeme]
      rfl
    generalize Piece.ofLexeme done.head? lexeme tail = step at hreaches hnext
    obtain ⟨piece, rest⟩ := step
    obtain ⟨passed, hline, hresult⟩ := hreaches
    obtain ⟨blanks, typed, hs, -, hreads⟩ := Piece.next?_eq_some_iff.1 hnext
    have hlength := Piece.length_of_next? hnext
    have hbytes := hreads.byteLength_inner_lt
    -- Both cuts of the line leave `rest`, so the step has passed blanks and what is typed.
    have hwhole := congrArg byteLength hline
    have hleft := congrArg byteLength hs
    simp only [byteLength_append] at hwhole hleft
    have hmoves : byteLength taken < byteLength passed ∧
        byteLength passed ≤ byteLength (taken ++ s) := by
      rw [byteLength_append]
      omega
    have hinner : byteLength piece.inner < byteLength (taken ++ s) := by
      rw [byteLength_append]
      omega
    have hinside : readFrom piece.inner [] 0 = .ok (readLine piece.inner) :=
      readFrom_append [] [] piece.inner
    rw [readOnto_of_next? hnext]
    simp only [Option.map_some, hresult, ok_bind, dif_pos hmoves, dif_pos hinner, hinside]
    rw [hline]
    exact readFrom_append passed _ rest
termination_by s.length

/-- Reading by byte offsets comes to the end of every line without a fault, and gives the
nodes of the line. -/
theorem readFrom_eq_ok_readLine (s : List Char) : readFrom s [] 0 = .ok (readLine s) :=
  readFrom_append [] [] s

end Node

end MathLine
