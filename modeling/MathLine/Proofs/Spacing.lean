import MathLine.Proofs.Lookahead
import MathLine.Proofs.Spelling
import MathLine.Proofs.Stretches

set_option autoImplicit false

/-!
# Blanks of any kind

Whether a blank stands between two characters matters to reading: a caret has no argument
behind one, a word ends at one.  Which blank it is does not matter, nor how many there are,
nor whether a line begins or ends with some.  `evenlySpaced` writes a line with one space in
each gap, and `readLine_evenlySpaced` says that it is read as the line is.

Two texts are read in step as long as they have their gaps in the same places
(`AlikeSpaced`).  What a step looks at is then the same in both (`AlikeSpaced.sameAhead`),
and it leaves two texts that are alike again, inside the piece and after it
(`Piece.Reads.of_alikeSpaced`).
-/

namespace MathLine

open MathLine.Text

/-- The line `s` with a space in each gap: without the blanks at its ends, and with one space
for any other blanks that stand together. -/
def evenlySpaced (s : List Char) : List Char := [' '].intercalate (stretches isBlank s)

/-- The two texts differ in their blanks only, and have blanks in the same places, the ends
apart. -/
inductive AlikeSpaced : (s t : List Char) → Prop where
  | blank {s t : List Char} (hs : isBlankText s = true) (ht : isBlankText t = true) :
      AlikeSpaced s t
  | char {c : Char} {s t : List Char} (hc : isBlank c = false) (h : AlikeSpaced s t) :
      AlikeSpaced (c :: s) (c :: t)
  | gap {blanks blanks' s t : List Char} (hblanks : isBlankText blanks = true)
      (hne : blanks ≠ []) (hblanks' : isBlankText blanks' = true) (hne' : blanks' ≠ [])
      (h : AlikeSpaced s t) : AlikeSpaced (blanks ++ s) (blanks' ++ t)

/-! ## Blank texts -/

theorem nextChar?_blanks_append {blanks : List Char} (s : List Char)
    (h : isBlankText blanks = true) (hne : blanks ≠ []) : nextChar? (blanks ++ s) = none := by
  obtain ⟨c, blanks, rfl⟩ := List.exists_cons_of_ne_nil hne
  simp [nextChar?, List.all_eq_true.1 h c List.mem_cons_self]

theorem nextChar?_of_blank {s : List Char} (h : isBlankText s = true) : nextChar? s = none := by
  cases s with
  | nil => rfl
  | cons c s => exact nextChar?_blanks_append [] h (List.cons_ne_nil c s) ▸ by simp

namespace AlikeSpaced

variable {s t u : List Char}

@[symm]
theorem symm (h : AlikeSpaced s t) : AlikeSpaced t s := by
  induction h with
  | blank hs ht => exact .blank ht hs
  | char hc _ ih => exact .char hc ih
  | gap hblanks hne hblanks' hne' _ ih => exact .gap hblanks' hne' hblanks hne ih

@[refl]
theorem refl (s : List Char) : AlikeSpaced s s := by
  induction s with
  | nil => exact .blank rfl rfl
  | cons c s ih =>
    cases hc : isBlank c with
    | false => exact .char hc ih
    | true =>
      have hblank : isBlankText [c] = true := by simp [isBlankText, hc]
      exact .gap hblank (List.cons_ne_nil c []) hblank (List.cons_ne_nil c []) ih

/-! ## What alike texts have in common -/

theorem skipBlanks (h : AlikeSpaced s t) : AlikeSpaced (skipBlanks s) (skipBlanks t) := by
  induction h with
  | blank hs ht =>
    rw [skipBlanks_eq_nil_iff.2 hs, skipBlanks_eq_nil_iff.2 ht]
  | char hc h _ =>
    rw [skipBlanks_cons_of_not_blank hc, skipBlanks_cons_of_not_blank hc]
    exact .char hc h
  | gap hblanks _ hblanks' _ _ ih =>
    rw [skipBlanks_blanks_append _ hblanks, skipBlanks_blanks_append _ hblanks']
    exact ih

theorem isBlankText_eq (h : AlikeSpaced s t) : isBlankText t = isBlankText s := by
  induction h with
  | blank hs ht => rw [hs, ht]
  | char hc _ _ => simp [isBlankText, hc]
  | gap hblanks _ hblanks' _ _ ih =>
    rw [Bool.eq_iff_iff, isBlankText_append, isBlankText_append, ih]
    simp [hblanks, hblanks']

theorem loose_eq (h : AlikeSpaced s t) : loose t = loose s := by
  induction h with
  | blank hs ht =>
    exact (isBalanced_of_blank ht).trans (isBalanced_of_blank hs).symm
  | char _ _ ih => rw [loose_cons, loose_cons, ih]
  | gap hblanks _ hblanks' _ _ ih =>
    rw [loose_append_of_balanced _ (isBalanced_of_blank hblanks),
      loose_append_of_balanced _ (isBalanced_of_blank hblanks'), ih]

theorem nextChar?_eq (h : AlikeSpaced s t) : nextChar? s = nextChar? t := by
  cases h with
  | blank hs ht => rw [nextChar?_of_blank hs, nextChar?_of_blank ht]
  | char hc _ => rw [nextChar?_cons _ hc, nextChar?_cons _ hc]
  | gap hblanks hne hblanks' hne' _ =>
    rw [nextChar?_blanks_append _ hblanks hne, nextChar?_blanks_append _ hblanks' hne']

theorem leadingWord_eq (h : AlikeSpaced s t) : leadingWord s = leadingWord t := by
  have stop {u : List Char} (hnext : nextChar? u = none) : leadingWord u = [] :=
    leadingWord_of_stop (startsInWord_of_nextChar? hnext)
  induction h with
  | blank hs ht => rw [stop (nextChar?_of_blank hs), stop (nextChar?_of_blank ht)]
  | @char c s t _ _ ih =>
    rw [leadingWord, leadingWord, List.takeWhile_cons, List.takeWhile_cons]
    exact congrArg (fun word => if isWordChar c then c :: word else []) ih
  | gap hblanks hne hblanks' hne' _ _ =>
    rw [stop (nextChar?_blanks_append _ hblanks hne),
      stop (nextChar?_blanks_append _ hblanks' hne')]

/-! ## Taking alike texts apart -/

/-- A text without blanks is passed over in both. -/
theorem exists_of_plain_append {plain : List Char} (hplain : ∀ c ∈ plain, isBlank c = false)
    (h : AlikeSpaced (plain ++ s) t) : ∃ u, t = plain ++ u ∧ AlikeSpaced s u := by
  induction plain generalizing t with
  | nil => exact ⟨t, rfl, h⟩
  | cons c plain ih =>
    have hc := hplain c List.mem_cons_self
    rw [List.cons_append] at h
    generalize hwhole : c :: (plain ++ s) = whole at h
    cases h with
    | blank hs _ =>
      rw [← hwhole] at hs
      simp [isBlankText, hc] at hs
    | char _ h =>
      obtain ⟨rfl, rfl⟩ := List.cons.inj hwhole
      obtain ⟨u, rfl, hu⟩ := ih (fun d hd => hplain d (List.mem_cons_of_mem c hd)) h
      exact ⟨u, rfl, hu⟩
    | @gap blanks _ _ _ hblanks hne _ _ _ =>
      obtain ⟨d, blanks, rfl⟩ := List.exists_cons_of_ne_nil hne
      obtain ⟨rfl, -⟩ := List.cons.inj hwhole
      rw [List.all_eq_true.1 hblanks c List.mem_cons_self] at hc
      exact absurd hc.symm Bool.false_ne_true

/-- Both fall into two at a character that is no blank. -/
theorem exists_of_append_cons {c : Char} (hc : isBlank c = false)
    (h : AlikeSpaced (u ++ c :: s) t) :
    ∃ u' s', t = u' ++ c :: s' ∧ AlikeSpaced u u' ∧ AlikeSpaced s s' := by
  generalize hwhole : u ++ c :: s = whole at h
  induction h generalizing u with
  | blank hs _ =>
    rw [← hwhole, isBlankText_append] at hs
    simp [isBlankText, hc] at hs
  | @char d v w hd h ih =>
    cases u with
    | nil =>
      obtain ⟨rfl, rfl⟩ := List.cons.inj hwhole
      exact ⟨[], w, rfl, refl [], h⟩
    | cons e u =>
      obtain ⟨rfl, htail⟩ := List.cons.inj hwhole
      obtain ⟨u', s', rfl, hu, hs⟩ := ih htail
      exact ⟨e :: u', s', rfl, .char hd hu, hs⟩
  | @gap blanks blanks' v w hblanks hne hblanks' hne' _ ih =>
    rcases List.append_eq_append_iff.1 hwhole with ⟨between, rfl, hbetween⟩ | ⟨u, rfl, htail⟩
    · cases between with
      | nil =>
        obtain ⟨u', s', rfl, hu, hs⟩ := ih (u := []) hbetween
        refine ⟨blanks' ++ u', s', (List.append_assoc _ _ _).symm, ?_, hs⟩
        rw [List.append_nil] at hblanks
        refine .blank hblanks (isBlankText_append.2 ⟨hblanks', ?_⟩)
        rw [hu.isBlankText_eq]
        rfl
      | cons d between =>
        obtain ⟨rfl, -⟩ := List.cons.inj hbetween
        have hblank := List.all_eq_true.1 hblanks c (by simp)
        rw [hc] at hblank
        exact absurd hblank Bool.false_ne_true
    · obtain ⟨u', s', rfl, hu, hs⟩ := ih htail.symm
      exact ⟨blanks' ++ u', s', (List.append_assoc _ _ _).symm,
        .gap hblanks hne hblanks' hne' hu, hs⟩

end AlikeSpaced

/-! ## Arguments -/

/-- An argument is written without blanks, or as a group.  In the second case other groups of
the kind are arguments as well. -/
theorem Argument.plain_or_group {arg written rest : List Char} (h : Argument arg written rest) :
    (∀ c ∈ written, isBlank c = false) ∨
      written = '(' :: arg ++ [')'] ∧
        ∀ arg' rest', loose arg' = loose arg → isBlankText arg' = isBlankText arg →
          Argument arg' ('(' :: arg' ++ [')']) rest' := by
  cases h with
  | word hword _ => exact .inl fun c hc => isBlank_of_isWordChar (hword.2 c hc)
  | group hbalanced hblank =>
    refine .inr ⟨rfl, ?_⟩
    intro arg' rest' hloose hblank'
    exact .group (hloose.trans hbalanced) (hblank'.trans hblank)

namespace AlikeSpaced

variable {s t : List Char}

/-- What is in a group, and what follows it, is alike in alike texts. -/
theorem exists_of_group_append {inner rest u : List Char}
    (h : AlikeSpaced ('(' :: inner ++ [')'] ++ rest) u) :
    ∃ inner' rest', u = '(' :: inner' ++ [')'] ++ rest' ∧ AlikeSpaced inner inner' ∧
      AlikeSpaced rest rest' := by
  rw [List.append_assoc, List.cons_append] at h
  have hopen : ∀ c ∈ ['('], isBlank c = false := List.forall_mem_singleton.2 rfl
  obtain ⟨v, rfl, hv⟩ := exists_of_plain_append hopen h
  obtain ⟨inner', rest', rfl, hinner, hrest⟩ := exists_of_append_cons (by decide) hv
  exact ⟨inner', rest', by simp, hinner, hrest⟩

/-- Where an argument is found in a text, one is found in a text that is alike. -/
theorem argument? (h : AlikeSpaced s t) (harg : Piece.argument? s = none) :
    Piece.argument? t = none := by
  cases hfound : Piece.argument? t with
  | none => rfl
  | some found =>
    obtain ⟨arg, rest⟩ := found
    obtain ⟨written, rfl, hwritten⟩ := Piece.argument?_eq_some_iff.1 hfound
    exfalso
    cases hwritten with
    | word hword hstop =>
      obtain ⟨rest', rfl, hrest⟩ := exists_of_plain_append
        (fun c hc => isBlank_of_isWordChar (hword.2 c hc)) h.symm
      have hstop' : startsInWord rest' = false := by
        rw [Bool.eq_false_iff, ne_eq, startsInWord_eq_true_iff, ← hrest.leadingWord_eq,
          leadingWord_of_stop hstop]
        simp
      rw [Piece.argument?_eq_some_iff.2 ⟨_, rfl, .word hword hstop'⟩] at harg
      exact absurd harg (by simp)
    | group hbalanced hblank =>
      obtain ⟨arg', rest', rfl, harg', -⟩ := exists_of_group_append h.symm
      have hbalanced' : IsBalanced arg' := harg'.loose_eq.trans hbalanced
      have hblank' := harg'.isBlankText_eq.trans hblank
      rw [Piece.argument?_eq_some_iff.2 ⟨_, rfl, .group hbalanced' hblank'⟩] at harg
      exact absurd harg (by simp)

/-- Alike texts look the same to a step in front of them. -/
theorem sameAhead (h : AlikeSpaced s t) : SameAhead s t where
  next := h.nextChar?_eq
  word := h.leadingWord_eq
  argument := h.argument?

end AlikeSpaced

/-! ## One step -/

namespace Piece

/-- A piece that fills the place of another: the same node comes of it once its inside is
read, in the same place. -/
def Replaces (piece' piece : Piece) : Prop :=
  ∀ done inside, piece'.place done inside = piece.place done inside

/-- A step takes a text without blanks, or a group behind a text without blanks.  In the
second case any other group of the kind may stand there. -/
theorem Reads.plain_or_group {last : Option Node} {piece : Piece} {typed rest : List Char}
    (h : piece.Reads last typed rest) :
    (∀ c ∈ typed, isBlank c = false) ∨
      ∃ sign, (∀ c ∈ sign, isBlank c = false) ∧ typed = sign ++ ('(' :: piece.inner ++ [')']) ∧
        ∀ inner' rest', loose inner' = loose piece.inner →
          isBlankText inner' = isBlankText piece.inner →
            ∃ piece' : Piece, piece'.Reads last (sign ++ ('(' :: inner' ++ [')'])) rest' ∧
              piece'.inner = inner' ∧ piece'.Replaces piece := by
  cases h with
  | number hne hlead =>
    have hnumeral := Numeral.isNumeral_of_leading_append hne hlead
    exact .inl fun c hc => Numeral.isBlank_of_isStart (hnumeral.isStart_of_mem c hc)
  | function hname _ =>
    have hword := Lexicon.isWord_of_contains hname
    exact .inl fun c hc => isBlank_of_isWordChar (hword.2 c hc)
  | letter hc _ =>
    exact .inl (List.forall_mem_singleton.2 (isBlank_of_isWordChar (isWordChar_of_isAlpha hc)))
  | @operator op _ _ => exact .inl op.isBlank_of_mem_typed
  | fraction _ _ hword _ =>
    exact .inl (List.forall_mem_cons.2
      ⟨rfl, fun c hc => isBlank_of_isWordChar (hword.2 c hc)⟩)
  | other hc _ => exact .inl (List.forall_mem_singleton.2 (isOther_iff.1 hc).1)
  | divide _ | caret _ | underscore _ | radical _ | openBracket _ | closeBracket =>
    exact .inl (List.forall_mem_singleton.2 rfl)
  | @power base arg written _ hlast harg =>
    rcases harg.plain_or_group with hplain | ⟨rfl, hother⟩
    · exact .inl (List.forall_mem_cons.2 ⟨rfl, hplain⟩)
    · refine .inr ⟨['^'], List.forall_mem_singleton.2 rfl, rfl, ?_⟩
      intro arg' rest' hloose hblank
      exact ⟨.power base arg', .power hlast (hother arg' rest' hloose hblank), rfl,
        fun _ _ => rfl⟩
  | @subscript base arg written _ hlast harg =>
    rcases harg.plain_or_group with hplain | ⟨rfl, hother⟩
    · exact .inl (List.forall_mem_cons.2 ⟨rfl, hplain⟩)
    · refine .inr ⟨['_'], List.forall_mem_singleton.2 rfl, rfl, ?_⟩
      intro arg' rest' hloose hblank
      exact ⟨.subscript base arg', .subscript hlast (hother arg' rest' hloose hblank), rfl,
        fun _ _ => rfl⟩
  | @root arg written _ harg =>
    rcases harg.plain_or_group with hplain | ⟨rfl, hother⟩
    · exact .inl (List.forall_mem_cons.2 ⟨rfl, hplain⟩)
    · refine .inr ⟨['√'], List.forall_mem_singleton.2 rfl, rfl, ?_⟩
      intro arg' rest' hloose hblank
      exact ⟨.root arg', .root (hother arg' rest' hloose hblank), rfl, fun _ _ => rfl⟩
  | group hbalanced =>
    refine .inr ⟨[], nofun, rfl, fun inner' rest' hloose _ => ?_⟩
    exact ⟨.group inner', .group (hloose.trans hbalanced), rfl, fun _ _ => rfl⟩

/-- Where a piece is read, one that fills its place is read in a text that is alike, and what
is inside the pieces and after them is alike again. -/
theorem Reads.of_alikeSpaced {last : Option Node} {piece : Piece} {typed rest u : List Char}
    (h : piece.Reads last typed rest) (halike : AlikeSpaced (typed ++ rest) u) :
    ∃ (piece' : Piece) (typed' rest' : List Char), u = typed' ++ rest' ∧
      piece'.Reads last typed' rest' ∧ piece'.Replaces piece ∧
        AlikeSpaced piece.inner piece'.inner ∧ AlikeSpaced rest rest' := by
  rcases h.plain_or_group with hplain | ⟨sign, hsign, rfl, hother⟩
  · obtain ⟨rest', rfl, hrest⟩ := AlikeSpaced.exists_of_plain_append hplain halike
    have hreads := h.of_sameAhead hrest.sameAhead fun _ hclosing => by
      rw [hrest.loose_eq, hclosing]
    exact ⟨piece, typed, rest', rfl, hreads, fun _ _ => rfl, .refl _, hrest⟩
  · rw [List.append_assoc] at halike
    obtain ⟨v, rfl, hv⟩ := AlikeSpaced.exists_of_plain_append hsign halike
    obtain ⟨inner', rest', rfl, hinner, hrest⟩ := hv.exists_of_group_append
    obtain ⟨piece', hreads, rfl, hreplaces⟩ :=
      hother inner' rest' hinner.loose_eq hinner.isBlankText_eq
    exact ⟨piece', _, rest', (List.append_assoc _ _ _).symm, hreads, hreplaces, hinner, hrest⟩

end Piece

/-! ## Lines -/

namespace Node

/-- Alike texts are read alike. -/
theorem readOnto_of_alikeSpaced {s t : List Char} (done : List Node) (h : AlikeSpaced s t) :
    readOnto done s = readOnto done t := by
  cases hnext : Piece.next? done.head? s with
  | none =>
    have hblank := Piece.next?_eq_none_iff.1 hnext
    rw [readOnto_of_blank hblank, readOnto_of_blank (h.isBlankText_eq.trans hblank)]
  | some taken =>
    obtain ⟨piece, rest⟩ := taken
    have hlength := Piece.length_of_next? hnext
    obtain ⟨typed, hskip, hreads⟩ := Piece.skipBlanks_of_next? hnext
    obtain ⟨piece', typed', rest', hskip', hreads', hreplaces, hinner, hrest⟩ :=
      hreads.of_alikeSpaced (hskip ▸ h.skipBlanks)
    have hnext' : Piece.next? done.head? t = some (piece', rest') := by
      refine Piece.next?_eq_some_iff.2 ⟨leadingBlanks t, typed', ?_, List.all_takeWhile, hreads'⟩
      rw [← hskip', leadingBlanks_append_skipBlanks]
    have hinside : readLine piece.inner = readLine piece'.inner :=
      readOnto_of_alikeSpaced [] hinner
    rw [readOnto_of_next? hnext, readOnto_of_next? hnext', hreplaces, hinside]
    exact readOnto_of_alikeSpaced _ hrest
termination_by s.length
decreasing_by
  · exact hlength.1
  · exact hlength.2

end Node

/-! ## Even spaces -/

theorem AlikeSpaced.plain_append {plain s t : List Char}
    (hplain : ∀ c ∈ plain, isBlank c = false) (h : AlikeSpaced s t) :
    AlikeSpaced (plain ++ s) (plain ++ t) := by
  induction plain with
  | nil => exact h
  | cons c plain ih =>
    exact .char (hplain c List.mem_cons_self)
      (ih fun d hd => hplain d (List.mem_cons_of_mem c hd))

/-- A text that is not blank is a text without blanks up to its next gap, or to its end. -/
theorem exists_plain_of_not_blank {c : Char} (s : List Char) (hc : isBlank c = false) :
    ∃ plain rest, c :: s = plain ++ rest ∧ plain ≠ [] ∧ (∀ d ∈ plain, isBlank d = false) ∧
      ∀ d ∈ rest.head?, isBlank d = true := by
  refine ⟨(c :: s).takeWhile fun d => !isBlank d, (c :: s).dropWhile fun d => !isBlank d,
    List.takeWhile_append_dropWhile.symm, ?_, ?_, ?_⟩
  · simp [hc]
  · intro d hd
    simpa using List.all_eq_true.1 List.all_takeWhile d hd
  · intro d hd
    have hstop := List.head?_dropWhile_not (fun d => !isBlank d) (c :: s)
    rw [hd] at hstop
    simpa using hstop

/-- The stretches of a line with a space between neighbours have their gaps where the line has
its own. -/
theorem alikeSpaced_evenlySpaced (s : List Char) :
    AlikeSpaced (skipBlanks s) (evenlySpaced s) := by
  have hstretches : stretches isBlank s = stretches isBlank (skipBlanks s) := by
    have hblanks : ∀ c ∈ leadingBlanks s, isBlank c = true :=
      List.all_eq_true.1 List.all_takeWhile
    have hcut := stretches_separators_append (skipBlanks s) hblanks
    rwa [leadingBlanks_append_skipBlanks] at hcut
  have hskiplength := length_skipBlanks_le s
  cases hskip : skipBlanks s with
  | nil =>
    rw [evenlySpaced, hstretches, hskip]
    exact .refl []
  | cons c tail =>
    obtain ⟨plain, rest, hcut, hne, hplain, hstop⟩ :=
      exists_plain_of_not_blank tail (isBlank_of_skipBlanks_eq_cons hskip)
    rw [hskip, hcut] at hstretches
    rw [stretches_append hstop, stretches_of_whole hne hplain] at hstretches
    have hlength : rest.length < s.length := by
      have := List.length_pos_iff.2 hne
      rw [hskip, hcut, List.length_append] at hskiplength
      omega
    have ih := alikeSpaced_evenlySpaced rest
    rw [hcut, evenlySpaced, hstretches]
    cases hmore : stretches isBlank rest with
    | nil =>
      -- Only blanks come after the last stretch, and they are left away.
      have hblank : isBlankText rest = true := by
        rw [evenlySpaced, hmore] at ih
        rw [← leadingBlanks_append_skipBlanks rest, isBlankText_append]
        exact ⟨List.all_takeWhile, ih.isBlankText_eq.symm⟩
      have hend : AlikeSpaced (plain ++ rest) (plain ++ []) :=
        .plain_append hplain (.blank hblank rfl)
      simpa using hend
    | cons next more =>
      have hgap : leadingBlanks rest ≠ [] := by
        cases rest with
        | nil => simp at hmore
        | cons d rest => simp [leadingBlanks, hstop d rfl]
      have hrest : AlikeSpaced rest ([' '] ++ evenlySpaced rest) := by
        have hblanks : isBlankText (leadingBlanks rest) = true := List.all_takeWhile
        have hboth : AlikeSpaced (leadingBlanks rest ++ skipBlanks rest) _ :=
          .gap hblanks hgap (by decide) (List.cons_ne_nil ' ' []) ih
        rwa [leadingBlanks_append_skipBlanks] at hboth
      rw [List.singleton_append, List.intercalate_cons_cons, ← hmore, List.append_assoc]
      exact .plain_append hplain hrest
termination_by s.length

namespace Node

/-- A line with a single space in each gap is read as the line is, whatever blanks stand
there and however many. -/
theorem readLine_evenlySpaced (s : List Char) : readLine (evenlySpaced s) = readLine s := by
  have hline : readLine s = readLine (skipBlanks s) := by
    have hblanks : isBlankText (leadingBlanks s) = true := List.all_takeWhile
    have hskip := readOnto_blanks_append [] (skipBlanks s) hblanks
    rwa [leadingBlanks_append_skipBlanks] at hskip
  rw [hline]
  exact (readOnto_of_alikeSpaced [] (alikeSpaced_evenlySpaced s)).symm

/-- Within the gap behind the caret it does not matter that there are two blanks, but that
there are any. -/
example : evenlySpaced "\t x^\u2003 (2  y) ".toList = "x^ (2 y)".toList := by
  decide +kernel

end Node

end MathLine
