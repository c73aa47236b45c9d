import MathLine.Proofs.Backslashes

set_option autoImplicit false

/-!
# What is left in escaped text

Escaped text can be read back, and it can also be put anywhere: none of the characters that TeX
gives a meaning to is left in it with that meaning, but for the empty group behind a command
that shows a character.  `Harmless` lists what this comes to, and `reversible_and_harmless` is
the conclusion for both modes.

Every character of an escaped text lies in what was written for one character of the text
(`exists_of_escape_eq_append`).  So it is enough to look at the three ways in which a character
is written (`escapeChar_cases`).
-/

namespace MathLine.Tex

/-! ## Harmless text -/

/-- The commands that show a character, each with its backslash. -/
def showing (mode : Mode) : List (List Char) :=
  (special.filterMap (shownBy? mode)).map String.toList

/-- The brace `c` between `before` and `after` is one of the two behind a command that shows a
character. -/
def EndsShowing (mode : Mode) (before : List Char) (c : Char) (after : List Char) : Prop :=
  ∃ command ∈ showing mode,
    command <:+ before ∧ c = '{' ∧ after.head? = some '}' ∨
      command ++ ['{'] <:+ before ∧ c = '}'

/-- The character `c` between `before` and `after` does not have the meaning that TeX gives to
it. -/
structure Held (mode : Mode) (before : List Char) (c : Char) (after : List Char) : Prop where
  escaped : c ∈ ['%', '#', '&', '$', '_'] → before.getLast? = some '\\'
  brace : c ∈ ['{', '}'] → before.getLast? = some '\\' ∨ EndsShowing mode before c after
  no_caret : c ≠ '^'
  no_tilde : c ≠ '~'

/-- In the text `s` nothing is left that TeX gives a meaning to, but for escapes. -/
structure Harmless (mode : Mode) (s : List Char) : Prop where
  held : ∀ before c after, s = before ++ c :: after → Held mode before c after
  apart : ¬['\\', '\\'] <:+: s
  whole : s.getLast? ≠ some '\\'

/-- What stands further away does not matter. -/
theorem Held.append {mode : Mode} {before after : List Char} {c : Char}
    (h : Held mode before c after) (front back : List Char) :
    Held mode (front ++ before) c (after ++ back) := by
  have hlast (hbefore : before.getLast? = some '\\') :
      (front ++ before).getLast? = some '\\' := by
    rw [List.getLast?_append, hbefore, Option.some_or]
  constructor
  case escaped => exact fun hc => hlast (h.escaped hc)
  case brace =>
    intro hc
    refine (h.brace hc).imp hlast ?_
    rintro ⟨command, hcommand, hends⟩
    refine ⟨command, hcommand, hends.imp ?_ ?_⟩
    · rintro ⟨hsuffix, rfl, hafter⟩
      exact ⟨hsuffix.trans (List.suffix_append _ _), rfl, by
        rw [List.head?_append, hafter, Option.some_or]⟩
    · rintro ⟨hsuffix, rfl⟩
      exact ⟨hsuffix.trans (List.suffix_append _ _), rfl⟩
  case no_caret => exact h.no_caret
  case no_tilde => exact h.no_tilde

/-- A character that is written as itself has no meaning to be held back from, and neither has a
backslash. -/
theorem held_of_free {mode : Mode} {before after : List Char} {c : Char}
    (h : c ∈ special → c = '\\') : Held mode before c after := by
  have hslash : c ∉ backslashed := by
    intro hc
    rw [h (List.mem_append_left _ hc)] at hc
    exact absurd hc (by decide)
  constructor
  case escaped => exact fun hc => absurd (List.mem_of_mem_drop (i := 2) hc) hslash
  case brace => exact fun hc => absurd (List.mem_of_mem_take (i := 2) hc) hslash
  case no_caret =>
    rintro rfl
    exact absurd (h (by decide)) (by decide)
  case no_tilde =>
    rintro rfl
    exact absurd (h (by decide)) (by decide)

/-! ## The escape of a character -/

/-- A command that shows a character is written with a backslash and letters. -/
theorem eq_backslash_of_mem_showing {mode : Mode} {command : List Char}
    (h : command ∈ showing mode) {c : Char} (hc : c ∈ command) : c ∈ special → c = '\\' := by
  intro hspecial
  have hall : (showing mode).all fun command =>
      command.all fun c => c == '\\' || !special.contains c := by
    cases mode <;> decide +kernel
  have hchar := List.all_eq_true.1 (List.all_eq_true.1 hall command h) c hc
  simpa [hspecial] using hchar

/-- A character is written behind a backslash, as a command with an empty group, or as itself. -/
theorem escapeChar_cases (mode : Mode) (c : Char) :
    c ∈ backslashed ∧ escapeChar mode c = ['\\', c] ∨
      (∃ command ∈ showing mode, escapeChar mode c = command ++ ['{', '}']) ∨
        c ∉ special ∧ escapeChar mode c = [c] := by
  by_cases h : c ∈ special
  · by_cases hslash : c ∈ backslashed
    · refine .inl ⟨hslash, ?_⟩
      rw [escapeChar, if_pos (by simpa using hslash)]
    · have hrest : c ∈ ['\\', '^', '~'] := (List.mem_append.1 h).resolve_left hslash
      obtain ⟨command, hshown⟩ : ∃ command, shownBy? mode c = some command := by
        simp only [List.mem_cons, List.not_mem_nil, or_false] at hrest
        rcases hrest with rfl | rfl | rfl <;> cases mode <;> exact ⟨_, rfl⟩
      refine .inr (.inl ⟨command.toList, ?_, ?_⟩)
      · exact List.mem_map_of_mem (List.mem_filterMap.2 ⟨c, h, hshown⟩)
      · rw [escapeChar, if_neg (by simpa using hslash), hshown]
        rfl
  · exact .inr (.inr ⟨h, escapeChar_of_not_special mode h⟩)

/-- Every character of a command that shows a character is held back, and so is the empty group
behind it. -/
theorem held_of_showing {mode : Mode} {command left right : List Char} {c : Char}
    (hcommand : command ∈ showing mode)
    (h : command ++ ['{', '}'] = left ++ c :: right) : Held mode left c right := by
  have hopen : Held mode command '{' ['}'] :=
    ⟨by simp, fun _ => .inr ⟨command, hcommand, .inl ⟨List.suffix_refl _, rfl, rfl⟩⟩,
      by decide, by decide⟩
  have hclose : Held mode (command ++ ['{']) '}' [] :=
    ⟨by simp, fun _ => .inr ⟨command, hcommand, .inr ⟨List.suffix_refl _, rfl⟩⟩,
      by decide, by decide⟩
  rcases List.append_eq_append_iff.1 h with ⟨more, rfl, hgroup⟩ | ⟨more, rfl, hgroup⟩
  · rcases List.cons_eq_append_iff.1 hgroup with ⟨rfl, hc⟩ | ⟨rest, rfl, hc⟩
    · obtain ⟨rfl, rfl⟩ := List.cons.inj hc
      rwa [List.append_nil]
    · obtain ⟨rfl, rfl, rfl⟩ : rest = [] ∧ c = '}' ∧ right = [] := by
        simpa [List.singleton_eq_append_iff] using hc
      exact hclose
  · cases more with
    | nil =>
      obtain ⟨rfl, rfl⟩ := List.cons.inj hgroup
      rwa [List.append_nil] at hopen
    | cons e more =>
      obtain ⟨rfl, -⟩ := List.cons.inj hgroup
      exact held_of_free (eq_backslash_of_mem_showing hcommand (by simp))

/-- Every character of what is written for one is held back. -/
theorem held_of_escapeChar {mode : Mode} {d c : Char} {left right : List Char}
    (h : escapeChar mode d = left ++ c :: right) : Held mode left c right := by
  rcases escapeChar_cases mode d with ⟨hd, hchar⟩ | ⟨command, hcommand, hchar⟩ | ⟨hd, hchar⟩
  all_goals rw [hchar] at h
  · rcases List.cons_eq_append_iff.1 h with ⟨rfl, hc⟩ | ⟨more, rfl, hc⟩
    · obtain ⟨rfl, -⟩ := List.cons.inj hc
      exact held_of_free fun _ => rfl
    · obtain ⟨rfl, rfl, rfl⟩ : more = [] ∧ c = d ∧ right = [] := by
        simpa [List.singleton_eq_append_iff] using hc
      refine ⟨fun _ => rfl, fun _ => .inl rfl, ?_, ?_⟩
      all_goals
        rintro rfl
        exact absurd hd (by decide)
  · exact held_of_showing hcommand h
  · obtain ⟨rfl, rfl, rfl⟩ : left = [] ∧ c = d ∧ right = [] := by
      simpa [List.singleton_eq_append_iff] using h
    exact held_of_free fun hmem => absurd hmem hd

/-! ## Escaped text -/

/-- A character of an escaped text lies in what was written for some character of the text. -/
theorem exists_of_escape_eq_append {mode : Mode} {s before after : List Char} {c : Char}
    (h : escape mode s = before ++ c :: after) :
    ∃ front d back left right, before = escape mode front ++ left ∧
      escapeChar mode d = left ++ c :: right ∧ after = right ++ escape mode back := by
  induction s generalizing before with
  | nil => simp at h
  | cons d s ih =>
    have hlater (rest : List Char) (hrest : escape mode s = rest ++ c :: after) :
        ∃ front e back left right, escapeChar mode d ++ rest = escape mode front ++ left ∧
          escapeChar mode e = left ++ c :: right ∧ after = right ++ escape mode back := by
      obtain ⟨front, e, back, left, right, rfl, hchar, hafter⟩ := ih hrest
      exact ⟨d :: front, e, back, left, right, by rw [escape_cons, List.append_assoc], hchar,
        hafter⟩
    rw [escape_cons] at h
    rcases List.append_eq_append_iff.1 h with ⟨rest, rfl, hrest⟩ | ⟨right, hchar, hafter⟩
    · exact hlater rest hrest
    · cases right with
      | nil =>
        rw [List.append_nil] at hchar
        simpa [hchar] using hlater [] hafter.symm
      | cons e right =>
        obtain ⟨rfl, rfl⟩ : c = e ∧ after = right ++ escape mode s := by simpa using hafter
        exact ⟨[], d, s, before, right, rfl, hchar, rfl⟩

/-- Escaping can be undone, goes character by character, and leaves nothing that TeX gives a
meaning to. -/
theorem reversible_and_harmless (mode : Mode) :
    (∀ s, unescape mode (escape mode s) = s) ∧ Function.Injective (escape mode) ∧
      (∀ s t, escape mode (s ++ t) = escape mode s ++ escape mode t) ∧
        ∀ s, Harmless mode (escape mode s) := by
  refine ⟨unescape_escape mode, fun s t h => escape_inj h, escape_append mode, fun s => ?_⟩
  constructor
  case held =>
    intro before c after h
    obtain ⟨front, d, back, left, right, rfl, hchar, rfl⟩ := exists_of_escape_eq_append h
    exact (held_of_escapeChar hchar).append _ _
  case apart => exact (leads_escape mode s).absent rfl
  case whole => exact (leads_escape mode s).2

end MathLine.Tex
