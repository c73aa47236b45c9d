import Mathlib.Data.List.Basic
import MathLine.Tex.Escape
import MathLine.Text.Word

set_option autoImplicit false

/-!
# Undoing an escape

Escaping writes ten characters as something else and leaves all others as they are.  What
it writes for those ten begins with a backslash, which is one of the ten, so an escape is
never mistaken for a character that stands for itself; and no two escapes of one mode agree
as far as the shorter one goes.  `unescape` reads escaped text back in this way, and
`unescape_escape` says that nothing is lost.
-/

namespace MathLine.Tex

open MathLine.Text

/-- The characters that are not written as themselves. -/
def special : List Char := backslashed ++ ['\\', '^', '~']

/-- The character that an escape at the start of `s` stands for, and what follows the
escape. -/
def escaped? (mode : Mode) (s : List Char) : Option (Char × List Char) :=
  special.findSome? fun c => (dropLeading? (escapeChar mode c) s).map fun rest => (c, rest)

theorem escapeChar_ne_nil (mode : Mode) (c : Char) : escapeChar mode c ≠ [] := by
  unfold escapeChar
  split
  · simp
  · split <;> simp [braced]

/-- Taking an escape makes a text shorter. -/
theorem length_of_escaped? {mode : Mode} {s rest : List Char} {c : Char}
    (h : escaped? mode s = some (c, rest)) : rest.length < s.length := by
  obtain ⟨d, -, hd⟩ := List.exists_of_findSome?_eq_some h
  obtain ⟨after, hafter, heq⟩ := Option.map_eq_some_iff.1 hd
  obtain ⟨rfl, rfl⟩ : d = c ∧ after = rest := by simpa using heq
  have hpos := List.length_pos_iff.2 (escapeChar_ne_nil mode d)
  rw [dropLeading?_eq_some_iff.1 hafter, List.length_append]
  omega

/-- Reads escaped text back. -/
def unescape (mode : Mode) : List Char → List Char
  | [] => []
  | c :: s =>
    match _h : escaped? mode (c :: s) with
    | some (d, rest) => d :: unescape mode rest
    | none => c :: unescape mode s
termination_by s => s.length
decreasing_by
  · exact length_of_escaped? ‹_›
  · simp

@[simp] theorem unescape_nil (mode : Mode) : unescape mode [] = [] := by
  rw [unescape]

theorem unescape_of_escaped? {mode : Mode} {s rest : List Char} {c : Char}
    (h : escaped? mode s = some (c, rest)) : unescape mode s = c :: unescape mode rest := by
  cases s with
  | nil => exact absurd (length_of_escaped? h) (Nat.not_lt_zero _)
  | cons d s =>
    rw [unescape]
    split
    · next hescaped =>
      obtain ⟨rfl, rfl⟩ : _ = c ∧ _ = rest := by simpa using hescaped.symm.trans h
      rfl
    · next hescaped => exact absurd (hescaped.symm.trans h) (by simp)

/-- An escape stands for the character that it was written for. -/
theorem escaped?_escapeChar_append (mode : Mode) {c : Char} (h : c ∈ special) (s : List Char) :
    escaped? mode (escapeChar mode c ++ s) = some (c, s) := by
  simp only [special, backslashed, List.cons_append, List.nil_append, List.mem_cons,
    List.not_mem_nil, or_false] at h
  rcases h with rfl | rfl | rfl | rfl | rfl | rfl | rfl | rfl | rfl | rfl <;>
    cases mode <;> rfl

/-- Every escape begins with a backslash. -/
theorem escapeChar_of_special (mode : Mode) {c : Char} (h : c ∈ special) :
    ∃ rest, escapeChar mode c = '\\' :: rest := by
  simp only [special, backslashed, List.cons_append, List.nil_append, List.mem_cons,
    List.not_mem_nil, or_false] at h
  rcases h with rfl | rfl | rfl | rfl | rfl | rfl | rfl | rfl | rfl | rfl <;>
    cases mode <;> exact ⟨_, rfl⟩

theorem shownBy?_of_not_special (mode : Mode) {c : Char} (h : c ∉ special) :
    shownBy? mode c = none := by
  unfold shownBy?
  split <;> simp_all [special, backslashed]

theorem escapeChar_of_not_special (mode : Mode) {c : Char} (h : c ∉ special) :
    escapeChar mode c = [c] := by
  have hplain : backslashed.contains c = false := by
    rw [List.contains_eq_mem, decide_eq_false_iff_not]
    exact fun hmem => h (List.mem_append_left _ hmem)
  rw [escapeChar, hplain, shownBy?_of_not_special mode h]
  rfl

/-- Where no backslash stands there is no escape. -/
theorem escaped?_cons_of_ne (mode : Mode) {c : Char} (h : c ≠ '\\') (s : List Char) :
    escaped? mode (c :: s) = none := by
  rw [escaped?, List.findSome?_eq_none_iff]
  intro d hd
  obtain ⟨rest, hrest⟩ := escapeChar_of_special mode hd
  simp [hrest, dropLeading?, h.symm]

theorem unescape_cons_of_ne (mode : Mode) {c : Char} (h : c ≠ '\\') (s : List Char) :
    unescape mode (c :: s) = c :: unescape mode s := by
  rw [unescape]
  split
  · next hescaped =>
    rw [escaped?_cons_of_ne mode h] at hescaped
    exact absurd hescaped (by simp)
  · rfl

theorem unescape_escapeChar_append (mode : Mode) (c : Char) (s : List Char) :
    unescape mode (escapeChar mode c ++ s) = c :: unescape mode s := by
  by_cases h : c ∈ special
  · exact unescape_of_escaped? (escaped?_escapeChar_append mode h s)
  · have hne : c ≠ '\\' := by
      rintro rfl
      exact h (by decide)
    rw [escapeChar_of_not_special mode h]
    exact unescape_cons_of_ne mode hne s

/-- Reading escaped text back gives the text. -/
theorem unescape_escape (mode : Mode) (s : List Char) : unescape mode (escape mode s) = s := by
  induction s with
  | nil => exact unescape_nil mode
  | cons c s ih => rw [escape_cons, unescape_escapeChar_append, ih]

/-- Texts that are escaped alike are alike. -/
theorem escape_inj {mode : Mode} {s t : List Char} (h : escape mode s = escape mode t) :
    s = t := by
  rw [← unescape_escape mode s, h, unescape_escape]

end MathLine.Tex
