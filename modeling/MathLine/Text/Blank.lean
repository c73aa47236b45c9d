set_option autoImplicit false

/-!
# Text: blank characters

A line of typed math may be spaced out freely, so reading has to know which
characters are blank.  They are the characters with the Unicode property
White_Space: the table `blankRanges` lists them in ascending order, and `isBlank`
looks a character up in it.

Two questions are asked of blanks.  `skipBlanks` passes over those a text starts
with, and `isBlankText` says that nothing else is there.  `skipBlanks_eq_nil_iff`
ties the two together: a text is blank exactly when skipping leaves nothing.
-/

namespace MathLine.Text

/-- The code points with the property White_Space, as inclusive ranges in
ascending order. -/
def blankRanges : List (Nat × Nat) :=
  [(0x09, 0x0D), (0x20, 0x20), (0x85, 0x85), (0xA0, 0xA0), (0x1680, 0x1680),
   (0x2000, 0x200A), (0x2028, 0x2029), (0x202F, 0x202F), (0x205F, 0x205F),
   (0x3000, 0x3000)]

/-- The table names 25 characters. -/
example : (blankRanges.map fun range => range.2 + 1 - range.1).sum = 25 := by decide

/-- Whether the code point of `c` is in one of the ranges. -/
def inRanges (ranges : List (Nat × Nat)) (c : Char) : Bool :=
  ranges.any fun range => Nat.ble range.1 c.toNat && Nat.ble c.toNat range.2

/-- Whether `c` is white space. -/
def isBlank (c : Char) : Bool := inRanges blankRanges c

/-- Whether `s` holds white space only.  The empty text does. -/
def isBlankText (s : List Char) : Bool := s.all isBlank

/-- The blanks that `s` starts with. -/
def leadingBlanks (s : List Char) : List Char := s.takeWhile isBlank

/-- The text `s` from its first character that is not blank. -/
def skipBlanks (s : List Char) : List Char := s.dropWhile isBlank

/-! ## What skipping does -/

@[simp] theorem skipBlanks_nil : skipBlanks [] = [] := rfl

@[simp] theorem leadingBlanks_append_skipBlanks (s : List Char) :
    leadingBlanks s ++ skipBlanks s = s :=
  List.takeWhile_append_dropWhile

theorem skipBlanks_cons_of_blank {c : Char} {s : List Char} (h : isBlank c = true) :
    skipBlanks (c :: s) = skipBlanks s := by
  simp [skipBlanks, h]

theorem skipBlanks_cons_of_not_blank {c : Char} {s : List Char} (h : isBlank c = false) :
    skipBlanks (c :: s) = c :: s := by
  simp [skipBlanks, h]

/-- Blanks in front of a text are skipped. -/
theorem skipBlanks_blanks_append {blanks : List Char} (s : List Char)
    (h : isBlankText blanks = true) : skipBlanks (blanks ++ s) = skipBlanks s :=
  List.dropWhile_append_of_pos (List.all_eq_true.1 h)

theorem isBlankText_append {s t : List Char} :
    isBlankText (s ++ t) = true ↔ isBlankText s = true ∧ isBlankText t = true := by
  simp [isBlankText, List.all_append]

/-- Skipping stops at a character that is not blank. -/
theorem isBlank_of_skipBlanks_eq_cons {c : Char} {s rest : List Char}
    (h : skipBlanks s = c :: rest) : isBlank c = false := by
  have := List.head?_dropWhile_not isBlank s
  simp [show s.dropWhile isBlank = c :: rest from h] at this
  exact this

theorem length_skipBlanks_le (s : List Char) : (skipBlanks s).length ≤ s.length :=
  (List.dropWhile_suffix isBlank).length_le

/-- A text is blank exactly when skipping blanks leaves nothing of it. -/
theorem skipBlanks_eq_nil_iff {s : List Char} : skipBlanks s = [] ↔ isBlankText s = true := by
  induction s with
  | nil => simp [isBlankText]
  | cons c s ih =>
    cases h : isBlank c
    · simp [skipBlanks_cons_of_not_blank h, isBlankText, h]
    · rw [skipBlanks_cons_of_blank h, ih]
      simp [isBlankText, h]

end MathLine.Text
