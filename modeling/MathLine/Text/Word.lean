set_option autoImplicit false

/-!
# Text: words

A word is a run of ASCII letters and digits.  Words bound two things in a line of
math: a function name is recognised only where its word ends, and a script or a
denominator that has no brackets is the word that follows the sign.

`leadingWord` and `afterWord` cut a text after the word it starts with.
`leadingWord_append_afterWord` says that nothing is lost at the cut.
-/

namespace MathLine.Text

/-- Whether `c` can stand in a word: an ASCII letter or digit. -/
def isWordChar (c : Char) : Bool := c.isAlphanum

/-- Whether a text is a name: a word that starts with a letter. -/
def isName : List Char → Bool
  | [] => false
  | c :: s => c.isAlpha && s.all isWordChar

/-- The word that `s` starts with, possibly empty. -/
def leadingWord (s : List Char) : List Char := s.takeWhile isWordChar

/-- What follows the word that `s` starts with. -/
def afterWord (s : List Char) : List Char := s.dropWhile isWordChar

/-- Whether `s` goes on with a word character. -/
def startsInWord : List Char → Bool
  | [] => false
  | c :: _ => isWordChar c

/-- What follows `word` in a text that starts with it. -/
def dropLeading? : (word s : List Char) → Option (List Char)
  | [], s => some s
  | _ :: _, [] => none
  | c :: word, d :: s => if c = d then dropLeading? word s else none

/-! ## What a cut keeps -/

@[simp] theorem leadingWord_append_afterWord (s : List Char) :
    leadingWord s ++ afterWord s = s :=
  List.takeWhile_append_dropWhile

theorem isWordChar_of_mem_leadingWord {c : Char} {s : List Char} (h : c ∈ leadingWord s) :
    isWordChar c = true :=
  List.all_eq_true.1 List.all_takeWhile c h

theorem length_leadingWord_le (s : List Char) : (leadingWord s).length ≤ s.length :=
  (List.takeWhile_prefix isWordChar).length_le

theorem length_afterWord_le (s : List Char) : (afterWord s).length ≤ s.length :=
  (List.dropWhile_suffix isWordChar).length_le

/-- The word is as long as it can be: what follows does not go on with it. -/
theorem startsInWord_afterWord (s : List Char) : startsInWord (afterWord s) = false := by
  have := List.head?_dropWhile_not isWordChar s
  rw [afterWord]
  cases h : s.dropWhile isWordChar with
  | nil => rfl
  | cons c rest => simpa [h, startsInWord] using this

theorem startsInWord_eq_true_iff {s : List Char} :
    startsInWord s = true ↔ leadingWord s ≠ [] := by
  cases s with
  | nil => simp [startsInWord, leadingWord]
  | cons c s => cases h : isWordChar c <;> simp [startsInWord, leadingWord, h]

/-- What `dropLeading?` gives is what follows the word, and nothing else. -/
theorem dropLeading?_eq_some_iff {word s rest : List Char} :
    dropLeading? word s = some rest ↔ s = word ++ rest := by
  induction word generalizing s with
  | nil => simp [dropLeading?, eq_comm]
  | cons c word ih =>
    cases s with
    | nil => simp [dropLeading?]
    | cons d s =>
      by_cases h : c = d
      · simp [dropLeading?, h, ih]
      · simp [dropLeading?, h, Ne.symm h]

end MathLine.Text
