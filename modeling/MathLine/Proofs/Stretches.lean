set_option autoImplicit false

/-!
# Stretches of a text

A class of characters cuts a text into stretches: the longest pieces without a character of
the class.  Blanks cut a line into what is typed together, and all that can not stand in a
word cuts it into words.

The stretches on the two sides of a separating character are those of the two sides
(`stretches_append_separator`), and a text in which nothing separates is one stretch
(`stretches_of_whole`).  These two are all that is known of `stretches` outside of this
module.
-/

namespace MathLine.Text

/-- The longest pieces of `s` in which no character separates, from left to right. -/
def stretches (separates : Char → Bool) (s : List Char) : List (List Char) :=
  (s.splitOnP separates).filter fun piece => !piece.isEmpty

variable {separates : Char → Bool}

@[simp] theorem stretches_nil : stretches separates [] = [] := rfl

/-- A text in which nothing separates is one stretch. -/
theorem stretches_of_whole {s : List Char} (hne : s ≠ []) (h : ∀ c ∈ s, separates c = false) :
    stretches separates s = [s] := by
  rw [stretches, List.splitOnP_eq_singleton h, List.filter_cons_of_pos (by simpa using hne),
    List.filter_nil]

/-- At a separating character a text falls into two. -/
theorem stretches_append_separator {c : Char} (s t : List Char) (h : separates c = true) :
    stretches separates (s ++ c :: t) = stretches separates s ++ stretches separates t := by
  rw [stretches, List.splitOnP_append_cons s t h, List.filter_append]
  rfl

theorem stretches_separator_cons {c : Char} (t : List Char) (h : separates c = true) :
    stretches separates (c :: t) = stretches separates t :=
  stretches_append_separator [] t h

/-- A stretch ends where a separating character follows, or nothing. -/
theorem stretches_append {s t : List Char} (h : ∀ c ∈ t.head?, separates c = true) :
    stretches separates (s ++ t) = stretches separates s ++ stretches separates t := by
  cases t with
  | nil => simp
  | cons c t =>
    have hc := h c rfl
    rw [stretches_append_separator s t hc, stretches_separator_cons t hc]

/-- Separating characters in front of a text belong to no stretch of it. -/
theorem stretches_separators_append {gap : List Char} (t : List Char)
    (h : ∀ c ∈ gap, separates c = true) :
    stretches separates (gap ++ t) = stretches separates t := by
  induction gap with
  | nil => rfl
  | cons c gap ih =>
    rw [List.cons_append, stretches_separator_cons _ (h c List.mem_cons_self)]
    exact ih fun d hd => h d (List.mem_cons_of_mem c hd)

end MathLine.Text
