import Mathlib.Data.List.Basic

set_option autoImplicit false

/-!
# Cutting a text at a separator

A list of texts that is written as one text, with a separator between neighbours, can be
taken apart again if the separator stands nowhere else.  `pieces` cuts a text wherever
the separator stands, and `pieces_intercalate` says when this undoes the joining: no text
of the list has the separator in it, and the separator is borderless.

The second condition is about places that straddle a joint.  A separator that begins
before a joint and ends inside of it, or the other way round, would overlap with the
separator at the joint, and then some end of the separator were also a beginning of it.
-/

namespace MathLine.Text

/-- Cuts a text wherever the separator stands, from left to right.  The first `skip`
characters belong to a separator that has begun before them. -/
def piecesAfter (separator : List Char) : (skip : Nat) → List Char → List (List Char)
  | _, [] => [[]]
  | skip + 1, _ :: s => piecesAfter separator skip s
  | 0, c :: s =>
    if separator.isPrefixOf (c :: s) then [] :: piecesAfter separator (separator.length - 1) s
    else (piecesAfter separator 0 s).modifyHead (c :: ·)

/-- What a text falls into when it is cut wherever the separator stands. -/
def pieces (separator s : List Char) : List (List Char) := piecesAfter separator 0 s

/-- No end of `s` but `s` itself is a beginning of it, so that two places at which `s` stands
do not overlap. -/
def Borderless (s : List Char) : Prop := ∀ k < s.length, 0 < k → ¬ s.drop k <+: s

instance (s : List Char) : Decidable (Borderless s) :=
  inferInstanceAs (Decidable (∀ k < s.length, 0 < k → ¬ s.drop k <+: s))

variable {separator : List Char}

theorem piecesAfter_length (skipped s : List Char) :
    piecesAfter separator skipped.length (skipped ++ s) = pieces separator s := by
  induction skipped with
  | nil => rfl
  | cons c skipped ih => exact ih

/-- At a separator a piece ends. -/
theorem pieces_separator_append (hsep : separator ≠ []) (s : List Char) :
    pieces separator (separator ++ s) = [] :: pieces separator s := by
  obtain ⟨c, more, rfl⟩ := List.exists_cons_of_ne_nil hsep
  have hprefix : (c :: more).isPrefixOf (c :: (more ++ s)) = true := by simp
  rw [pieces, List.cons_append, piecesAfter, if_pos hprefix]
  exact congrArg _ (piecesAfter_length more s)

/-- Anywhere else a piece goes on. -/
theorem pieces_cons {c : Char} {s : List Char} (h : ¬ separator <+: c :: s) :
    pieces separator (c :: s) = (pieces separator s).modifyHead (c :: ·) := by
  rw [pieces, piecesAfter, if_neg (by simpa using h)]
  rfl

/-- A text without the separator is one piece. -/
theorem pieces_of_absent {s : List Char} (h : ¬ separator <:+: s) :
    pieces separator s = [s] := by
  induction s with
  | nil => rfl
  | cons c s ih =>
    have hprefix : ¬ separator <+: c :: s := fun hp => h hp.isInfix
    have hrest : ¬ separator <:+: s := fun hi => h (hi.trans (List.suffix_cons c s).isInfix)
    rw [pieces_cons hprefix, ih hrest]
    rfl

/-- A borderless separator does not begin in a text that is without it and followed by it. -/
theorem Borderless.not_begins (hborder : Borderless separator) {s : List Char} (hne : s ≠ [])
    (h : ¬ separator <:+: s) (rest : List Char) : ¬ separator <+: s ++ (separator ++ rest) := by
  intro hprefix
  rcases List.prefix_or_prefix_of_prefix hprefix (List.prefix_append s _) with hin | hover
  · exact h hin.isInfix
  · -- the separator is `s` and an end of its own, with which the next separator begins
    obtain ⟨ending, rfl⟩ := hover
    have hbegin := (List.prefix_append_right_inj s).1 hprefix
    have hend : ending <+: s ++ ending :=
      List.prefix_of_prefix_length_le hbegin (List.prefix_append _ rest) (by simp)
    have hlength : s.length < (s ++ ending).length := by
      rw [List.length_append]
      have : ending ≠ [] := by
        rintro rfl
        exact h (by simp)
      have := List.length_pos_iff.2 this
      omega
    apply hborder s.length hlength (List.length_pos_iff.2 hne)
    rwa [List.drop_left]

/-- A text without the separator is the first piece of what it makes with a separator after
it. -/
theorem pieces_append (hsep : separator ≠ []) (hborder : Borderless separator)
    {s : List Char} (h : ¬ separator <:+: s) (rest : List Char) :
    pieces separator (s ++ (separator ++ rest)) = s :: pieces separator rest := by
  induction s with
  | nil => exact pieces_separator_append hsep rest
  | cons c s ih =>
    have hprefix := hborder.not_begins (List.cons_ne_nil c s) h rest
    have hrest : ¬ separator <:+: s := fun hi => h (hi.trans (List.suffix_cons c s).isInfix)
    rw [List.cons_append] at hprefix ⊢
    rw [pieces_cons hprefix, ih hrest]
    rfl

/-- Texts without the separator are the pieces of what they make with separators between
them. -/
theorem pieces_intercalate (hsep : separator ≠ []) (hborder : Borderless separator)
    {parts : List (List Char)} (hparts : parts ≠ [])
    (h : ∀ part ∈ parts, ¬ separator <:+: part) :
    pieces separator (separator.intercalate parts) = parts := by
  induction parts with
  | nil => exact absurd rfl hparts
  | cons part rest ih =>
    have hpart := h part List.mem_cons_self
    have hrest : ∀ other ∈ rest, ¬ separator <:+: other := by
      intro other hother
      exact h other (List.mem_cons_of_mem part hother)
    cases rest with
    | nil => rw [List.intercalate_singleton, pieces_of_absent hpart]
    | cons next more =>
      rw [List.intercalate_cons_cons, List.append_assoc, pieces_append hsep hborder hpart,
        ih (List.cons_ne_nil next more) hrest]

example : pieces ", ".toList "a, b,c, ".toList = ["a".toList, "b,c".toList, []] := by decide

/-- Where the separator first stands is determined by the text. -/
theorem append_separator_inj (hsep : separator ≠ []) (hborder : Borderless separator)
    {s t rest more : List Char} (hs : ¬ separator <:+: s) (ht : ¬ separator <:+: t)
    (h : s ++ (separator ++ rest) = t ++ (separator ++ more)) : s = t ∧ rest = more := by
  have hpieces := congrArg (pieces separator) h
  rw [pieces_append hsep hborder hs, pieces_append hsep hborder ht] at hpieces
  obtain rfl : s = t := (List.cons.inj hpieces).1
  exact ⟨rfl, List.append_cancel_left (List.append_cancel_left h)⟩

end MathLine.Text
