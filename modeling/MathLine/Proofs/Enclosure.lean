import MathLine.Proofs.Brackets

set_option autoImplicit false

/-!
# Places between brackets

A place in a text is enclosed if an opening bracket before it has its partner after it.  A
bracket and its partner are told by the text between them, which is balanced.

`enclosed_iff` says the same by counting: some bracket waits for its partner at the place,
and what follows the place closes more brackets than it opens.  A text in front changes
nothing about a place if it leaves no bracket open that is closed behind it
(`Unclosed.enclosed_append_iff`).
-/

namespace MathLine.Text

/-- The place between `front` and `back` stands between an opening bracket and its partner. -/
def Enclosed (front back : List Char) : Prop :=
  ∃ before opened closed after, front = before ++ '(' :: opened ∧ back = closed ++ ')' :: after ∧
    IsBalanced (opened ++ closed)

/-- Behind the last bracket that waits for its partner a text is balanced. -/
theorem exists_open_of_opening {s : List Char} (h : 0 < (loose s).opening) :
    ∃ before opened, s = before ++ '(' :: opened ∧ IsBalanced opened := by
  induction s with
  | nil => exact absurd h (by decide)
  | cons c s ih =>
    by_cases hs : 0 < (loose s).opening
    · obtain ⟨before, opened, rfl, hopened⟩ := ih hs
      exact ⟨c :: before, opened, rfl, hopened⟩
    · by_cases hc : c = '('
      · subst hc
        rw [loose_open] at h
        simp only [Loose.beside] at h
        refine ⟨[], s, rfl, Loose.eq_mk_iff.2 ?_⟩
        omega
      · rw [loose_cons, Loose.pass, if_neg hc] at h
        split at h <;> simp only [Loose.none, Loose.beside] at h <;> simp at h <;> omega

/-- A place is enclosed exactly when a bracket waits there and what follows closes one. -/
theorem enclosed_iff {front back : List Char} :
    Enclosed front back ↔ 0 < (loose front).opening ∧ 0 < (loose back).closing := by
  constructor
  · rintro ⟨before, opened, closed, after, rfl, rfl, hbalanced⟩
    rw [IsBalanced, loose_append] at hbalanced
    have hcounts := Loose.eq_mk_iff.1 hbalanced
    simp only [Loose.beside] at hcounts
    rw [loose_append, loose_append, loose_open, loose_close]
    simp only [Loose.beside]
    omega
  · rintro ⟨hfront, hback⟩
    obtain ⟨before, opened, rfl, hopened⟩ := exists_open_of_opening hfront
    cases hcut : splitAtClosing 0 back with
    | none =>
      have := splitAtClosing_eq_none_iff.1 hcut
      omega
    | some cut =>
      obtain ⟨closed, after⟩ := cut
      obtain ⟨rfl, hclosed⟩ := splitAtClosing_eq_some_iff.1 hcut
      exact ⟨before, opened, closed, after, rfl, rfl,
        (loose_append_of_balanced closed hopened).trans hclosed⟩

/-- No bracket of `s` has its partner in the text `rest` after it. -/
def Unclosed (s rest : List Char) : Prop := (loose s).opening = 0 ∨ (loose rest).closing = 0

/-- What stands in front encloses no place if none of its brackets is closed. -/
theorem Unclosed.enclosed_append_iff {s front back : List Char} (h : Unclosed s (front ++ back)) :
    Enclosed (s ++ front) back ↔ Enclosed front back := by
  rw [Unclosed, loose_append] at h
  rw [enclosed_iff, enclosed_iff, loose_append]
  simp only [Loose.beside] at h ⊢
  omega

/-- Nothing encloses the start of a text. -/
theorem not_enclosed_start (back : List Char) : ¬Enclosed [] back := by
  rw [enclosed_iff, loose_nil]
  simp [Loose.none]

end MathLine.Text
