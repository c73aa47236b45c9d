import MathLine.Proofs.Lookahead
import MathLine.Proofs.OffsetReading

set_option autoImplicit false

/-!
# Finding a function name by its word

The name that a text starts with is searched by going through the lexicon from its first entry
on, although names in it are fronts of other names or stand there twice.  None of this shows in
what is found: a name counts only where its word ends, so a name that counts is all of the word
that the text starts with, and the search comes to looking that word up (`looksUpWord`).

The search is one over a list of entries, and `nameAmong_eq_ok_of_words` says that nothing of
the list matters to it but which names are there.
-/

namespace MathLine

open MathLine.Text

/-- A text starts with a name and its word ends there exactly when the name is all of the word
that the text starts with. -/
theorem Lexicon.isSome_afterName?_iff {name : String} {s : List Char}
    (hname : ∀ c ∈ name.toList, isWordChar c = true) :
    (afterName? name s).isSome = true ↔ leadingWord s = name.toList := by
  rw [Option.isSome_iff_exists]
  simp only [afterName?_eq_some_iff]
  constructor
  · rintro ⟨rest, rfl, hstop⟩
    exact leadingWord_append_of_stop hname hstop
  · intro hword
    refine ⟨afterWord s, ?_, startsInWord_afterWord s⟩
    rw [← hword, leadingWord_append_afterWord]

/-- The search through a list of names that are words finds the word that the text starts with,
if that is in the list. -/
theorem Piece.nameAmong_eq_ok_of_words {table : List (Category × String)}
    (hwords : ∀ entry ∈ table, ∀ c ∈ entry.2.toList, isWordChar c = true) (s : List Char) :
    nameAmong table s =
      .ok (if String.ofList (leadingWord s) ∈ table.map (·.2) then
        some (String.ofList (leadingWord s)) else none) := by
  induction table with
  | nil => rfl
  | cons entry table ih =>
    obtain ⟨hentry, htable⟩ := List.forall_mem_cons.1 hwords
    have hmatch := Lexicon.isSome_afterName?_iff (s := s) hentry
    rw [nameAmong, endsAfter_eq_ok, ok_bind, ih htable, List.map_cons]
    by_cases hword : leadingWord s = entry.2.toList
    · rw [if_pos (hmatch.2 hword), hword, String.ofList_toList, if_pos List.mem_cons_self]
      rfl
    · have hne : String.ofList (leadingWord s) ≠ entry.2 := by
        intro heq
        exact hword (by rw [← heq, String.toList_ofList])
      rw [if_neg (mt hmatch.1 hword)]
      simp only [List.mem_cons, hne, false_or]

namespace Lexicon

/-- The function name that `s` starts with. -/
def leadingName? (s : List Char) : Option String := (leading? s).map (·.1)

theorem leadingName?_eq (s : List Char) :
    leadingName? s =
      if contains (String.ofList (leadingWord s)) then some (String.ofList (leadingWord s))
      else none := by
  rw [leadingName?, leading?_eq]
  split <;> rfl

/-- Finding the name that `s` starts with is looking up the word that `s` starts with. -/
structure LooksUpWord (s : List Char) : Prop where
  found : ∀ name,
    leadingName? s = some name ↔ String.ofList (leadingWord s) = name ∧ contains name = true
  /-- no two names match the text -/
  unique : ∀ entry ∈ entries, ∀ other ∈ entries, (afterName? entry.2 s).isSome = true →
    (afterName? other.2 s).isSome = true → entry.2 = other.2
  /-- the search through any list with the same names finds the same -/
  any_order : ∀ table : List (Category × String),
    (∀ name, name ∈ table.map (·.2) ↔ name ∈ entries.map (·.2)) →
      Piece.nameAmong table s = .ok (leadingName? s)
  /-- a name that is only a front of the word is not found -/
  no_front : ∀ name, name.toList <+: leadingWord s → name.toList ≠ leadingWord s →
    leadingName? s ≠ some name

/-- In every text, the function name that the text starts with is found by looking up its first
word. -/
theorem looksUpWord (s : List Char) : LooksUpWord s := by
  have hfound (name : String) :
      leadingName? s = some name ↔
        String.ofList (leadingWord s) = name ∧ contains name = true := by
    rw [leadingName?_eq, Option.ite_none_right_eq_some, Option.some.injEq]
    constructor
    · rintro ⟨hname, rfl⟩
      exact ⟨rfl, hname⟩
    · rintro ⟨rfl, hname⟩
      exact ⟨hname, rfl⟩
  have hword {name : String} (h : name ∈ entries.map (·.2)) :
      ∀ c ∈ name.toList, isWordChar c = true :=
    (isWord_of_contains (contains_eq_true_iff.2 h)).2
  constructor
  case found => exact hfound
  case unique =>
    intro entry hentry other hother hmatch hmatch'
    have hleading := (isSome_afterName?_iff (hword (List.mem_map_of_mem hentry))).1 hmatch
    have hleading' := (isSome_afterName?_iff (hword (List.mem_map_of_mem hother))).1 hmatch'
    exact String.toList_inj.1 (hleading.symm.trans hleading')
  case any_order =>
    intro table hsame
    have hwords : ∀ entry ∈ table, ∀ c ∈ entry.2.toList, isWordChar c = true := by
      intro entry hentry
      exact hword ((hsame entry.2).1 (List.mem_map_of_mem hentry))
    rw [Piece.nameAmong_eq_ok_of_words hwords, leadingName?_eq]
    simp only [hsame, contains_eq_true_iff]
  case no_front =>
    intro name _ hne hname
    obtain ⟨rfl, -⟩ := (hfound name).1 hname
    exact hne String.toList_ofList

/-- A name is not found at the front of a longer word, be it a name as well. -/
example : leadingName? "sinh√".toList = some "sinh" ∧ leadingName? "sinhx".toList = none := by
  decide +kernel

end Lexicon

end MathLine
