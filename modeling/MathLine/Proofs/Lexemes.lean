import MathLine.Lexicon
import MathLine.Proofs.Brackets
import MathLine.Token

set_option autoImplicit false

/-!
# What lexemes are made of

Words, numbers and function names are cut from a text by looking for the place where
they end.  This module says of each what the piece is that is cut off, and when a piece
put in front of other text is cut off whole.

* `IsWord` is a word as it stands in a text, and `leadingWord_append_of_stop` cuts it
  off again.
* `IsNumeral` is the form of a number, `isNumeral_leading` says that nothing else is
  ever cut off, and `leading_append_of_stop` that a number ends where no digit and no
  point follows.
* `leading?_eq_some_iff` says that a name is found exactly where a function name stands
  and no word goes on after it.
-/

namespace MathLine

namespace Text

/-! ## Classes of characters -/

theorem isBlank_iff {c : Char} :
    isBlank c = true ↔ ∃ range ∈ blankRanges, range.1 ≤ c.toNat ∧ c.toNat ≤ range.2 := by
  simp [isBlank, inRanges]

/-- The places of letters in the code table. -/
theorem toNat_of_isAlpha {c : Char} (h : c.isAlpha = true) :
    65 ≤ c.toNat ∧ c.toNat ≤ 90 ∨ 97 ≤ c.toNat ∧ c.toNat ≤ 122 := by
  rcases Bool.or_eq_true_iff.1 h with hupper | hlower
  · obtain ⟨hfirst, hlast⟩ : c.val ≥ 'A'.val ∧ c.val ≤ 'Z'.val := of_decide_eq_true hupper
    exact .inl ⟨UInt32.le_iff_toNat_le.1 hfirst, UInt32.le_iff_toNat_le.1 hlast⟩
  · obtain ⟨hfirst, hlast⟩ := Bool.and_eq_true_iff.1 hlower
    exact .inr ⟨UInt32.le_iff_toNat_le.1 (of_decide_eq_true hfirst),
      UInt32.le_iff_toNat_le.1 (of_decide_eq_true hlast)⟩

/-- The places of digits in the code table. -/
theorem toNat_of_isDigit {c : Char} (h : c.isDigit = true) : 48 ≤ c.toNat ∧ c.toNat ≤ 57 :=
  Char.isDigit_iff_toNat.1 h

theorem isDigit_of_isAlpha {c : Char} (h : c.isAlpha = true) : c.isDigit = false := by
  have halpha := toNat_of_isAlpha h
  rw [Bool.eq_false_iff]
  intro hdigit
  have := toNat_of_isDigit hdigit
  omega

theorem toNat_of_isWordChar {c : Char} (h : isWordChar c = true) :
    48 ≤ c.toNat ∧ c.toNat ≤ 57 ∨ 65 ≤ c.toNat ∧ c.toNat ≤ 90 ∨
      97 ≤ c.toNat ∧ c.toNat ≤ 122 := by
  rw [isWordChar, Char.isAlphanum, Bool.or_eq_true] at h
  rcases h with h | h
  · exact .inr (toNat_of_isAlpha h)
  · exact .inl (toNat_of_isDigit h)

theorem isBlank_of_isWordChar {c : Char} (h : isWordChar c = true) : isBlank c = false := by
  have hplace := toNat_of_isWordChar h
  rw [Bool.eq_false_iff]
  intro hblank
  obtain ⟨range, hmem, hrange⟩ := isBlank_iff.1 hblank
  simp only [blankRanges, List.mem_cons, List.not_mem_nil, or_false] at hmem
  rcases hmem with rfl | rfl | rfl | rfl | rfl | rfl | rfl | rfl | rfl | rfl <;> omega

theorem isBracket_of_isWordChar {c : Char} (h : isWordChar c = true) : isBracket c = false := by
  rw [isBracket, Bool.or_eq_false_iff, beq_eq_false_iff_ne, beq_eq_false_iff_ne]
  constructor <;> rintro rfl <;> exact absurd h (by decide)

theorem isBracket_of_isBlank {c : Char} (h : isBlank c = true) : isBracket c = false := by
  rw [isBracket, Bool.or_eq_false_iff, beq_eq_false_iff_ne, beq_eq_false_iff_ne]
  constructor <;> rintro rfl <;> exact absurd h (by decide)

theorem isBalanced_of_blank {s : List Char} (h : isBlankText s = true) : IsBalanced s := by
  apply isBalanced_of_no_bracket
  intro c hc
  exact isBracket_of_isBlank (List.all_eq_true.1 h c hc)

theorem isWordChar_of_isAlpha {c : Char} (h : c.isAlpha = true) : isWordChar c = true := by
  simp [isWordChar, Char.isAlphanum, h]

theorem isWordChar_of_isDigit {c : Char} (h : c.isDigit = true) : isWordChar c = true := by
  simp [isWordChar, Char.isAlphanum, h]

/-- A character that can stand in a word takes one byte. -/
theorem utf8Size_of_isWordChar {c : Char} (h : isWordChar c = true) : c.utf8Size = 1 := by
  have hplace := toNat_of_isWordChar h
  have hascii : c.val ≤ 0x7F := by
    rw [UInt32.le_iff_toNat_le]
    change c.toNat ≤ 127
    omega
  exact if_pos hascii

/-! ## Words -/

/-- A word as it stands in a text: letters and digits, at least one. -/
def IsWord (w : List Char) : Prop := w ≠ [] ∧ ∀ c ∈ w, isWordChar c = true

instance (w : List Char) : Decidable (IsWord w) :=
  inferInstanceAs (Decidable (_ ∧ _))

theorem isWord_leadingWord {s : List Char} (h : startsInWord s = true) :
    IsWord (leadingWord s) := by
  refine ⟨startsInWord_eq_true_iff.1 h, ?_⟩
  intro c hc
  exact isWordChar_of_mem_leadingWord hc

theorem IsWord.isBalanced {w : List Char} (h : IsWord w) : IsBalanced w := by
  apply isBalanced_of_no_bracket
  intro c hc
  exact isBracket_of_isWordChar (h.2 c hc)

theorem IsWord.startsInWord_append {w : List Char} (rest : List Char) (h : IsWord w) :
    startsInWord (w ++ rest) = true := by
  obtain ⟨hne, hword⟩ := h
  cases w with
  | nil => exact absurd rfl hne
  | cons c w => exact hword c List.mem_cons_self

theorem leadingWord_of_stop {s : List Char} (h : startsInWord s = false) :
    leadingWord s = [] := by
  cases s with
  | nil => rfl
  | cons c s => exact List.takeWhile_cons_of_neg (by simpa [startsInWord] using h)

theorem isEmpty_leadingWord (s : List Char) : (leadingWord s).isEmpty = !startsInWord s := by
  cases s with
  | nil => rfl
  | cons c s => cases hc : isWordChar c <;> simp [leadingWord, startsInWord, hc]

/-- A run of word characters is cut off whole where no word goes on. -/
theorem leadingWord_append_of_stop {w rest : List Char} (hw : ∀ c ∈ w, isWordChar c = true)
    (hstop : startsInWord rest = false) : leadingWord (w ++ rest) = w := by
  rw [leadingWord, List.takeWhile_append_of_pos hw]
  rw [show rest.takeWhile isWordChar = [] from leadingWord_of_stop hstop, List.append_nil]

theorem afterWord_append_of_stop {w rest : List Char} (hw : ∀ c ∈ w, isWordChar c = true)
    (hstop : startsInWord rest = false) : afterWord (w ++ rest) = rest := by
  have hcut := leadingWord_append_afterWord (w ++ rest)
  rw [leadingWord_append_of_stop hw hstop] at hcut
  exact List.append_cancel_left hcut

end Text

open Text

/-! ## Numbers -/

namespace Numeral

/-- The form of a number: one or more digits, or digits around a point, of which there
may be none on either side. -/
inductive IsNumeral : List Char → Prop where
  | whole {digits : List Char} (hne : digits ≠ [])
      (hdigits : ∀ c ∈ digits, c.isDigit = true) : IsNumeral digits
  | pointed {digits decimals : List Char} (hdigits : ∀ c ∈ digits, c.isDigit = true)
      (hdecimals : ∀ c ∈ decimals, c.isDigit = true) :
      IsNumeral (digits ++ '.' :: decimals)

/-- Whether a number may end in front of `s`: no digit and no point follows. -/
def stops : List Char → Bool
  | [] => true
  | c :: _ => !isStart c

theorem IsNumeral.isStart_of_mem {t : List Char} (h : IsNumeral t) :
    ∀ c ∈ t, isStart c = true := by
  intro c hc
  cases h with
  | whole _ hdigits => simp [isStart, hdigits c hc]
  | pointed hdigits hdecimals =>
    rw [List.mem_append, List.mem_cons] at hc
    rcases hc with hc | rfl | hc
    · simp [isStart, hdigits c hc]
    · rfl
    · simp [isStart, hdecimals c hc]

theorem isBlank_of_isStart {c : Char} (h : isStart c = true) : isBlank c = false := by
  rw [isStart, Bool.or_eq_true, beq_iff_eq] at h
  rcases h with hdigit | rfl
  · exact isBlank_of_isWordChar (isWordChar_of_isDigit hdigit)
  · rfl

theorem IsNumeral.ne_nil {t : List Char} (h : IsNumeral t) : t ≠ [] := by
  cases h with
  | whole hne _ => exact hne
  | pointed _ _ => simp

theorem isDigit_of_mem_takeWhile {c : Char} {s : List Char}
    (h : c ∈ s.takeWhile Char.isDigit) : c.isDigit = true :=
  List.all_eq_true.1 List.all_takeWhile c h

/-- What is cut off as a number has the form of one. -/
theorem isNumeral_leading {s : List Char} (h : leading s ≠ []) : IsNumeral (leading s) := by
  unfold leading at h ⊢
  split at h
  · next rest _ =>
    exact .pointed (fun _ => isDigit_of_mem_takeWhile) (fun _ => isDigit_of_mem_takeWhile)
  · rw [List.append_nil] at h ⊢
    exact .whole h fun _ => isDigit_of_mem_takeWhile

/-- A text that is cut off as a number from what follows it has the form of one. -/
theorem isNumeral_of_leading_append {t rest : List Char} (hne : t ≠ [])
    (hlead : leading (t ++ rest) = t) : IsNumeral t := by
  have hcut : leading (t ++ rest) ≠ [] := by
    rw [hlead]
    exact hne
  have hnumeral := isNumeral_leading hcut
  rwa [hlead] at hnumeral

theorem takeWhile_isDigit_of_stops {s : List Char} (h : stops s = true) :
    s.takeWhile Char.isDigit = [] ∧ s.dropWhile Char.isDigit = s := by
  cases s with
  | nil => exact ⟨rfl, rfl⟩
  | cons c s =>
    have hdigit : c.isDigit = false := by
      simp only [stops, isStart, Bool.not_eq_true', Bool.or_eq_false_iff] at h
      exact h.1
    simp [hdigit]

/-- A number is cut off whole where no digit and no point follows. -/
theorem leading_append_of_stop {t rest : List Char} (ht : IsNumeral t)
    (hstop : stops rest = true) : leading (t ++ rest) = t := by
  obtain ⟨htake, hdrop⟩ := takeWhile_isDigit_of_stops hstop
  cases ht with
  | whole hne hdigits =>
    rw [leading, List.takeWhile_append_of_pos hdigits, List.dropWhile_append_of_pos hdigits,
      htake, hdrop, List.append_nil]
    split
    · simp [stops, isStart] at hstop
    · rw [List.append_nil]
  | @pointed digits decimals hdigits hdecimals =>
    have hpoint : Char.isDigit '.' = false := rfl
    rw [leading, List.append_assoc, List.takeWhile_append_of_pos hdigits,
      List.dropWhile_append_of_pos hdigits, List.cons_append,
      List.takeWhile_cons_of_neg (by simp [hpoint]),
      List.dropWhile_cons_of_neg (by simp [hpoint])]
    simp only [List.append_nil]
    rw [List.takeWhile_append_of_pos hdecimals, htake, List.append_nil]

/-- A number that is cut off starts as numbers do. -/
theorem isStart_of_leading_ne_nil {c : Char} {s : List Char} (h : leading (c :: s) ≠ []) :
    isStart c = true := by
  cases hstart : isStart c with
  | true => rfl
  | false =>
    have hne : c.isDigit = false ∧ c ≠ '.' := by simpa [isStart] using hstart
    exact absurd (by simp [leading, hne.1, hne.2]) h

end Numeral

/-! ## Function names -/

namespace Lexicon

/-- A function name is a word. -/
theorem isWord_of_contains {name : String} (h : contains name = true) : IsWord name.toList := by
  refine ⟨ne_nil_of_contains h, ?_⟩
  intro c hc
  have hname := isName_of_contains h
  cases hlist : name.toList with
  | nil => simp [hlist] at hc
  | cons d tail =>
    rw [hlist, isName, Bool.and_eq_true, List.all_eq_true] at hname
    rw [hlist, List.mem_cons] at hc
    rcases hc with rfl | hc
    · exact isWordChar_of_isAlpha hname.1
    · exact hname.2 c hc

/-- A single letter is no function name. -/
theorem length_of_contains {name : String} (h : contains name = true) :
    1 < name.toList.length := by
  have key : ∀ entry ∈ entries, 1 < entry.2.toList.length := by decide +kernel
  obtain ⟨entry, hmem, rfl⟩ := List.mem_map.1 (contains_eq_true_iff.1 h)
  exact key entry hmem

/-- A name that is found is the whole word that the text starts with. -/
theorem leadingWord_of_leading? {s rest : List Char} {name : String}
    (h : leading? s = some (name, rest)) : leadingWord s = name.toList := by
  obtain ⟨hname, rfl, hstop⟩ := of_leading?_eq_some h
  exact leadingWord_append_of_stop (isWord_of_contains hname).2 hstop

/-- A name is found exactly where a function name stands and no word goes on. -/
theorem leading?_eq_some_iff {s rest : List Char} {name : String} :
    leading? s = some (name, rest) ↔
      contains name = true ∧ s = name.toList ++ rest ∧ startsInWord rest = false := by
  constructor
  · exact of_leading?_eq_some
  · rintro ⟨hname, rfl, hstop⟩
    obtain ⟨entry, hmem, rfl⟩ := List.mem_map.1 (contains_eq_true_iff.1 hname)
    cases hfound : leading? (entry.2.toList ++ rest) with
    | none =>
      have hmiss := List.findSome?_eq_none_iff.1 hfound entry hmem
      rw [afterName?_eq_some_iff.2 ⟨rfl, hstop⟩] at hmiss
      exact absurd hmiss (by simp)
    | some found =>
      obtain ⟨other, after⟩ := found
      have hsame : entry.2.toList = other.toList := by
        rw [← leadingWord_of_leading? hfound]
        exact (leadingWord_append_of_stop (isWord_of_contains hname).2 hstop).symm
      have hcut := (of_leading?_eq_some hfound).2.1
      rw [hsame] at hcut
      rw [String.toList_inj.1 hsame, List.append_cancel_left hcut]

/-- No name is found at a letter that is a word of its own. -/
theorem leading?_of_single {c : Char} {rest : List Char} (hc : isWordChar c = true)
    (hstop : startsInWord rest = false) : leading? (c :: rest) = none := by
  cases hfound : leading? (c :: rest) with
  | none => rfl
  | some found =>
    obtain ⟨name, after⟩ := found
    have hname := (of_leading?_eq_some hfound).1
    have hword : leadingWord ([c] ++ rest) = [c] :=
      leadingWord_append_of_stop (by simpa using hc) hstop
    have hlength := length_of_contains hname
    rw [← leadingWord_of_leading? hfound, ← List.singleton_append, hword] at hlength
    exact absurd hlength (by simp)

end Lexicon

end MathLine
