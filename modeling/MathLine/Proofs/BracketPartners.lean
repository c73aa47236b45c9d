import MathLine.Proofs.Offsets

set_option autoImplicit false

/-!
# The partner of an opening bracket

The partner of the bracket that a text starts with is the closing bracket behind balanced text.
Balanced is meant here in the plainest way: as many brackets open as close, and no front of the
text closes more of them than it opened.  `isBalanced_iff` says that this is what counting loose
brackets comes to.

A partner is addressed by its byte offset (`IsPartner`), and the search for it keeps the number
of open brackets in a counter that starts at zero.  The counter is lessened at every closing
bracket, which is a fault when no bracket is open.  `seekClosing` is that search with the fault
in sight.  `findsPartner_open` says that from an opening bracket on the fault never occurs, and that
the offset found is that of the partner, the only one there is.
-/

namespace MathLine.Text

/-! ## Balance by counting -/

/-- Opening brackets and those that close them are equally many, but for the loose ones. -/
theorem count_open_add_closing (s : List Char) :
    s.count '(' + (loose s).closing = s.count ')' + (loose s).opening := by
  induction s with
  | nil => rfl
  | cons c s ih =>
    by_cases hopen : c = '('
    · subst hopen
      rw [loose_open, List.count_cons_self, List.count_cons_of_ne (by decide)]
      simp only [Loose.beside]
      omega
    · by_cases hclose : c = ')'
      · subst hclose
        rw [loose_close, List.count_cons_self, List.count_cons_of_ne (by decide)]
        simp only [Loose.beside]
        omega
      · rw [loose_cons_of_not_bracket (by simp [isBracket, hopen, hclose]),
          List.count_cons_of_ne hopen, List.count_cons_of_ne hclose, ih]

/-- Every closing bracket has its partner exactly when no front of the text closes more brackets
than it opens. -/
theorem closing_eq_zero_iff {s : List Char} :
    (loose s).closing = 0 ↔ ∀ front, front <+: s → front.count ')' ≤ front.count '(' := by
  constructor
  · rintro h front ⟨back, rfl⟩
    have hcount := count_open_add_closing front
    rw [loose_append] at h
    simp only [Loose.beside] at h
    omega
  · intro h
    cases hcut : splitAtClosing 0 s with
    | none => exact Nat.le_zero.1 (splitAtClosing_eq_none_iff.1 hcut)
    | some cut =>
      -- the closing bracket at the cut ends a front that closes one bracket too many
      obtain ⟨inner, rest⟩ := cut
      obtain ⟨rfl, hinner⟩ := splitAtClosing_eq_some_iff.1 hcut
      have hfront := h (inner ++ [')']) ⟨rest, by simp⟩
      have hcount := count_open_add_closing inner
      have hopen : [')'].count '(' = 0 := rfl
      have hclose : [')'].count ')' = 1 := rfl
      rw [List.count_append, List.count_append, hopen, hclose] at hfront
      simp only [hinner] at hcount
      omega

/-- A text is balanced when as many brackets open as close, and no front of it closes more
brackets than it opens. -/
theorem isBalanced_iff {s : List Char} :
    IsBalanced s ↔
      s.count '(' = s.count ')' ∧ ∀ front, front <+: s → front.count ')' ≤ front.count '(' := by
  have hcount := count_open_add_closing s
  rw [IsBalanced, Loose.none, Loose.eq_mk_iff, ← closing_eq_zero_iff]
  omega

/-! ## Partners by byte offset -/

/-- A closing bracket stands at the byte offset `i` of `s`, and what stands between it and the
first character, a bracket of one byte, is balanced. -/
def IsPartner (s : List Char) (i : Nat) : Prop :=
  ∃ inner after, sliceFrom i s = .ok (')' :: after) ∧ slice 1 i s = .ok inner ∧
    inner.count '(' = inner.count ')' ∧
      ∀ front, front <+: inner → front.count ')' ≤ front.count '('

/-- Slicing from a byte offset on cuts the text there. -/
theorem sliceFrom_eq_ok_iff {i : Nat} {s back : List Char} :
    sliceFrom i s = .ok back ↔ ∃ front, s = front ++ back ∧ byteLength front = i := by
  rw [sliceFrom, slice_eq_ok_iff]
  constructor
  · rintro ⟨front, after, rfl, hfront, hstop⟩
    have hafter : after = [] := by
      rw [byteLength_append (front ++ back)] at hstop
      exact byteLength_eq_zero_iff.1 (by omega)
    subst hafter
    exact ⟨front, List.append_nil _, hfront⟩
  · rintro ⟨front, rfl, hfront⟩
    exact ⟨front, [], (List.append_nil _).symm, hfront, rfl⟩

/-- A byte offset cuts a text in one way only. -/
theorem append_inj_of_byteLength {s t s' t' : List Char} (h : s ++ t = s' ++ t')
    (hlength : byteLength s = byteLength s') : s = s' ∧ t = t' := by
  have hcut := splitAtByte?_byteLength_append s t
  rw [h, hlength, splitAtByte?_byteLength_append] at hcut
  obtain ⟨rfl, rfl⟩ : s' = s ∧ t' = t := by simpa using hcut
  exact ⟨rfl, rfl⟩

/-- The partner of an opening bracket stands behind balanced text. -/
theorem isPartner_open_iff {rest : List Char} {i : Nat} :
    IsPartner ('(' :: rest) i ↔
      ∃ inner after, rest = inner ++ ')' :: after ∧ 1 + byteLength inner = i ∧
        IsBalanced inner := by
  constructor
  · rintro ⟨inner, after, hback, hinner, hbalanced⟩
    obtain ⟨front, hfront, rfl⟩ := sliceFrom_eq_ok_iff.1 hback
    obtain ⟨before, behind, hcut, hbefore, hstop⟩ := slice_eq_ok_iff.1 hinner
    obtain ⟨rfl, -⟩ := append_inj_of_byteLength (hcut.symm.trans hfront) hstop
    rw [List.append_assoc] at hfront
    obtain ⟨rfl, rfl⟩ := append_inj_of_byteLength (s := ['(']) hfront hbefore.symm
    exact ⟨inner, after, rfl, byteLength_append ['('] inner, isBalanced_iff.2 hbalanced⟩
  · rintro ⟨inner, after, rfl, rfl, hbalanced⟩
    refine ⟨inner, after, ?_, ?_, isBalanced_iff.1 hbalanced⟩
    · exact sliceFrom_eq_ok_iff.2 ⟨'(' :: inner, rfl, rfl⟩
    · exact slice_append ['('] inner (')' :: after)

/-- The search from an opening bracket on ends where its partner stands. -/
theorem closingOffset?_open_eq_some_iff {rest : List Char} {i : Nat} :
    closingOffset? ('(' :: rest) = some i ↔ IsPartner ('(' :: rest) i := by
  rw [closingOffset?, if_pos rfl, Option.map_eq_some_iff, isPartner_open_iff]
  constructor
  · rintro ⟨⟨inner, after⟩, hcut, hplace⟩
    obtain ⟨hrest, hinner⟩ := splitAtClosing_eq_some_iff.1 hcut
    exact ⟨inner, after, hrest, hplace, hinner⟩
  · rintro ⟨inner, after, hrest, hplace, hinner⟩
    exact ⟨(inner, after), splitAtClosing_eq_some_iff.2 ⟨hrest, hinner⟩, hplace⟩

/-! ## The counter -/

/-- The byte offset of the bracket that closes the first of `depth` open ones, `s` being what is
left of its text `offset` bytes from the start.  At every closing bracket one is taken from the
number of open ones. -/
def seekClosing : (depth offset : Nat) → (s : List Char) → Except Fault (Option Nat)
  | _, _, [] => return none
  | depth, offset, c :: s =>
    if c = '(' then seekClosing (depth + 1) (offset + c.utf8Size) s
    else if c = ')' then do
      let left ← lessen depth 1
      if left = 0 then return some offset else seekClosing left (offset + c.utf8Size) s
    else seekClosing depth (offset + c.utf8Size) s

/-- With a bracket open, one can be taken from the counter wherever a bracket closes. -/
theorem seekClosing_succ (depth offset : Nat) (s : List Char) :
    seekClosing (depth + 1) offset s = .ok (closingFrom? (depth + 1) offset s) := by
  induction s generalizing depth offset with
  | nil => rfl
  | cons c s ih =>
    rw [seekClosing, closingFrom?]
    by_cases hopen : c = '('
    · rw [if_pos hopen, if_pos hopen, ih]
    · rw [if_neg hopen, if_neg hopen]
      by_cases hclose : c = ')'
      · rw [if_pos hclose, if_pos hclose, if_neg (Nat.succ_ne_zero _),
          lessen_of_le (Nat.le_add_left 1 depth), Nat.add_sub_cancel]
        cases depth with
        | zero => rfl
        | succ depth => exact ih depth _
      · rw [if_neg hclose, if_neg hclose, ih]

/-- The search of a text for the partner of its first bracket does what it is meant to do. -/
structure FindsPartner (s : List Char) : Prop where
  found : ∀ i, closingOffset? s = some i ↔ IsPartner s i
  unique : ∀ i j, IsPartner s i → IsPartner s j → i = j
  missed : closingOffset? s = none ↔ ∀ i, ¬IsPartner s i
  /-- the counter is never lessened when no bracket is open -/
  no_fault : seekClosing 0 0 s = .ok (closingOffset? s)
  /-- the offset is a place between two characters -/
  place : ∀ i, closingOffset? s = some i → IsBoundary i s

/-- In every text that starts with an opening bracket the search finds the partner of that
bracket, if there is one. -/
theorem findsPartner_open (rest : List Char) : FindsPartner ('(' :: rest) := by
  have hfound (i : Nat) :
      closingOffset? ('(' :: rest) = some i ↔ IsPartner ('(' :: rest) i :=
    closingOffset?_open_eq_some_iff
  constructor
  case found => exact hfound
  case unique =>
    intro i j hi hj
    exact Option.some.inj (((hfound i).2 hi).symm.trans ((hfound j).2 hj))
  case missed => simp only [Option.eq_none_iff_forall_ne_some, ne_eq, hfound]
  case no_fault =>
    rw [seekClosing, if_pos rfl, seekClosing_succ, ← closingFrom?_eq_closingOffset?]
    rfl
  case place =>
    intro i hi
    obtain ⟨inner, after, rfl, rfl, -⟩ := isPartner_open_iff.1 ((hfound i).1 hi)
    exact isBoundary_iff.2 ⟨'(' :: inner, ')' :: after, rfl, rfl⟩

/-- The counter of open brackets is at zero when a bracket closes first. -/
example : seekClosing 0 0 ['x', ')'] = .error .underflow ∧
    seekClosing 0 0 ['(', '√', ')', ')'] = .ok (some 4) := ⟨rfl, rfl⟩

end MathLine.Text
