import MathLine.Text.Bracket

set_option autoImplicit false

/-!
# How brackets match

Brackets are matched in one pass from left to right: an opening bracket waits for its
partner, and a closing one takes the last bracket that waits or, when none does, has no
partner.  `loose` is the outcome of that pass, the number of closing and of opening
brackets that stay without a partner.  It is a summary that composes: the loose
brackets of two texts side by side follow from those of the texts (`loose_append`), and
a text without loose brackets may be passed over (`loose_append_of_balanced`).

Cutting a text at a closing bracket is looked at only through this summary.  There is
a cut exactly when the text closes more brackets than are open
(`splitAtClosing_eq_none_iff`), and what stands before the cut closes all of them but
one and leaves none open (`splitAtClosing_eq_some_iff`).
-/

namespace MathLine.Text

/-- How many brackets of a text have no partner in it: closing brackets, which all stand
before the opening ones. -/
structure Loose where
  closing : Nat
  opening : Nat
  deriving DecidableEq, Repr, Inhabited

namespace Loose

/-- No bracket is without a partner. -/
def none : Loose := ⟨0, 0⟩

/-- The loose brackets once the character `c` is passed. -/
def pass (l : Loose) (c : Char) : Loose :=
  if c = '(' then ⟨l.closing, l.opening + 1⟩
  else if c = ')' then
    if l.opening = 0 then ⟨l.closing + 1, 0⟩ else ⟨l.closing, l.opening - 1⟩
  else l

/-- The loose brackets of two texts side by side: the opening ones of the first are
partners for the closing ones of the second. -/
def beside (a b : Loose) : Loose :=
  ⟨a.closing + (b.closing - a.opening), b.opening + (a.opening - b.closing)⟩

@[simp] theorem none_beside (l : Loose) : none.beside l = l := by
  simp [none, beside]

@[simp] theorem beside_none (l : Loose) : l.beside none = l := by
  simp [none, beside]

theorem eq_mk_iff {l : Loose} {a b : Nat} : l = ⟨a, b⟩ ↔ l.closing = a ∧ l.opening = b := by
  cases l
  simp

theorem beside_assoc (a b c : Loose) : (a.beside b).beside c = a.beside (b.beside c) := by
  simp only [beside, mk.injEq]
  omega

/-- Passing a character puts its own bracket beside those that are loose. -/
theorem pass_eq_beside (l : Loose) (c : Char) : l.pass c = l.beside (none.pass c) := by
  obtain ⟨a, b⟩ := l
  by_cases hopen : c = '('
  · simp [pass, beside, none, hopen]
    omega
  · by_cases hclose : c = ')'
    · cases b <;> simp [pass, beside, none, hclose]
    · simp [pass, beside, none, hopen, hclose]

end Loose

/-- The brackets of `s` that have no partner in it. -/
def loose (s : List Char) : Loose := s.foldl Loose.pass Loose.none

/-- Whether every bracket of `s` has its partner in it. -/
def IsBalanced (s : List Char) : Prop := loose s = Loose.none

instance (s : List Char) : Decidable (IsBalanced s) :=
  inferInstanceAs (Decidable (loose s = Loose.none))

/-- Whether `c` is a round bracket. -/
def isBracket (c : Char) : Bool := c == '(' || c == ')'

/-! ## The summary composes -/

@[simp] theorem loose_nil : loose [] = Loose.none := rfl

/-- A pass that starts with loose brackets is one that starts with none, beside them. -/
theorem foldl_pass_eq_beside (l : Loose) (s : List Char) :
    s.foldl Loose.pass l = l.beside (loose s) := by
  induction s generalizing l with
  | nil => simp
  | cons c s ih =>
    have hwhole : loose (c :: s) = (Loose.none.pass c).beside (loose s) := by
      rw [loose, List.foldl_cons, ih]
    rw [List.foldl_cons, ih, hwhole, Loose.pass_eq_beside, Loose.beside_assoc]

theorem loose_append (s t : List Char) : loose (s ++ t) = (loose s).beside (loose t) := by
  rw [loose, List.foldl_append, foldl_pass_eq_beside]
  rfl

theorem loose_cons (c : Char) (s : List Char) :
    loose (c :: s) = (Loose.none.pass c).beside (loose s) := by
  rw [loose, List.foldl_cons, foldl_pass_eq_beside]

theorem loose_open (s : List Char) : loose ('(' :: s) = Loose.beside ⟨0, 1⟩ (loose s) :=
  loose_cons '(' s

theorem loose_close (s : List Char) : loose (')' :: s) = Loose.beside ⟨1, 0⟩ (loose s) :=
  loose_cons ')' s

theorem loose_cons_of_not_bracket {c : Char} {s : List Char} (h : isBracket c = false) :
    loose (c :: s) = loose s := by
  have hne : c ≠ '(' ∧ c ≠ ')' := by simpa [isBracket] using h
  rw [loose_cons, Loose.pass, if_neg hne.1, if_neg hne.2, Loose.none_beside]

/-- A text without brackets is balanced. -/
theorem isBalanced_of_no_bracket {s : List Char} (h : ∀ c ∈ s, isBracket c = false) :
    IsBalanced s := by
  induction s with
  | nil => rfl
  | cons c s ih =>
    rw [IsBalanced, loose_cons_of_not_bracket (h c List.mem_cons_self)]
    apply ih
    intro d hd
    exact h d (List.mem_cons_of_mem c hd)

/-- Only the brackets of a text count. -/
theorem loose_filter_isBracket (s : List Char) : loose (s.filter isBracket) = loose s := by
  induction s with
  | nil => rfl
  | cons c s ih =>
    cases h : isBracket c with
    | true => rw [List.filter_cons_of_pos h, loose_cons, loose_cons, ih]
    | false => rw [List.filter_cons_of_neg (by simp [h]), loose_cons_of_not_bracket h, ih]

/-! ## Balanced texts -/

theorem isBalanced_nil : IsBalanced [] := rfl

theorem loose_append_of_balanced {s : List Char} (t : List Char) (h : IsBalanced s) :
    loose (s ++ t) = loose t := by
  rw [loose_append, show loose s = Loose.none from h, Loose.none_beside]

/-- A balanced text in brackets is balanced. -/
theorem isBalanced_group {s : List Char} (h : IsBalanced s) : IsBalanced ('(' :: s ++ [')']) := by
  rw [IsBalanced, List.cons_append, loose_open, loose_append_of_balanced _ h]
  rfl

/-! ## Cuts -/

/-- A character that none of the first cases of a cut is about is no bracket. -/
theorem isBracket_of_ne {depth : Nat} {c : Char} (hopen : c = '(' → False)
    (hclose : depth = 0 → c = ')' → False)
    (hclose' : ∀ outer : Nat, depth = outer.succ → c = ')' → False) : isBracket c = false := by
  have hne : c ≠ ')' := by
    rintro rfl
    cases depth with
    | zero => exact hclose rfl rfl
    | succ outer => exact hclose' outer rfl rfl
  simpa [isBracket] using ⟨fun h => hopen h, hne⟩

/-- There is no cut exactly when the text does not close all brackets that are open. -/
theorem splitAtClosing_eq_none_iff {depth : Nat} {s : List Char} :
    splitAtClosing depth s = none ↔ (loose s).closing ≤ depth := by
  fun_induction splitAtClosing depth s with
  | case1 depth => simp [Loose.none]
  | case2 depth s ih =>
    rw [Option.map_eq_none_iff, ih, loose_open]
    simp only [Loose.beside]
    omega
  | case3 s =>
    rw [loose_close]
    simp only [Loose.beside, reduceCtorEq, false_iff]
    omega
  | case4 depth s ih =>
    rw [Option.map_eq_none_iff, ih, loose_close]
    simp only [Loose.beside]
    omega
  | case5 depth c s hopen hclose hclose' ih =>
    rw [Option.map_eq_none_iff, ih,
      loose_cons_of_not_bracket (isBracket_of_ne hopen hclose hclose')]

/-- What stands before a cut closes all open brackets but the outermost. -/
theorem loose_of_splitAtClosing {depth : Nat} {s inner rest : List Char}
    (h : splitAtClosing depth s = some (inner, rest)) : loose inner = ⟨depth, 0⟩ := by
  fun_induction splitAtClosing depth s generalizing inner rest with
  | case1 => simp at h
  | case2 depth s ih =>
    obtain ⟨cut, hcut, heq⟩ := Option.map_eq_some_iff.1 h
    obtain ⟨rfl, rfl⟩ := Prod.mk.injEq .. ▸ heq
    rw [loose_open, ih hcut]
    simp [Loose.beside]
  | case3 s =>
    obtain ⟨rfl, rfl⟩ : [] = inner ∧ s = rest := by simpa using h
    rfl
  | case4 depth s ih =>
    obtain ⟨cut, hcut, heq⟩ := Option.map_eq_some_iff.1 h
    obtain ⟨rfl, rfl⟩ := Prod.mk.injEq .. ▸ heq
    rw [loose_close, ih hcut]
    simp [Loose.beside, Nat.add_comm]
  | case5 depth c s hopen hclose hclose' ih =>
    obtain ⟨cut, hcut, heq⟩ := Option.map_eq_some_iff.1 h
    obtain ⟨rfl, rfl⟩ := Prod.mk.injEq .. ▸ heq
    rw [loose_cons_of_not_bracket (isBracket_of_ne hopen hclose hclose'), ih hcut]

/-- A text that closes all open brackets but the outermost is passed over, and the
closing bracket after it is the place of the cut. -/
theorem splitAtClosing_append {depth : Nat} {inner : List Char} (rest : List Char)
    (h : loose inner = ⟨depth, 0⟩) :
    splitAtClosing depth (inner ++ ')' :: rest) = some (inner, rest) := by
  induction inner generalizing depth with
  | nil =>
    obtain rfl : 0 = depth := congrArg Loose.closing h
    rfl
  | cons c inner ih =>
    rw [List.cons_append]
    by_cases hopen : c = '('
    · subst hopen
      simp only [loose_open, Loose.beside, Loose.mk.injEq] at h
      have hinner : loose inner = ⟨depth + 1, 0⟩ := by
        rw [Loose.eq_mk_iff]
        omega
      rw [splitAtClosing, ih hinner]
      rfl
    · by_cases hclose : c = ')'
      · subst hclose
        simp only [loose_close, Loose.beside, Loose.mk.injEq] at h
        obtain ⟨depth, rfl⟩ : ∃ d, depth = d + 1 := ⟨depth - 1, by omega⟩
        have hinner : loose inner = ⟨depth, 0⟩ := by
          rw [Loose.eq_mk_iff]
          omega
        rw [splitAtClosing, ih hinner]
        rfl
      · rw [loose_cons_of_not_bracket (by simp [isBracket, hopen, hclose])] at h
        rw [splitAtClosing, ih h]
        · rfl
        · exact hopen
        · exact fun _ => hclose
        · exact fun _ _ => hclose

/-- A cut takes out the closing bracket after a text that closes all open brackets but
the outermost. -/
theorem splitAtClosing_eq_some_iff {depth : Nat} {s inner rest : List Char} :
    splitAtClosing depth s = some (inner, rest) ↔
      s = inner ++ ')' :: rest ∧ loose inner = ⟨depth, 0⟩ := by
  constructor
  · intro h
    exact ⟨splitAtClosing_eq_append h, loose_of_splitAtClosing h⟩
  · rintro ⟨rfl, h⟩
    exact splitAtClosing_append rest h

end MathLine.Text
