set_option autoImplicit false

/-!
# Text: matching brackets

A round bracket is closed by the first `)` after it that leaves as many brackets
closed as were opened.  `splitAtClosing` finds that place by counting: it is given
how many brackets are open, and cuts the text around the `)` that closes the last
of them.

`splitAtClosing_eq_append` says that the cut loses nothing but the bracket itself.
Positions in a text are counted in bytes of its UTF-8 encoding; `closingOffset?`
gives the place of the bracket in that measure.
-/

namespace MathLine.Text

/-- How many bytes a text takes in UTF-8. -/
def byteLength : List Char → Nat
  | [] => 0
  | c :: s => c.utf8Size + byteLength s

/-- With `depth + 1` brackets open, cuts `s` around the `)` that closes the
outermost of them: what stands before it and what stands after it.  There is no
cut when some bracket stays open. -/
def splitAtClosing : (depth : Nat) → List Char → Option (List Char × List Char)
  | _, [] => none
  | depth, '(' :: s => (splitAtClosing (depth + 1) s).map fun cut => ('(' :: cut.1, cut.2)
  | 0, ')' :: s => some ([], s)
  | depth + 1, ')' :: s => (splitAtClosing depth s).map fun cut => (')' :: cut.1, cut.2)
  | depth, c :: s => (splitAtClosing depth s).map fun cut => (c :: cut.1, cut.2)

/-- The byte offset at which the brackets of `s` first balance, the first bracket
of `s` being an opening one.  Text before that bracket is passed over, and there is
no offset when `s` closes a bracket first or never balances. -/
def closingOffset? : List Char → Option Nat
  | [] => none
  | c :: s =>
    if c = '(' then (splitAtClosing 0 s).map fun cut => c.utf8Size + byteLength cut.1
    else if c = ')' then none
    else (closingOffset? s).map (c.utf8Size + ·)

/-! ## What a cut keeps -/

@[simp] theorem byteLength_nil : byteLength [] = 0 := rfl

@[simp] theorem byteLength_cons (c : Char) (s : List Char) :
    byteLength (c :: s) = c.utf8Size + byteLength s := rfl

@[simp] theorem byteLength_append (s t : List Char) :
    byteLength (s ++ t) = byteLength s + byteLength t := by
  induction s with
  | nil => simp
  | cons c s ih => simp [ih, Nat.add_assoc]

/-- The text is what stands before the closing bracket, the bracket, and what
stands after it. -/
theorem splitAtClosing_eq_append {depth : Nat} {s inner rest : List Char}
    (h : splitAtClosing depth s = some (inner, rest)) : s = inner ++ ')' :: rest := by
  fun_induction splitAtClosing depth s generalizing inner rest with
  | case1 => simp at h
  | case2 depth s ih =>
    obtain ⟨cut, hcut, heq⟩ := Option.map_eq_some_iff.1 h
    obtain ⟨rfl, rfl⟩ := Prod.mk.injEq .. ▸ heq
    simpa using ih hcut
  | case3 s =>
    obtain ⟨rfl, rfl⟩ : [] = inner ∧ s = rest := by simpa using h
    rfl
  | case4 depth s ih =>
    obtain ⟨cut, hcut, heq⟩ := Option.map_eq_some_iff.1 h
    obtain ⟨rfl, rfl⟩ := Prod.mk.injEq .. ▸ heq
    simpa using ih hcut
  | case5 depth c s _ _ _ ih =>
    obtain ⟨cut, hcut, heq⟩ := Option.map_eq_some_iff.1 h
    obtain ⟨rfl, rfl⟩ := Prod.mk.injEq .. ▸ heq
    simpa using ih hcut

theorem length_of_splitAtClosing {depth : Nat} {s inner rest : List Char}
    (h : splitAtClosing depth s = some (inner, rest)) :
    inner.length + rest.length + 1 = s.length := by
  rw [splitAtClosing_eq_append h]
  simp
  omega

end MathLine.Text
