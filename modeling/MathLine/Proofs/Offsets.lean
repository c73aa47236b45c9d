import MathLine.Proofs.Brackets

set_option autoImplicit false

/-!
# Texts by byte offset

A text that is held in UTF-8 is addressed by counting bytes.  Not every count names a
place in it: the text may have ended before, and a character that takes several bytes
may be cut in two.  A program that slices a text, or moves on in it, by such a count
stops there with a fault.

`splitAtByte?` cuts a text at a byte offset, and `splitAtByte?_eq_some_iff` says that
there is a cut exactly where some number of whole characters ends.  `slice` and
`advance` are the two uses that are made of offsets, each with its fault.
`exists_slice_iff` and `advance_eq_ok_iff` say when they succeed.  That the places are
those of the core library's strings is `isBoundary_iff_isValid`.

Offsets are found by searches that count bytes as they go: `offsetWhere?` looks for a
character, and `closingFrom?` for the bracket that closes those that are open.
-/

namespace MathLine

/-- What stops a reader that addresses its text by byte offsets. -/
inductive Fault where
  /-- the two ends of a slice are not places in the text, one before the other -/
  | slice (start stop : Nat)
  /-- the reader moves to where there is no place in the text -/
  | advance (offset : Nat)
  /-- a length is less than what is taken from it -/
  | underflow
  /-- a step ends where it started -/
  | stalled (offset : Nat)
  /-- the text inside a piece is no shorter than the text the piece is from -/
  | nested (inner : List Char)
  deriving DecidableEq, Repr, Inhabited

namespace Text

/-- Cuts `s` after its first `n` bytes.  There is no cut when `s` has fewer bytes, nor
inside a character. -/
def splitAtByte? : (n : Nat) → (s : List Char) → Option (List Char × List Char)
  | 0, s => some ([], s)
  | _ + 1, [] => none
  | n + 1, c :: s =>
    if c.utf8Size ≤ n + 1 then
      (splitAtByte? (n + 1 - c.utf8Size) s).map fun cut => (c :: cut.1, cut.2)
    else none

/-- Whether the byte offset `n` is a place between two characters of `s`, or one of its
ends. -/
def IsBoundary (n : Nat) (s : List Char) : Prop := (splitAtByte? n s).isSome = true

instance (n : Nat) (s : List Char) : Decidable (IsBoundary n s) :=
  inferInstanceAs (Decidable (_ = true))

/-- The text from the byte offset `start` of `s` up to the byte offset `stop`. -/
def slice (start stop : Nat) (s : List Char) : Except Fault (List Char) :=
  match splitAtByte? stop s with
  | none => .error (.slice start stop)
  | some (front, _) =>
    match splitAtByte? start front with
    | none => .error (.slice start stop)
    | some (_, inside) => .ok inside

/-- The text from the byte offset `start` of `s` on. -/
def sliceFrom (start : Nat) (s : List Char) : Except Fault (List Char) :=
  slice start (byteLength s) s

/-- The place in `s` that is `count` bytes after the byte offset `offset`. -/
def advance (s : List Char) (offset count : Nat) : Except Fault Nat :=
  if IsBoundary (offset + count) s then .ok (offset + count)
  else .error (.advance (offset + count))

/-- What is left of `n` when `m` is taken from it. -/
def lessen (n m : Nat) : Except Fault Nat :=
  if m ≤ n then .ok (n - m) else .error .underflow

/-- The byte offset of the first character of `s` that `p` holds of. -/
def offsetWhere? (p : Char → Bool) : List Char → Option Nat
  | [] => none
  | c :: s => if p c then some 0 else (offsetWhere? p s).map (c.utf8Size + ·)

/-- The byte offset of the bracket that closes the first of `depth` open ones, `s` being
what is left of its text `offset` bytes from the start.  A closing bracket while none is
open ends the search. -/
def closingFrom? : (depth offset : Nat) → (s : List Char) → Option Nat
  | _, _, [] => none
  | depth, offset, c :: s =>
    if c = '(' then closingFrom? (depth + 1) (offset + c.utf8Size) s
    else if c = ')' then
      if depth = 0 then none
      else if depth = 1 then some offset
      else closingFrom? (depth - 1) (offset + c.utf8Size) s
    else closingFrom? depth (offset + c.utf8Size) s

/-! ## Cuts -/

theorem byteLength_eq_zero_iff {s : List Char} : byteLength s = 0 ↔ s = [] := by
  cases s with
  | nil => simp
  | cons c s =>
    have hpos := c.utf8Size_pos
    simp only [byteLength_cons, reduceCtorEq, iff_false]
    omega

theorem byteLength_pos {s : List Char} (h : s ≠ []) : 0 < byteLength s :=
  Nat.pos_of_ne_zero (mt byteLength_eq_zero_iff.1 h)

theorem byteLength_le_append (s t : List Char) : byteLength s ≤ byteLength (s ++ t) := by
  rw [byteLength_append]
  exact Nat.le_add_right _ _

theorem byteLength_lt_cons (c : Char) {s t : List Char} (h : byteLength s ≤ byteLength t) :
    byteLength s < byteLength (c :: t) := by
  have hpos := c.utf8Size_pos
  rw [byteLength_cons]
  omega

theorem splitAtByte?_byteLength_append (t u : List Char) :
    splitAtByte? (byteLength t) (t ++ u) = some (t, u) := by
  induction t with
  | nil =>
    rw [byteLength_nil, List.nil_append]
    cases u <;> rfl
  | cons c t ih =>
    have hpos := c.utf8Size_pos
    obtain ⟨n, hn⟩ : ∃ n, c.utf8Size + byteLength t = n + 1 :=
      ⟨c.utf8Size + byteLength t - 1, by omega⟩
    have hrest : n + 1 - c.utf8Size = byteLength t := by omega
    rw [List.cons_append, byteLength_cons, hn, splitAtByte?, if_pos (by omega), hrest, ih]
    rfl

theorem append_of_splitAtByte? {n : Nat} {s t u : List Char}
    (h : splitAtByte? n s = some (t, u)) : s = t ++ u ∧ byteLength t = n := by
  fun_induction splitAtByte? n s generalizing t with
  | case1 s =>
    obtain ⟨rfl, rfl⟩ : [] = t ∧ s = u := by simpa using h
    exact ⟨rfl, rfl⟩
  | case2 => simp at h
  | case3 n c s hle ih =>
    obtain ⟨cut, hcut, heq⟩ := Option.map_eq_some_iff.1 h
    obtain ⟨rfl, rfl⟩ := Prod.mk.injEq .. ▸ heq
    obtain ⟨hs, hlength⟩ := ih hcut
    refine ⟨by rw [hs, List.cons_append], ?_⟩
    rw [byteLength_cons, hlength]
    omega
  | case4 => simp at h

/-- There is a cut at a byte offset exactly where as many bytes of whole characters
end. -/
theorem splitAtByte?_eq_some_iff {n : Nat} {s t u : List Char} :
    splitAtByte? n s = some (t, u) ↔ s = t ++ u ∧ byteLength t = n := by
  constructor
  · exact append_of_splitAtByte?
  · rintro ⟨rfl, rfl⟩
    exact splitAtByte?_byteLength_append t u

theorem isBoundary_iff {n : Nat} {s : List Char} :
    IsBoundary n s ↔ ∃ t u, s = t ++ u ∧ byteLength t = n := by
  rw [IsBoundary, Option.isSome_iff_exists, Prod.exists]
  simp only [splitAtByte?_eq_some_iff]

/-! ## Slices -/

/-- A slice is the text between two places, the second of them not before the first. -/
theorem slice_eq_ok_iff {start stop : Nat} {s inside : List Char} :
    slice start stop s = .ok inside ↔
      ∃ before after, s = before ++ inside ++ after ∧ byteLength before = start ∧
        byteLength (before ++ inside) = stop := by
  constructor
  · intro h
    unfold slice at h
    split at h
    · cases h
    · next front after hstop =>
      split at h
      · cases h
      · next before inside' hstart =>
        obtain rfl : inside' = inside := Except.ok.inj h
        obtain ⟨rfl, hfront⟩ := splitAtByte?_eq_some_iff.1 hstop
        obtain ⟨rfl, hbefore⟩ := splitAtByte?_eq_some_iff.1 hstart
        exact ⟨before, after, rfl, hbefore, hfront⟩
  · rintro ⟨before, after, rfl, rfl, rfl⟩
    simp only [slice, splitAtByte?_byteLength_append]

/-- Slicing succeeds exactly when both ends are places in the text, the second of them
not before the first. -/
theorem exists_slice_iff {start stop : Nat} {s : List Char} :
    (∃ inside, slice start stop s = .ok inside) ↔
      IsBoundary start s ∧ IsBoundary stop s ∧ start ≤ stop := by
  simp only [slice_eq_ok_iff, isBoundary_iff]
  constructor
  · rintro ⟨inside, before, after, rfl, rfl, rfl⟩
    refine ⟨⟨before, inside ++ after, List.append_assoc .., rfl⟩,
      ⟨before ++ inside, after, rfl, rfl⟩, byteLength_le_append before inside⟩
  · rintro ⟨⟨before, rest, rfl, rfl⟩, ⟨front, after, hcut, rfl⟩, hle⟩
    rcases List.append_eq_append_iff.1 hcut with ⟨inside, rfl, rfl⟩ | ⟨extra, rfl, rfl⟩
    · exact ⟨inside, before, after, (List.append_assoc ..).symm, rfl, rfl⟩
    · -- The second place is not before the first, so there is nothing between them.
      have hextra : extra = [] := by
        rw [byteLength_append] at hle
        exact byteLength_eq_zero_iff.1 (by omega)
      subst hextra
      exact ⟨[], front, rest, by simp, by simp, by simp⟩

theorem slice_append (before inside after : List Char) :
    slice (byteLength before) (byteLength before + byteLength inside)
      (before ++ (inside ++ after)) = .ok inside :=
  slice_eq_ok_iff.2
    ⟨before, after, (List.append_assoc ..).symm, rfl, byteLength_append before inside⟩

@[simp] theorem sliceFrom_append (before rest : List Char) :
    sliceFrom (byteLength before) (before ++ rest) = .ok rest :=
  slice_eq_ok_iff.2 ⟨before, [], (List.append_nil _).symm, rfl, rfl⟩

/-! ## Moving on -/

/-- Moving on succeeds exactly when it leads to a place in the text. -/
theorem advance_eq_ok_iff {s : List Char} {offset count stop : Nat} :
    advance s offset count = .ok stop ↔ stop = offset + count ∧ IsBoundary stop s := by
  unfold advance
  split
  · next h =>
    constructor
    · intro heq
      obtain rfl : offset + count = stop := Except.ok.inj heq
      exact ⟨rfl, h⟩
    · rintro ⟨rfl, -⟩
      rfl
  · next h =>
    constructor
    · intro heq
      cases heq
    · rintro ⟨rfl, hboundary⟩
      exact absurd hboundary h

/-- Moving on over the text that comes next leads to the place after it. -/
theorem advance_append (before passed rest : List Char) :
    advance (before ++ (passed ++ rest)) (byteLength before) (byteLength passed) =
      .ok (byteLength (before ++ passed)) := by
  rw [advance_eq_ok_iff, isBoundary_iff]
  exact ⟨byteLength_append before passed, before ++ passed, rest, (List.append_assoc ..).symm,
    rfl⟩

/-! ## Searches -/

/-- With brackets open, the search ends at the place where the text is cut. -/
theorem closingFrom?_succ (depth offset : Nat) (s : List Char) :
    closingFrom? (depth + 1) offset s =
      (splitAtClosing depth s).map fun cut => offset + byteLength cut.1 := by
  fun_induction splitAtClosing depth s generalizing offset with
  | case1 => rfl
  | case2 depth s ih =>
    rw [closingFrom?, if_pos rfl, ih, Option.map_map]
    simp only [Function.comp_def, byteLength_cons, Nat.add_assoc]
  | case3 s => rfl
  | case4 depth s ih =>
    have hopen : ')' ≠ '(' := by decide
    have hdepth : depth + 1 + 1 ≠ 1 := by omega
    rw [closingFrom?, if_neg hopen, if_pos rfl, if_neg (Nat.succ_ne_zero _), if_neg hdepth,
      Nat.add_sub_cancel, ih, Option.map_map]
    simp only [Function.comp_def, byteLength_cons, Nat.add_assoc]
  | case5 depth c s hopen hclose hclose' ih =>
    have hne : c ≠ '(' ∧ c ≠ ')' := by
      simpa [isBracket] using isBracket_of_ne hopen hclose hclose'
    rw [closingFrom?, if_neg hne.1, if_neg hne.2, ih, Option.map_map]
    simp only [Function.comp_def, byteLength_cons, Nat.add_assoc]

theorem closingFrom?_zero (offset : Nat) (s : List Char) :
    closingFrom? 0 offset s = (closingOffset? s).map (offset + ·) := by
  induction s generalizing offset with
  | nil => rfl
  | cons c s ih =>
    rw [closingFrom?, closingOffset?]
    split
    · rw [closingFrom?_succ, Option.map_map]
      simp only [Function.comp_def, Nat.add_assoc]
    · split
      · rfl
      · rw [ih, Option.map_map]
        simp only [Function.comp_def, Nat.add_assoc]

/-- The search from the start of a text finds the offset at which its brackets first
balance. -/
theorem closingFrom?_eq_closingOffset? (s : List Char) :
    closingFrom? 0 0 s = closingOffset? s := by
  rw [closingFrom?_zero]
  cases closingOffset? s with
  | none => rfl
  | some n => exact congrArg some (Nat.zero_add n)

/-- A text in brackets is closed after as many bytes as there are before its closing
bracket. -/
theorem closingFrom?_open (rest : List Char) :
    closingFrom? 0 0 ('(' :: rest) =
      (splitAtClosing 0 rest).map fun cut => 1 + byteLength cut.1 := by
  rw [closingFrom?_eq_closingOffset?, closingOffset?, if_pos rfl]
  rfl

theorem lessen_of_le {n m : Nat} (h : m ≤ n) : lessen n m = .ok (n - m) := if_pos h

/-- The first character where `p` fails stands after all that `p` holds of. -/
theorem offsetWhere?_not (p : Char → Bool) (s : List Char) :
    (offsetWhere? (fun c => !p c) s).getD (byteLength s) = byteLength (s.takeWhile p) := by
  induction s with
  | nil => rfl
  | cons c s ih =>
    cases hc : p c with
    | false => simp [offsetWhere?, hc]
    | true =>
      rw [List.takeWhile_cons_of_pos hc, byteLength_cons, byteLength_cons, ← ih]
      cases hs : offsetWhere? (fun c => !p c) s with
      | none => simp [offsetWhere?, hc, hs]
      | some n => simp [offsetWhere?, hc, hs]

/-! ## The places of the core library -/

theorem byteLength_toList (s : String) : byteLength s.toList = s.utf8ByteSize := by
  have key (l : List Char) : (String.ofList l).utf8ByteSize = byteLength l := by
    induction l with
    | nil => rfl
    | cons c l ih =>
      rw [← List.singleton_append, String.ofList_append, String.utf8ByteSize_append, ih,
        byteLength_append, ← String.singleton_eq_ofList, String.utf8ByteSize_singleton]
      rfl
  rw [← key, String.ofList_toList]

/-- The places in a text are the valid positions of the string. -/
theorem isBoundary_iff_isValid {n : Nat} {s : String} :
    IsBoundary n s.toList ↔ String.Pos.Raw.IsValid s ⟨n⟩ := by
  rw [isBoundary_iff, String.Pos.Raw.isValid_iff_exists_append]
  constructor
  · rintro ⟨t, u, hcut, rfl⟩
    refine ⟨String.ofList t, String.ofList u, ?_, ?_⟩
    · rw [← String.ofList_append, ← hcut, String.ofList_toList]
    · rw [String.Pos.Raw.ext_iff, String.byteIdx_rawEndPos, ← byteLength_toList,
        String.toList_ofList]
  · rintro ⟨t, u, rfl, hplace⟩
    refine ⟨t.toList, u.toList, String.toList_append, ?_⟩
    rw [byteLength_toList]
    exact (congrArg String.Pos.Raw.byteIdx hplace).symm

/-- A slice may neither cut a character in two nor run over the end of the text. -/
example : slice 1 3 ['x', '√'] = .error (.slice 1 3) ∧ slice 1 4 ['x', '√'] = .ok ['√'] ∧
    slice 1 5 ['x', '√'] = .error (.slice 1 5) := ⟨rfl, rfl, rfl⟩

end Text

end MathLine
