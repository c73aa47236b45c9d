import MathLine.Proofs.PartTokens

set_option autoImplicit false

/-!
# A row among the rows around it

A row of nodes may stand right inside a node of another row, and that row inside another one in
turn.  `Slot` names the ways in which a node holds a row, and a list of `Level`s leads from an
outermost row to a row inside it, `around levels row` being the outermost row.  Every row of
nodes is reached like this, at whatever depth it stands (`exists_levels_of_mem_rows`).

A row inside a construction is written in one piece, and what is written around it depends on
that piece only through its first character: the row may be the base of a power, before which a
space is written if it starts with a letter (`exists_around`).
-/

namespace MathLine

namespace Node

/-- A way in which a node holds a row, with all else that there is in the node. -/
inductive Slot where
  | numerator (below : List Node)
  | denominator (above : List Node)
  | base (raised : List Node)
  | exponent (foot : List Node)
  | radicand
  | inner
  | script (foot : String)

/-- The node that holds `row`. -/
def Slot.fill (row : List Node) : Slot → Node
  | numerator below => .fraction row below
  | denominator above => .fraction above row
  | base raised => .power row raised
  | exponent foot => .power foot row
  | radicand => .root row
  | inner => .parens row
  | script foot => .subscript foot row

/-- A row of nodes one of which holds another row, without that other row. -/
structure Level where
  before : List Node
  slot : Slot
  after : List Node

/-- The row of a level, one of its nodes holding `row`. -/
def Level.fill (level : Level) (row : List Node) : List Node :=
  level.before ++ level.slot.fill row :: level.after

/-- The outermost row, when the levels, from the outermost one inwards, lead to `row`. -/
def around (levels : List Level) (row : List Node) : List Node := levels.foldr Level.fill row

theorem exists_slot_of_mem_childRows {n : Node} {row : List Node} (h : row ∈ n.childRows) :
    ∃ slot : Slot, slot.fill row = n := by
  cases n with
  | number _ | letter _ | text _ | operator _ | function _ => simp [childRows] at h
  | fraction above below =>
    obtain rfl | rfl : row = above ∨ row = below := by simpa [childRows] using h
    · exact ⟨.numerator below, rfl⟩
    · exact ⟨.denominator above, rfl⟩
  | power foot raised =>
    obtain rfl | rfl : row = foot ∨ row = raised := by simpa [childRows] using h
    · exact ⟨.base raised, rfl⟩
    · exact ⟨.exponent foot, rfl⟩
  | root inside =>
    obtain rfl : row = inside := by simpa [childRows] using h
    exact ⟨.radicand, rfl⟩
  | parens inside =>
    obtain rfl : row = inside := by simpa [childRows] using h
    exact ⟨.inner, rfl⟩
  | subscript foot inside =>
    obtain rfl : row = inside := by simpa [childRows] using h
    exact ⟨.script foot, rfl⟩

theorem sizeOf_lt_fill (slot : Slot) (row : List Node) : sizeOf row < sizeOf (slot.fill row) := by
  cases slot <;> simp only [Slot.fill, fraction.sizeOf_spec, power.sizeOf_spec, root.sizeOf_spec,
    parens.sizeOf_spec, subscript.sizeOf_spec] <;> omega

theorem exists_mem_inTree {n : Node} {ns : List Node} (h : n ∈ inRow ns) :
    ∃ m ∈ ns, n ∈ inTree m := by
  induction ns with
  | nil => simp at h
  | cons m ns ih =>
    rw [inRow_cons, List.mem_append] at h
    rcases h with h | h
    · exact ⟨m, List.mem_cons_self, h⟩
    · obtain ⟨m', hm', hn⟩ := ih h
      exact ⟨m', List.mem_cons_of_mem m hm', hn⟩

/-- Every node of a row, at any depth, stands in a row to which levels lead. -/
theorem exists_levels_of_mem_inRow {ns : List Node} {n : Node} (h : n ∈ inRow ns) :
    ∃ levels before after, around levels (before ++ n :: after) = ns := by
  obtain ⟨m, hm, hn⟩ := exists_mem_inTree h
  obtain ⟨before, after, hns⟩ := List.append_of_mem hm
  rw [inTree_eq, List.mem_cons, List.mem_flatMap] at hn
  rcases hn with rfl | ⟨row, hrow, hn⟩
  · exact ⟨[], before, after, hns.symm⟩
  · obtain ⟨slot, rfl⟩ := exists_slot_of_mem_childRows hrow
    have hsmaller := sizeOf_lt_fill slot row
    have hmember := List.sizeOf_lt_of_mem hm
    obtain ⟨levels, front, back, hfill⟩ := exists_levels_of_mem_inRow hn
    exact ⟨⟨before, slot, after⟩ :: levels, front, back, by rw [hns, ← hfill]; rfl⟩
termination_by sizeOf ns
decreasing_by omega

/-- Levels lead to every row of nodes, at whatever depth it stands. -/
theorem exists_levels_of_mem_rows {ns row : List Node} (h : row ∈ rows ns) :
    ∃ levels, around levels row = ns := by
  rcases List.mem_cons.1 h with rfl | h
  · exact ⟨[], rfl⟩
  · obtain ⟨n, hn, hrow⟩ := List.mem_flatMap.1 h
    obtain ⟨levels, before, after, rfl⟩ := exists_levels_of_mem_inRow hn
    obtain ⟨slot, rfl⟩ := exists_slot_of_mem_childRows hrow
    exact ⟨levels ++ [⟨before, slot, after⟩], by rw [around, List.foldr_append]; rfl⟩

/-- Between `front` and `back` a function name is cut off from the group directly after it. -/
def CutsCall (front back : List Node) : Prop :=
  (∃ name, front.getLast? = some (function name)) ∧ ∃ inner, back.head? = some (parens inner)

theorem not_cutsCall_of_cons {n : Node} {front back : List Node}
    (h : ¬CutsCall (n :: front) back) : ¬CutsCall front back := by
  rintro ⟨⟨name, hname⟩, hback⟩
  exact h ⟨⟨name, by rw [List.getLast?_cons, hname]; rfl⟩, hback⟩

theorem not_cutsCall_cons {n : Node} (h : ∀ inner, n ≠ parens inner) (front back : List Node) :
    ¬CutsCall front (n :: back) := by
  rintro ⟨-, inner, hinner⟩
  exact h inner (Option.some.inj hinner)

end Node

namespace Tex

open Node (Slot Level around CutsCall)

/-! ## Parts and separators -/

/-- Where no call is cut in two, the parts are those before the cut and those after it. -/
theorem parts_append {front back : List Node} (h : ¬CutsCall front back) :
    parts (front ++ back) = parts front ++ parts back := by
  fun_induction partRows front with
  | case1 => rw [parts, List.nil_append, List.nil_append]
  | case2 name inner rest ih =>
    have hrest := Node.not_cutsCall_of_cons (Node.not_cutsCall_of_cons h)
    rw [List.cons_append, List.cons_append, parts, parts, ih hrest, List.cons_append]
  | case3 n rest halone ih =>
    have hrest := Node.not_cutsCall_of_cons h
    have halone' : ∀ name inner tail, n = .function name → rest ++ back = .parens inner :: tail →
        False := by
      rintro name inner tail rfl htail
      cases rest with
      | nil => exact h ⟨⟨name, rfl⟩, inner, by rw [show back = _ from htail]; rfl⟩
      | cons m more =>
        obtain ⟨rfl, -⟩ := List.cons.inj htail
        exact halone name inner more rfl rfl
    rw [List.cons_append, parts.eq_3 n _ halone', parts.eq_3 n rest halone, ih hrest,
      List.cons_append]

/-- A row goes on after the last of its parts so far. -/
theorem joinAfter_append (spacing : Spacing) (previous : List Char)
    (front back : List (List Char)) :
    joinAfter spacing previous (front ++ back) =
      joinAfter spacing previous front ++
        joinAfter spacing (front.getLast?.getD previous) back := by
  induction front generalizing previous with
  | nil => rfl
  | cons part front ih =>
    rw [List.cons_append, joinAfter, joinAfter, ih, List.getLast?_cons]
    exact (List.append_assoc _ _ _).symm

theorem startsWithLetter_eq (s : List Char) : startsWithLetter s = s.head?.any Char.isAlpha := by
  cases s <;> rfl

/-- A text that ends in a character which is no letter. -/
def IsClosed (s : List Char) : Prop := ∃ c, s.getLast? = some c ∧ c.isAlpha = false

theorem IsClosed.append {s : List Char} (h : IsClosed s) (before : List Char) :
    IsClosed (before ++ s) := by
  obtain ⟨c, hlast, hc⟩ := h
  exact ⟨c, by rw [List.getLast?_append, hlast, Option.some_or], hc⟩

theorem IsClosed.ne_nil {s : List Char} (h : IsClosed s) : s ≠ [] := by
  rintro rfl
  obtain ⟨c, hlast, -⟩ := h
  exact absurd hlast (by simp)

theorem IsClosed.not_endsInControlWord {s : List Char} (h : IsClosed s) :
    endsInControlWord s = false := by
  obtain ⟨c, hlast, hc⟩ := h
  obtain ⟨before, rfl⟩ := List.getLast?_eq_some_iff.1 hlast
  rw [endsInControlWord, List.reverse_append]
  simp [hc]

/-- Nothing is written after a closed text to keep the next part from it but what is written
after every other closed text. -/
theorem joinAfter_of_closed (spacing : Spacing) {s t : List Char} (hs : IsClosed s)
    (ht : IsClosed t) (rest : List (List Char)) :
    joinAfter spacing s rest = joinAfter spacing t rest := by
  have hempty : s.isEmpty = false ∧ t.isEmpty = false := by simp [hs.ne_nil, ht.ne_nil]
  cases rest with
  | nil => rfl
  | cons part rest =>
    have hseparator : separator spacing s part = separator spacing t part := by
      unfold separator
      rw [hempty.1, hempty.2, hs.not_endsInControlWord, ht.not_endsInControlWord]
    rw [joinAfter, joinAfter, hseparator]

/-! ## What is written around a row -/

/-- What is written around a text inside one of the parts of a row depends only on the first
character of the text. -/
theorem exists_around_text (spacing : Spacing) (front back : List (List Char))
    (before : List Char) {after : List Char} (hafter : IsClosed after) (s : List Char) :
    ∃ left right, ∀ t, t.head? = s.head? →
      join spacing (front ++ (before ++ t ++ after) :: back) = left ++ t ++ right := by
  refine ⟨joinAfter spacing [] front ++ separator spacing (front.getLast?.getD [])
    (before ++ s ++ after) ++ before, after ++ joinAfter spacing after back, fun t ht => ?_⟩
  have hstart : startsWithLetter (before ++ t ++ after) =
      startsWithLetter (before ++ s ++ after) := by
    rw [startsWithLetter_eq, startsWithLetter_eq]
    simp only [List.head?_append, ht]
  have hseparator (previous : List Char) :
      separator spacing previous (before ++ t ++ after) =
        separator spacing previous (before ++ s ++ after) := by
    unfold separator
    rw [hstart]
  rw [join, joinAfter_append, joinAfter, hseparator,
    joinAfter_of_closed spacing (hafter.append (before ++ t)) hafter]
  simp only [List.append_assoc]

theorem rooted_eq (s : List Char) : rooted s = "\\sqrt".toList ++ braced s := rfl

theorem bracketed_eq (s : List Char) :
    bracketed s = "\\left(".toList ++ s ++ "\\right)".toList := rfl

theorem isClosed_braced (s : List Char) : IsClosed (braced s) := ⟨'}', getLast?_braced s, rfl⟩

/-- The row that a node holds is written in one piece. -/
theorem exists_node_fill (slot : Slot) :
    ∃ before after, IsClosed after ∧
      ∀ row, node (slot.fill row) = before ++ innerRow row ++ after := by
  have hbrace : IsClosed ['}'] := ⟨'}', rfl, rfl⟩
  cases slot with
  | numerator below =>
    refine ⟨"\\frac".toList ++ ['{'], '}' :: braced (innerRow below),
      (isClosed_braced _).append ['}'], fun row => ?_⟩
    simp only [Slot.fill, node, innerRow, braced, List.append_assoc, List.cons_append,
      List.nil_append]
  | denominator above =>
    refine ⟨"\\frac".toList ++ braced (innerRow above) ++ ['{'], ['}'], hbrace,
      fun row => ?_⟩
    simp only [Slot.fill, node, innerRow, braced, List.append_assoc, List.cons_append,
      List.nil_append]
  | base raised =>
    exact ⟨[], '^' :: braced (innerRow raised), (isClosed_braced _).append ['^'],
      fun row => by rw [Slot.fill, node]; rfl⟩
  | exponent foot =>
    refine ⟨innerRow foot ++ ['^', '{'], ['}'], hbrace, fun row => ?_⟩
    simp only [Slot.fill, node, innerRow, braced, List.append_assoc, List.cons_append,
      List.nil_append]
  | radicand =>
    refine ⟨"\\sqrt".toList ++ ['{'], ['}'], hbrace, fun row => ?_⟩
    simp only [Slot.fill, node, innerRow, rooted_eq, braced, List.append_assoc, List.cons_append,
      List.nil_append]
  | inner =>
    exact ⟨"\\left(".toList, "\\right)".toList, ⟨')', rfl, rfl⟩,
      fun row => by rw [Slot.fill, node]; rfl⟩
  | script foot =>
    refine ⟨foot.toList ++ ['_', '{'], ['}'], hbrace, fun row => ?_⟩
    simp only [Slot.fill, node, innerRow, braced, List.append_assoc, List.cons_append,
      List.nil_append]

/-- The arguments of a function are written in one piece. -/
theorem exists_call (name : String) :
    ∃ before after, IsClosed after ∧ ∀ args, call name args = before ++ args ++ after := by
  by_cases hroot : name = Lexicon.squareRoot
  · refine ⟨"\\sqrt".toList ++ ['{'], ['}'], ⟨'}', rfl, rfl⟩, fun args => ?_⟩
    rw [call, if_pos hroot, rooted_eq, braced, List.append_assoc]
    rfl
  · refine ⟨functionName name ++ "\\left(".toList, "\\right)".toList, ⟨')', rfl, rfl⟩,
      fun args => ?_⟩
    rw [call, if_neg hroot, bracketed_eq]
    simp only [List.append_assoc]

/-- The row that a node of a row holds is written in one piece, inside one of the parts. -/
theorem exists_parts_fill (level : Level) :
    ∃ front before after back, IsClosed after ∧
      ∀ row, parts (level.fill row) = front ++ (before ++ innerRow row ++ after) :: back := by
  obtain ⟨front, slot, back⟩ := level
  by_cases hcut : ∀ row, ¬CutsCall front (slot.fill row :: back)
  · obtain ⟨before, after, hafter, hnode⟩ := exists_node_fill slot
    refine ⟨parts front, before, after, parts back, hafter, fun row => ?_⟩
    have halone : ∀ name inner tail, slot.fill row = .function name →
        back = .parens inner :: tail → False := by
      intro name inner tail hname
      cases slot <;> simp [Slot.fill] at hname
    rw [Level.fill, parts_append (hcut row), parts.eq_3 _ _ halone, hnode]
  · -- the node is a group directly after a function name, and a part together with the name
    obtain ⟨row, hrow⟩ := not_forall.1 hcut
    obtain ⟨⟨name, hname⟩, inner, hinner⟩ := not_not.1 hrow
    obtain ⟨init, rfl⟩ := List.getLast?_eq_some_iff.1 hname
    obtain rfl : slot = .inner := by cases slot <;> simp [Slot.fill] at hinner ⊢
    obtain ⟨before, after, hafter, hcall⟩ := exists_call name
    refine ⟨parts init, before, after, parts back, hafter, fun row => ?_⟩
    have hinit : ¬CutsCall init (.function name :: .parens row :: back) :=
      Node.not_cutsCall_cons (by simp) _ _
    rw [Level.fill, List.append_assoc, List.singleton_append, Slot.fill, parts_append hinit, parts]
    exact congrArg (parts init ++ · :: parts back) (hcall (innerRow row))

/-- What is written around a row that a node of another row holds. -/
theorem exists_around_fill (spacing : Spacing) (level : Level) (row : List Node) :
    ∃ left right, ∀ other, (innerRow other).head? = (innerRow row).head? →
      join spacing (parts (level.fill other)) = left ++ innerRow other ++ right := by
  obtain ⟨front, before, after, back, hafter, hparts⟩ := exists_parts_fill level
  obtain ⟨left, right, htext⟩ :=
    exists_around_text spacing front back before hafter (innerRow row)
  refine ⟨left, right, fun other hother => ?_⟩
  rw [hparts, htext _ hother]

/-- What is written around a row inside other rows depends only on the first character of what
is written for the row. -/
theorem exists_around (spacing : Spacing) (level : Level) (levels : List Level)
    (row : List Node) :
    ∃ left right, ∀ other, (innerRow other).head? = (innerRow row).head? →
      join spacing (parts (around (level :: levels) other)) = left ++ innerRow other ++ right := by
  induction levels generalizing spacing level with
  | nil => exact exists_around_fill spacing level row
  | cons next levels ih =>
    obtain ⟨left, right, hwithin⟩ := ih .together next
    obtain ⟨left', right', haround⟩ :=
      exists_around_fill spacing level (around (next :: levels) row)
    refine ⟨left' ++ left, right ++ right', fun other hother => ?_⟩
    have hinner := hwithin other hother
    have hhead : (innerRow (around (next :: levels) other)).head? =
        (innerRow (around (next :: levels) row)).head? := by
      rw [innerRow, innerRow, hinner, hwithin row rfl]
      simp only [List.head?_append, hother]
    calc join spacing (parts (level.fill (around (next :: levels) other)))
        = left' ++ innerRow (around (next :: levels) other) ++ right' := haround _ hhead
      _ = left' ++ (left ++ innerRow other ++ right) ++ right' :=
          congrArg (left' ++ · ++ right') hinner
      _ = left' ++ left ++ innerRow other ++ (right ++ right') := by
          simp only [List.append_assoc]

end Tex

end MathLine
