import MathLine.Proofs.Lookahead
import MathLine.Proofs.Offsets

set_option autoImplicit false

/-!
# Where relation signs stand

Whether some characters of a line are a relation sign depends on the lexemes of the line: the
equals sign of `x<=y` is none, for the longer sign takes it.  `RelationSign` says the same
without lexemes, of a place in the line and the characters next to it, and `mem_scan_iff` that
the relation signs among the lexemes are those of the line in this sense.

So the signs of a line can be found piece by piece, whatever the pieces are.  A text that is
passed over keeps the signs behind it as they are, provided that it does not end in the first
half of one (`EndsSigns`), and a `Silent` text has no sign that starts in it.
-/

namespace MathLine

open MathLine.Text

namespace Text

/-- A text that starts with `chunk` is cut behind `chunk` or inside of it. -/
theorem behind_or_inside {front back chunk tail : List Char}
    (h : front ++ back = chunk ++ tail) :
    (∃ front', front = chunk ++ front' ∧ tail = front' ++ back) ∨
      ∃ c inner, chunk = front ++ c :: inner ∧ back = c :: inner ++ tail := by
  rcases List.append_eq_append_iff.1 h with ⟨inner, rfl, hback⟩ | behind
  · cases inner with
    | nil => exact .inl ⟨[], by simp, hback.symm⟩
    | cons c inner => exact .inr ⟨c, inner, rfl, hback⟩
  · exact .inl behind

end Text

namespace Operator

/-- The characters that become one sign with an equals sign behind them. -/
def marks : List Char := ['<', '>', '!', '~']

/-- The characters that relations are typed with. -/
def signChars : List Char := '=' :: marks

/-- The relation `op` stands as a sign of its own between `front` and `rest`. -/
structure RelationSign (front : List Char) (op : Operator) (rest : List Char) : Prop where
  relation : op.isRelation = true
  read : read? (op.typed.toList ++ rest) = some (op, rest)
  /-- it is not the second half of a longer sign -/
  whole : op = equal → ∀ c ∈ front.getLast?, c ∉ marks

/-- A relation starts with a mark or an equals sign. -/
theorem mem_of_typed_append {op : Operator} {c : Char} {rest s : List Char}
    (h : op.isRelation = true) (hcut : op.typed.toList ++ rest = c :: s) : c ∈ signChars := by
  cases op <;> first
    | exact absurd h (by decide)
    | obtain rfl := (List.cons.inj hcut).1
      decide

theorem not_mem_signChars {p : Char → Bool} {c : Char} (hp : signChars.any p = false)
    (h : p c = true) : c ∉ signChars := by
  intro hc
  exact List.any_eq_false.1 hp c hc h

/-! ## Texts that are passed over -/

/-- No sign reaches over the end of `chunk` into `tail`. -/
def EndsSigns (chunk tail : List Char) : Prop :=
  tail.head? = some '=' → ∀ c ∈ chunk.getLast?, c ∉ marks

/-- A sign behind a text that ends all its signs is one in the whole. -/
theorem relationSign_append_iff {chunk front rest : List Char} {op : Operator}
    (h : EndsSigns chunk (front ++ (op.typed.toList ++ rest))) :
    RelationSign (chunk ++ front) op rest ↔ RelationSign front op rest := by
  have hwhole : (op = equal → ∀ c ∈ (chunk ++ front).getLast?, c ∉ marks) ↔
      (op = equal → ∀ c ∈ front.getLast?, c ∉ marks) := by
    refine imp_congr_right fun hequal => ?_
    rcases List.eq_nil_or_concat front with rfl | ⟨front, c, rfl⟩
    · subst hequal
      rw [List.append_nil]
      exact iff_of_true (h rfl) nofun
    · simp
  constructor
  · rintro ⟨hrelation, hread, hfront⟩
    exact ⟨hrelation, hread, hwhole.1 hfront⟩
  · rintro ⟨hrelation, hread, hfront⟩
    exact ⟨hrelation, hread, hwhole.2 hfront⟩

/-- No sign starts in `chunk` when `tail` follows: either its characters start no sign, or it
is a single character where no operator is read. -/
def Silent (chunk tail : List Char) : Prop :=
  (∀ c ∈ chunk, c ∉ signChars) ∨ ∃ c, chunk = [c] ∧ read? (c :: tail) = none

theorem Silent.endsSigns {chunk tail : List Char} (h : Silent chunk tail) :
    EndsSigns chunk tail := by
  intro hequals c hc hmark
  rcases h with hplain | ⟨d, rfl, hread⟩
  · exact hplain c (List.mem_of_getLast? hc) (List.mem_cons_of_mem _ hmark)
  · obtain rfl : d = c := by simpa using hc
    obtain ⟨tail, rfl⟩ := List.head?_eq_some_iff.1 hequals
    simp only [marks, List.mem_cons, List.not_mem_nil, or_false] at hmark
    rcases hmark with rfl | rfl | rfl | rfl <;> simp [read?] at hread

/-- The signs of a text that starts with a silent one all stand behind that. -/
theorem Silent.exists_front {chunk tail front rest : List Char} {op : Operator}
    (h : Silent chunk tail) (hsign : RelationSign front op rest)
    (hcut : front ++ (op.typed.toList ++ rest) = chunk ++ tail) :
    ∃ front', front = chunk ++ front' ∧ tail = front' ++ (op.typed.toList ++ rest) := by
  rcases behind_or_inside hcut with behind | ⟨c, inner, rfl, hback⟩
  · exact behind
  · rcases h with hplain | ⟨d, hsingle, hread⟩
    · have hc := mem_of_typed_append hsign.relation hback
      exact absurd hc (hplain c (List.mem_append_right front List.mem_cons_self))
    · obtain ⟨rfl, rfl, rfl⟩ : front = [] ∧ c = d ∧ inner = [] := by
        cases front <;> simp_all
      rw [← List.singleton_append, ← hback, hsign.read] at hread
      exact absurd hread (by simp)

/-! ## Operators that are passed over -/

/-- An operator that is read ends all signs. -/
theorem endsSigns_of_read? {op : Operator} {tail : List Char}
    (h : read? (op.typed.toList ++ tail) = some (op, tail)) :
    EndsSigns op.typed.toList tail := by
  intro hequals c hc
  have hlonger := (read?_typed_iff.1 h).2
  cases op with
  | less | greater => exact absurd hequals (hlonger rfl)
  | _ =>
    obtain rfl := Option.some.inj hc
    decide

/-- Only between a mark and an equals sign can the typed form of an operator be cut. -/
theorem eq_of_typed_eq_append {o : Operator} {c : Char} {front inner : List Char}
    (h : o.typed.toList = c :: front ++ inner) (hinner : inner ≠ []) :
    front = [] ∧ c ∈ marks ∧ inner = ['='] := by
  have htwo : ∀ d e, [d, e] = c :: front ++ inner → front = [] ∧ c = d ∧ inner = [e] := by
    intro d e h
    cases front with
    | nil => simpa [eq_comm] using h
    | cons f front => simp_all
  cases o with
  | lessEqual | greaterEqual | notEqual | approx =>
    obtain ⟨rfl, rfl, rfl⟩ := htwo _ _ h
    exact ⟨rfl, by decide, rfl⟩
  | _ => exact absurd (List.append_eq_nil_iff.1 (List.cons.inj h).2.symm).2 hinner

/-- A sign of a text that starts with an operator is the operator, or stands behind it. -/
theorem RelationSign.eq_or_exists_front {op o : Operator} {front rest tail : List Char}
    (hsign : RelationSign front op rest)
    (hread : read? (o.typed.toList ++ tail) = some (o, tail))
    (hcut : front ++ (op.typed.toList ++ rest) = o.typed.toList ++ tail) :
    front = [] ∧ op = o ∧ rest = tail ∨
      ∃ front', front = o.typed.toList ++ front' ∧
        tail = front' ++ (op.typed.toList ++ rest) := by
  have hboth := hsign.read
  rcases behind_or_inside hcut with behind | ⟨d, inner, htyped, hback⟩
  · exact .inr behind
  · rw [hback] at hboth
    cases front with
    | nil =>
      rw [List.nil_append] at htyped
      rw [← htyped, hread] at hboth
      obtain ⟨rfl, rfl⟩ := Prod.mk.inj (Option.some.inj hboth)
      exact .inl ⟨rfl, rfl, rfl⟩
    | cons c front =>
      -- The mark takes the equals sign, which is no sign of its own then.
      obtain ⟨rfl, hc, hinner⟩ := eq_of_typed_eq_append htyped (List.cons_ne_nil d inner)
      rw [hinner] at hboth
      have hequal : op = equal := (Prod.mk.inj (Option.some.inj hboth)).1.symm
      exact absurd hc (hsign.whole hequal c rfl)

end Operator

/-! ## Lexemes -/

namespace Lexeme

theorem ofChar_ne_operator (c : Char) (op : Operator) : ofChar c ≠ .operator op := by
  unfold ofChar
  split
  · exact nofun
  · split <;> exact nofun

theorem eq_text_append_of_first {c : Char} {s rest : List Char} {lexeme : Lexeme}
    (h : first c s = (lexeme, rest)) : c :: s = lexeme.text ++ rest := by
  have hcut := text_append_first c s
  rw [h] at hcut
  exact hcut.symm

theorem text_ne_nil_of_first {c : Char} {s rest : List Char} {lexeme : Lexeme}
    (h : first c s = (lexeme, rest)) : lexeme.text ≠ [] := by
  have hne := text_first_ne_nil c s
  rwa [h] at hne

/-- A lexeme is an operator that is read, or else it is silent. -/
theorem operator_or_silent {c : Char} {s rest : List Char} {lexeme : Lexeme}
    (h : first c s = (lexeme, rest)) :
    (∃ op, lexeme = ⟨.operator op, op.typed.toList⟩ ∧
        Operator.read? (op.typed.toList ++ rest) = some (op, rest)) ∨
      ((∀ op, lexeme.token ≠ .operator op) ∧ Operator.Silent lexeme.text rest) := by
  unfold first at h
  split at h
  · next hstart =>
    obtain ⟨rfl, rfl⟩ := Prod.mk.inj h
    have hnumeral := Numeral.isNumeral_leading (Numeral.leading_ne_nil (s := s) hstart)
    refine .inr ⟨fun _ => nofun, .inl ?_⟩
    intro d hd
    exact Operator.not_mem_signChars (by decide) (hnumeral.isStart_of_mem d hd)
  · split at h
    · next op tail hread =>
      obtain ⟨rfl, rfl⟩ := Prod.mk.inj h
      exact .inl ⟨op, rfl, Operator.eq_typed_append_of_read? hread ▸ hread⟩
    · next hread =>
      obtain ⟨rfl, rfl⟩ := Prod.mk.inj h
      exact .inr ⟨ofChar_ne_operator c, .inr ⟨c, rfl, hread⟩⟩

end Lexeme

namespace PlacedLexeme

theorem scanFrom_of_next?_none {s : List Char} (offset : Nat) (h : Lexeme.next? s = none) :
    scanFrom offset s = [] := by
  unfold scanFrom
  split
  · rfl
  · next hnext => exact absurd (h.symm.trans hnext) (by simp)

theorem scanFrom_of_next? {s rest : List Char} {lexeme : Lexeme} (offset : Nat)
    (h : Lexeme.next? s = some (lexeme, rest)) :
    scanFrom offset s =
      ⟨lexeme, offset + byteLength (leadingBlanks s)⟩ ::
        scanFrom (offset + byteLength (leadingBlanks s) + byteLength lexeme.text) rest := by
  rw [scanFrom]
  split
  · next hnext => exact absurd (hnext.symm.trans h) (by simp)
  · next hnext =>
    obtain ⟨rfl, rfl⟩ : _ = lexeme ∧ _ = rest := by simpa using hnext.symm.trans h
    rfl

/-- A blank in front moves all lexemes. -/
theorem scanFrom_blank {c : Char} (offset : Nat) (s : List Char) (h : isBlank c = true) :
    scanFrom offset (c :: s) = scanFrom (offset + c.utf8Size) s := by
  have hnext : Lexeme.next? (c :: s) = Lexeme.next? s := by
    rw [Lexeme.next?, Lexeme.next?, skipBlanks_cons_of_blank h]
  have hblanks : leadingBlanks (c :: s) = c :: leadingBlanks s := List.takeWhile_cons_of_pos h
  cases hs : Lexeme.next? s with
  | none => rw [scanFrom_of_next?_none _ hs, scanFrom_of_next?_none _ (hnext.trans hs)]
  | some taken =>
    rw [scanFrom_of_next? _ hs, scanFrom_of_next? _ (hnext.trans hs), hblanks, byteLength_cons,
      ← Nat.add_assoc]

/-- Where no blank stands a lexeme is taken. -/
theorem scanFrom_cons {c : Char} {s rest : List Char} {lexeme : Lexeme} (offset : Nat)
    (h : isBlank c = false) (hfirst : Lexeme.first c s = (lexeme, rest)) :
    scanFrom offset (c :: s) =
      ⟨lexeme, offset⟩ :: scanFrom (offset + byteLength lexeme.text) rest := by
  have hnext : Lexeme.next? (c :: s) = some (lexeme, rest) := by
    rw [Lexeme.next?, skipBlanks_cons_of_not_blank h, ← hfirst]
  have hblanks : leadingBlanks (c :: s) = [] := List.takeWhile_cons_of_neg (by simp [h])
  rw [scanFrom_of_next? _ hnext, hblanks]
  rfl

theorem le_start_of_mem_scanFrom {offset : Nat} {s : List Char} {p : PlacedLexeme}
    (h : p ∈ scanFrom offset s) : offset ≤ p.start := by
  fun_induction scanFrom offset s with
  | case1 => simp at h
  | case2 offset s lexeme rest hnext start ih =>
    rcases List.mem_cons.1 h with rfl | h
    · simp [start]
    · have := ih h
      omega

/-- A sign of a text is the lexeme that the text starts with, or it is a sign of what follows
that lexeme. -/
theorem relationSign_iff_of_first {c : Char} {s tail front rest : List Char} {lexeme : Lexeme}
    {op : Operator} (hfirst : Lexeme.first c s = (lexeme, tail)) (hop : op.isRelation = true)
    (hcut : c :: s = front ++ (op.typed.toList ++ rest)) :
    op.RelationSign front rest ↔
      front = [] ∧ lexeme = ⟨.operator op, op.typed.toList⟩ ∨
        ∃ front', front = lexeme.text ++ front' ∧ tail = front' ++ (op.typed.toList ++ rest) ∧
          op.RelationSign front' rest := by
  have htext := Lexeme.eq_text_append_of_first hfirst
  have hends : Operator.EndsSigns lexeme.text tail := by
    rcases Lexeme.operator_or_silent hfirst with ⟨o, rfl, hread⟩ | ⟨-, hsilent⟩
    · exact Operator.endsSigns_of_read? hread
    · exact hsilent.endsSigns
  constructor
  · intro hsign
    have hfront : front = [] ∧ lexeme = ⟨.operator op, op.typed.toList⟩ ∨
        ∃ front', front = lexeme.text ++ front' ∧
          tail = front' ++ (op.typed.toList ++ rest) := by
      rcases Lexeme.operator_or_silent hfirst with ⟨o, rfl, hread⟩ | ⟨-, hsilent⟩
      · refine (hsign.eq_or_exists_front hread (hcut.symm.trans htext)).imp_left ?_
        rintro ⟨rfl, rfl, -⟩
        exact ⟨rfl, rfl⟩
      · exact .inr (hsilent.exists_front hsign (hcut.symm.trans htext))
    refine hfront.imp_right ?_
    rintro ⟨front', rfl, rfl⟩
    exact ⟨front', rfl, rfl, (Operator.relationSign_append_iff hends).1 hsign⟩
  · rintro (⟨rfl, rfl⟩ | ⟨front', rfl, rfl, hsign⟩)
    · rcases Lexeme.operator_or_silent hfirst with ⟨o, heq, hread⟩ | ⟨hne, -⟩
      · obtain rfl : op = o := by simpa using congrArg Lexeme.token heq
        obtain rfl : rest = tail := List.append_cancel_left (hcut.symm.trans htext)
        exact ⟨hop, hread, fun _ => nofun⟩
      · exact absurd rfl (hne op)
    · exact (Operator.relationSign_append_iff hends).2 hsign

/-- What starts in a text no earlier than its first lexeme ends stands behind the lexeme. -/
theorem exists_front_of_byteLength_le {text tail front s : List Char}
    (hcut : front ++ s = text ++ tail) (hle : byteLength text ≤ byteLength front) :
    ∃ front', front = text ++ front' ∧ tail = front' ++ s := by
  rcases behind_or_inside hcut with behind | ⟨c, inner, rfl, -⟩
  · exact behind
  · have hpos := byteLength_pos (List.cons_ne_nil c inner)
    rw [byteLength_append] at hle
    omega

/-- A lexeme of a text is the one that it starts with, or it is one of what follows that. -/
theorem mem_scanFrom_cons_iff {c : Char} {s tail front back : List Char}
    {lexeme found : Lexeme} (offset : Nat) (hblank : isBlank c = false)
    (hfirst : Lexeme.first c s = (lexeme, tail)) (hcut : c :: s = front ++ back) :
    ⟨found, offset + byteLength front⟩ ∈ scanFrom offset (c :: s) ↔
      front = [] ∧ lexeme = found ∨
        ∃ front', front = lexeme.text ++ front' ∧ tail = front' ++ back ∧
          ⟨found, offset + byteLength lexeme.text + byteLength front'⟩ ∈
            scanFrom (offset + byteLength lexeme.text) (front' ++ back) := by
  rw [scanFrom_cons offset hblank hfirst, List.mem_cons]
  refine or_congr ?_ ⟨fun hmem => ?_, ?_⟩
  · rw [mk.injEq, Nat.add_eq_left, byteLength_eq_zero_iff, and_comm, eq_comm (b := lexeme)]
  · have hle := le_start_of_mem_scanFrom hmem
    obtain ⟨front', rfl, rfl⟩ := exists_front_of_byteLength_le
      (hcut.symm.trans (Lexeme.eq_text_append_of_first hfirst)) (Nat.add_le_add_iff_left.1 hle)
    rw [byteLength_append, ← Nat.add_assoc] at hmem
    exact ⟨front', rfl, rfl, hmem⟩
  · rintro ⟨front', rfl, rfl, hmem⟩
    rw [byteLength_append, ← Nat.add_assoc]
    exact hmem

/-- A relation is a lexeme of a text exactly where it stands as a sign of its own. -/
theorem mem_scanFrom_iff {front rest : List Char} {op : Operator} (offset : Nat)
    (hop : op.isRelation = true) :
    ⟨⟨.operator op, op.typed.toList⟩, offset + byteLength front⟩ ∈
        scanFrom offset (front ++ (op.typed.toList ++ rest)) ↔
      op.RelationSign front rest := by
  cases hs : front ++ (op.typed.toList ++ rest) with
  | nil => simp [op.typed_ne_nil] at hs
  | cons c s =>
    cases hblank : isBlank c with
    | true =>
      have hc : c ∉ Operator.signChars := Operator.not_mem_signChars (by decide) hblank
      cases front with
      | nil =>
        -- A sign does not start with a blank.
        exact absurd (Operator.mem_of_typed_append hop hs) hc
      | cons d front =>
        rw [List.cons_append] at hs
        obtain ⟨rfl, rfl⟩ := List.cons.inj hs
        have hsilent : Operator.Silent [d] (front ++ (op.typed.toList ++ rest)) :=
          .inl (List.forall_mem_singleton.2 hc)
        rw [scanFrom_blank offset _ hblank, byteLength_cons, ← Nat.add_assoc,
          mem_scanFrom_iff _ hop, ← List.singleton_append,
          Operator.relationSign_append_iff hsilent.endsSigns]
    | false =>
      obtain ⟨⟨lexeme, tail⟩, hfirst⟩ : ∃ taken, Lexeme.first c s = taken := ⟨_, rfl⟩
      rw [mem_scanFrom_cons_iff offset hblank hfirst hs.symm,
        relationSign_iff_of_first hfirst hop hs.symm]
      refine or_congr_right (exists_congr fun front' => and_congr_right fun hfront =>
        and_congr_right fun _ => ?_)
      have hshorter : front'.length < front.length := by
        have hpos := List.length_pos_iff.2 (Lexeme.text_ne_nil_of_first hfirst)
        rw [hfront, List.length_append]
        omega
      exact mem_scanFrom_iff _ hop
termination_by front.length

/-- A relation is a lexeme of a line exactly where it stands as a sign of its own. -/
theorem mem_scan_iff {front rest : List Char} {op : Operator} (hop : op.isRelation = true) :
    ⟨⟨.operator op, op.typed.toList⟩, byteLength front⟩ ∈
        scan (front ++ (op.typed.toList ++ rest)) ↔
      op.RelationSign front rest := by
  rw [scan, ← Nat.zero_add (byteLength front), mem_scanFrom_iff 0 hop]

end PlacedLexeme

end MathLine
