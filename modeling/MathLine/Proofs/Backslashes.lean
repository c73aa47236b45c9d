import Mathlib.Data.List.Chain
import MathLine.Proofs.Escaping
import MathLine.Proofs.Printing

set_option autoImplicit false

/-!
# Backslashes in what is written

The marks that set steps apart have something that no line of TeX has: the line break has
two backslashes side by side, and the gap before an explanation has a backslash before a
`q`.  `Leads` says of a text that all its backslashes stand before characters of a given
kind, so that none stands at its end either, and is kept when texts are put together.

Nothing that is written for a line begins a command with a `q` or has two backslashes
side by side (`leads_outerRow`), and neither has an escaped text (`leads_escape`).
-/

namespace MathLine.Tex

/-- In `s` every backslash has a character after it, and that character is allowed. -/
def Leads (allowed : Char → Bool) (s : List Char) : Prop :=
  (s.IsChain fun a b => a = '\\' → allowed b = true) ∧ s.getLast? ≠ some '\\'

instance (allowed : Char → Bool) (s : List Char) : Decidable (Leads allowed s) :=
  inferInstanceAs (Decidable (_ ∧ _))

variable {allowed : Char → Bool}

theorem leads_nil : Leads allowed [] := ⟨List.isChain_nil, by simp⟩

/-- A text that does not end in a backslash may be followed by anything of its kind. -/
theorem Leads.append {s t : List Char} (hs : Leads allowed s) (ht : Leads allowed t) :
    Leads allowed (s ++ t) := by
  constructor
  · refine List.isChain_append.2 ⟨hs.1, ht.1, ?_⟩
    rintro _ hlast _ _ rfl
    exact absurd hlast hs.2
  · rw [List.getLast?_append]
    cases hlast : t.getLast? with
    | none => simpa using hs.2
    | some c => simpa [hlast] using ht.2

theorem leads_of_not_mem {s : List Char} (h : '\\' ∉ s) : Leads allowed s := by
  constructor
  · apply List.isChain_iff_forall_rel_of_append_cons_cons.2
    rintro _ b before after rfl rfl
    exact absurd (by simp) h
  · intro hlast
    exact h (List.mem_of_getLast? hlast)

theorem Leads.mono {other : Char → Bool} (hallowed : ∀ c, allowed c = true → other c = true)
    {s : List Char} (h : Leads allowed s) : Leads other s :=
  ⟨h.1.imp fun _ b hab ha => hallowed b (hab ha), h.2⟩

/-- A backslash does not stand before a character that is not allowed. -/
theorem Leads.absent {s : List Char} (h : Leads allowed s) {c : Char} (hc : allowed c = false) :
    ¬ ['\\', c] <:+: s := by
  rintro ⟨before, after, hs⟩
  have hpair := List.isChain_iff_forall_rel_of_append_cons_cons.1 h.1
    (show s = before ++ '\\' :: c :: after by simp [← hs])
  exact absurd ((hpair rfl).symm.trans hc) (by simp)

/-! ## What the printer writes -/

/-- What a backslash stands before in a line of TeX. -/
def beginsCommand (c : Char) : Bool := c != '\\' && c != 'q'

theorem leads_escapeChar (mode : Mode) (c : Char) : Leads beginsCommand (escapeChar mode c) := by
  by_cases h : c ∈ special
  · have hall : special.all fun c => decide (Leads beginsCommand (escapeChar mode c)) := by
      cases mode <;> decide
    exact of_decide_eq_true (List.all_eq_true.1 hall c h)
  · rw [escapeChar_of_not_special mode h]
    apply leads_of_not_mem
    rw [List.mem_singleton]
    rintro rfl
    exact h (by decide)

theorem leads_function : ∀ entry ∈ functions, Leads beginsCommand entry.2.toList := by
  have hall : functions.all fun entry => decide (Leads beginsCommand entry.2.toList) := by
    decide
  exact fun entry h => of_decide_eq_true (List.all_eq_true.1 hall entry h)

theorem stable_leads : Stable (Leads beginsCommand) where
  nil := leads_nil
  append := Leads.append
  space := by decide
  braced hs := (Leads.append (by decide : Leads _ ['{']) hs).append (by decide)
  bracketed hs := (Leads.append (by decide : Leads _ "\\left(".toList) hs).append (by decide)
  script sign h := by
    obtain rfl | rfl : sign = '^' ∨ sign = '_' := by simpa using h
    all_goals decide
  command word h := by
    obtain rfl | rfl | rfl : word = "\\text" ∨ word = "\\sqrt" ∨ word = "\\frac" := by
      simpa using h
    all_goals decide
  operator op := by cases op <;> decide
  function := leads_function
  escapeChar := leads_escapeChar

theorem leads_escape (mode : Mode) (s : List Char) : Leads beginsCommand (escape mode s) :=
  stable_leads.escape mode s

/-- Numbers and letters that have their shape are typed with letters, digits and points. -/
theorem of_mem_verbatim {n : Node} (h : n.HasShape) {c : Char} (hc : c ∈ verbatim n) :
    c.isAlpha = true ∨ Numeral.isStart c = true := by
  cases n with
  | number digits => exact .inr (Numeral.IsNumeral.isStart_of_mem h c hc)
  | letter d =>
    rw [List.mem_singleton.1 hc]
    exact .inl h
  | subscript base script =>
    rcases h.1 with hbase | ⟨d, hbase, hd⟩
    · exact .inr (hbase.isStart_of_mem c hc)
    · rw [verbatim, hbase] at hc
      rw [List.mem_singleton.1 hc]
      exact .inl hd
  | _ => exact absurd hc List.not_mem_nil

/-- Numbers and letters that have their shape are typed without a backslash. -/
theorem not_mem_verbatim {n : Node} (h : n.HasShape) : '\\' ∉ verbatim n := by
  intro hmem
  rcases of_mem_verbatim h hmem with hc | hc <;> exact absurd hc (by decide)

/-- In a line that was read, backslashes stand only before what begins a command. -/
theorem leads_outerRow (s : List Char) : Leads beginsCommand (outerRow (Node.readLine s)) := by
  apply stable_leads.outerRow
  intro m hm
  exact leads_of_not_mem (not_mem_verbatim (hasShape_of_mem_readLine s m hm))

end MathLine.Tex
