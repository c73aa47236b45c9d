import MathLine.Proofs.Backslashes
import MathLine.Proofs.Pieces
import MathLine.Submission

set_option autoImplicit false

/-!
# Taking the steps of a submission apart

What is handed in is one text, and whoever receives it sees only that text.  This file
says that nothing is lost on the way: the text falls into the lines of its steps at the
line breaks, a line falls into the TeX of its content and the explanation at the gap, and
the explanation can be read off its escaped form.

No text that a user wrote can imitate a line break or a gap.  Both are told by a pair of
characters with a backslash (`Leads`), and that neither pair stands in a line or in an
explanation was shown for all that is written.  `takenApart` collects the statements.
-/

namespace MathLine

/-- The content of a step was read from a line. -/
def Step.IsRead (step : Step) : Prop := ∃ s, step.content = Expression.ofString s

namespace Tex

open MathLine.Text

/-! ## A step falls apart at the gap -/

/-- What tells the gap before an explanation. -/
def gapMark : List Char := ['\\', 'q']

theorem borderless_gapMark : Borderless gapMark := by decide

theorem gap_eq : gap = [' '] ++ (gapMark ++ ['u', 'a', 'd', ' ']) := by decide

/-- An explanation after the mark of its gap. -/
def afterMark (words : String) : List Char :=
  ['u', 'a', 'd', ' '] ++ textGroup ('(' :: escape .text words.toList ++ [')'])

theorem explained_eq (words : String) :
    explained words = [' '] ++ (gapMark ++ afterMark words) := by
  rw [explained, gap_eq, afterMark, List.append_assoc, List.append_assoc]

theorem afterMark_inj {words other : String} (h : afterMark words = afterMark other) :
    words = other := by
  have hgroup : textGroup ('(' :: escape .text words.toList ++ [')']) =
      textGroup ('(' :: escape .text other.toList ++ [')']) := List.append_cancel_left h
  have hbraced : braced ('(' :: escape .text words.toList ++ [')']) =
      braced ('(' :: escape .text other.toList ++ [')']) := List.append_cancel_left hgroup
  have hinside := (List.cons.inj (List.append_cancel_right hbraced)).2
  exact String.toList_inj.1 (escape_inj (List.cons.inj (List.append_cancel_right hinside)).2)

theorem leads_content {step : Step} (h : step.IsRead) :
    Leads beginsCommand (outerRow step.content.parts) := by
  obtain ⟨s, hs⟩ := h
  rw [hs]
  exact leads_outerRow s.toList

theorem gapMark_absent {s : List Char} (h : Leads beginsCommand s) : ¬ gapMark <:+: s :=
  h.absent (by decide)

/-- Steps that are written alike have contents that are written alike, and the same
explanation. -/
theorem stepChars_inj {a b : Step} (ha : a.IsRead) (hb : b.IsRead)
    (h : stepChars a = stepChars b) :
    outerRow a.content.parts = outerRow b.content.parts ∧ a.explanation = b.explanation := by
  have hleft := leads_content ha
  have hright := leads_content hb
  have hspace : Leads beginsCommand [' '] := by decide
  unfold stepChars at h
  cases hawords : a.explanation with
  | none =>
    cases hbwords : b.explanation with
    | none => simpa [hawords, hbwords] using h
    | some words =>
      simp only [hawords, hbwords, List.append_nil, explained_eq] at h
      exact absurd ⟨outerRow b.content.parts ++ [' '], afterMark words, by simp [h]⟩
        (gapMark_absent hleft)
  | some words =>
    cases hbwords : b.explanation with
    | none =>
      simp only [hawords, hbwords, List.append_nil, explained_eq] at h
      exact absurd ⟨outerRow a.content.parts ++ [' '], afterMark words, by simp [← h]⟩
        (gapMark_absent hright)
    | some other =>
      simp only [hawords, hbwords, explained_eq, ← List.append_assoc _ [' ']] at h
      obtain ⟨hcontent, hafter⟩ := append_separator_inj (by decide) borderless_gapMark
        (gapMark_absent (hleft.append hspace)) (gapMark_absent (hright.append hspace)) h
      exact ⟨List.append_cancel_right hcontent, congrArg some (afterMark_inj hafter)⟩

/-! ## A list of steps falls apart at the line breaks -/

/-- What a backslash stands before in a line of a submission, gaps included. -/
def isNoBackslash (c : Char) : Bool := c != '\\'

theorem borderless_lineBreak : Borderless lineBreak := by decide

theorem Leads.noBackslash {s : List Char} (h : Leads beginsCommand s) : Leads isNoBackslash s := by
  apply h.mono
  intro c hc
  rw [beginsCommand, Bool.and_eq_true] at hc
  exact hc.1

theorem leads_gap : Leads isNoBackslash gap := by decide

theorem leads_heading (place : Nat) : Leads isNoBackslash (heading place) := by
  have hdigits : Leads beginsCommand (Nat.toDigits 10 place) := by
    apply leads_of_not_mem
    intro hmem
    exact absurd (Nat.isDigit_of_mem_toDigits (by decide) (by decide) hmem) (by decide)
  have htitle : Leads beginsCommand ("Step ".toList ++ Nat.toDigits 10 place ++ [':']) :=
    (Leads.append (by decide) hdigits).append (by decide)
  exact (stable_leads.textGroup htitle).noBackslash.append leads_gap

theorem leads_stepChars {step : Step} (h : step.IsRead) : Leads isNoBackslash (stepChars step) := by
  refine (leads_content h).noBackslash.append ?_
  split
  · next words _ =>
    have hwords : Leads beginsCommand ('(' :: escape .text words.toList ++ [')']) :=
      (Leads.append (s := ['(']) (by decide) (leads_escape .text words.toList)).append (by decide)
    exact leads_gap.append (stable_leads.textGroup hwords).noBackslash
  · exact leads_nil

theorem lineBreak_absent {s : List Char} (h : Leads isNoBackslash s) : ¬ lineBreak <:+: s := by
  have hpair : ['\\', '\\'] <:+: lineBreak := ⟨[' '], ['\n'], rfl⟩
  exact fun hin => h.absent (by decide) (hpair.trans hin)

@[simp] theorem length_stepLines (list : List Step) : (stepLines list).length = list.length := by
  simp [stepLines]

theorem getElem?_stepLines (list : List Step) (i : Nat) :
    (stepLines list)[i]? = list[i]?.map fun step => heading (i + 1) ++ stepChars step := by
  simp [stepLines, Function.comp_def, Nat.add_comm]

/-- Every line is a heading and a step of the list. -/
theorem exists_of_mem_stepLines {list : List Step} {line : List Char} (h : line ∈ stepLines list) :
    ∃ place, ∃ step ∈ list, line = heading place ++ stepChars step := by
  obtain ⟨i, hi⟩ := List.mem_iff_getElem?.1 h
  rw [getElem?_stepLines, Option.map_eq_some_iff] at hi
  obtain ⟨step, hstep, rfl⟩ := hi
  exact ⟨i + 1, step, List.mem_of_getElem? hstep, rfl⟩

theorem lineBreak_absent_of_mem {list : List Step} (h : ∀ step ∈ list, step.IsRead) :
    ∀ line ∈ stepLines list, ¬ lineBreak <:+: line := by
  intro line hline
  obtain ⟨place, step, hstep, rfl⟩ := exists_of_mem_stepLines hline
  exact lineBreak_absent ((leads_heading place).append (leads_stepChars (h step hstep)))

/-- A list of steps falls into its lines at the line breaks. -/
theorem pieces_steps {list : List Step} (hne : list ≠ []) (h : ∀ step ∈ list, step.IsRead) :
    pieces lineBreak (steps list).toList = stepLines list := by
  rw [steps, String.toList_ofList]
  apply pieces_intercalate (by decide) borderless_lineBreak
  · rw [← List.length_pos_iff, length_stepLines]
    exact List.length_pos_iff.2 hne
  · exact lineBreak_absent_of_mem h

/-- The text of no step is empty. -/
theorem stepLines_ne_singleton_nil (list : List Step) : stepLines list ≠ [[]] := by
  intro h
  have hmem : [] ∈ stepLines list := by simp [h]
  obtain ⟨place, step, -, hline⟩ := exists_of_mem_stepLines hmem
  obtain ⟨hheading, -⟩ := List.append_eq_nil_iff.1 hline.symm
  have hgap : gap = [] := (List.append_eq_nil_iff.1 hheading).2
  exact absurd hgap (by decide)

/-- Lists of steps that are written alike have the same lines. -/
theorem stepLines_inj {list other : List Step} (hlist : ∀ step ∈ list, step.IsRead)
    (hother : ∀ step ∈ other, step.IsRead) (h : steps list = steps other) :
    stepLines list = stepLines other := by
  by_cases hl : list = [] <;> by_cases ho : other = []
  · rw [hl, ho]
  · have hpieces := pieces_steps ho hother
    rw [← h, hl] at hpieces
    exact absurd hpieces.symm (stepLines_ne_singleton_nil other)
  · have hpieces := pieces_steps hl hlist
    rw [h, ho] at hpieces
    exact absurd hpieces.symm (stepLines_ne_singleton_nil list)
  · rw [← pieces_steps hl hlist, h, pieces_steps ho hother]

/-- Lists of steps that are written alike have the same explanations in the same places. -/
theorem explanations_inj {list other : List Step} (hlist : ∀ step ∈ list, step.IsRead)
    (hother : ∀ step ∈ other, step.IsRead) (h : steps list = steps other) :
    list.map Step.explanation = other.map Step.explanation := by
  apply List.ext_getElem?
  intro i
  have hline := congrArg (fun lines => lines[i]?) (stepLines_inj hlist hother h)
  simp only [getElem?_stepLines] at hline
  rw [List.getElem?_map, List.getElem?_map]
  cases hl : list[i]? with
  | none =>
    rw [hl, Option.map_none, eq_comm, Option.map_eq_none_iff] at hline
    rw [hline]
  | some a =>
    rw [hl, Option.map_some, eq_comm, Option.map_eq_some_iff] at hline
    obtain ⟨b, ho, hline⟩ := hline
    have hchars := stepChars_inj (hlist a (List.mem_of_getElem? hl))
      (hother b (List.mem_of_getElem? ho)) (List.append_cancel_left hline.symm)
    rw [ho, Option.map_some, Option.map_some, hchars.2]

/-! ## What can be read off a submission -/

/-- The text of `list` can be taken apart, and so can be told from that of `other`. -/
structure TakenApart (list other : List Step) : Prop where
  /-- there is one piece for each step -/
  length : list ≠ [] → (pieces " \\\\\n".toList (steps list).toList).length = list.length
  /-- each piece is the heading of its step and the step -/
  piece : ∀ i (hi : i < list.length), (pieces " \\\\\n".toList (steps list).toList)[i]? =
    some ("\\text" ++ group ("Step " ++ (i + 1).repr ++ ":") ++ " \\quad " ++
      step list[i]).toList
  /-- steps that are written alike have contents written alike and the same explanation -/
  step_inj : ∀ a ∈ list, ∀ b ∈ other, step a = step b →
    line a.content.parts = line b.content.parts ∧ a.explanation = b.explanation
  /-- how many steps there are and whether any is explained is determined by the text -/
  determined : (Submission.ofSteps list).tex = (Submission.ofSteps other).tex →
    (Submission.ofSteps list).stepCount = (Submission.ofSteps other).stepCount ∧
      (Submission.ofSteps list).hasExplanations = (Submission.ofSteps other).hasExplanations

theorem toList_heading_append (place : Nat) (s : Step) :
    ("\\text" ++ group ("Step " ++ place.repr ++ ":") ++ " \\quad " ++ step s).toList =
      heading place ++ stepChars s := by
  have hdigits : place.repr.toList = Nat.toDigits 10 place := String.toList_ofList
  have hstep : (step s).toList = stepChars s := String.toList_ofList
  simp only [String.toList_append, toList_group, hdigits, hstep]
  rfl

/-- Steps whose contents were read from lines can be taken apart, whatever their
explanations are. -/
theorem takenApart {list other : List Step} (hlist : ∀ step ∈ list, step.IsRead)
    (hother : ∀ step ∈ other, step.IsRead) : TakenApart list other := by
  constructor
  case length =>
    intro hne
    rw [← length_stepLines list, ← pieces_steps hne hlist]
    rfl
  case piece =>
    intro i hi
    have hne : list ≠ [] := List.length_pos_iff.1 (by omega)
    have hpieces := pieces_steps hne hlist
    rw [toList_heading_append]
    change (pieces lineBreak _)[i]? = _
    rw [hpieces, getElem?_stepLines, List.getElem?_eq_getElem hi, Option.map_some]
  case step_inj =>
    intro a ha b hb h
    obtain ⟨hcontent, hexplanation⟩ :=
      stepChars_inj (hlist a ha) (hother b hb) (String.ofList_inj.1 h)
    exact ⟨congrArg String.ofList hcontent, hexplanation⟩
  case determined =>
    intro h
    have hmap := explanations_inj hlist hother h
    constructor
    · simpa [Submission.ofSteps] using congrArg List.length hmap
    · have hany := congrArg (fun explanations => explanations.any Option.isSome) hmap
      simpa [Submission.ofSteps, List.any_map, Function.comp_def] using hany

/-- Steps whose texts try to look like line breaks, headings and gaps. -/
def hostileSteps : List Step :=
  [⟨⟨1⟩, .ofString "x^ 2\\", some (" \\\\\n\\text" ++ group "Step 2:" ++ " \\quad y")⟩,
   ⟨⟨4⟩, .ofString ("\\quad \\text" ++ group "(why)"), none⟩, ⟨⟨5⟩, .ofString "", some ""⟩]

theorem takenApart_hostileSteps :
    (∀ step ∈ hostileSteps, step.IsRead) ∧ TakenApart hostileSteps hostileSteps :=
  have hread : ∀ step ∈ hostileSteps, step.IsRead := by
    simp only [hostileSteps, List.forall_mem_cons]
    exact ⟨⟨_, rfl⟩, ⟨_, rfl⟩, ⟨_, rfl⟩, by simp⟩
  ⟨hread, takenApart hread hread⟩

end Tex

end MathLine
