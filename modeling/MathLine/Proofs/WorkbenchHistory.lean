import Mathlib.Data.List.DropRight
import MathLine.Proofs.WorksheetHistory
import MathLine.Workbench

set_option autoImplicit false

/-!
# The history of a workbench

A workbench adds to its worksheet nothing but a line that is being written.  This file
says what that line and the worksheet behind it owe to the past.

The line is read off the history: `lastInput` and `lastExplanation` are the last texts
that were set since the last commit that went through.  The worksheet is that of a run
of its own: `carried` lists what a history hands on to it, which is a line for every
commit that goes through, and every removal.

`refines_run` says that after every run the workbench shows the line that its history
says, and has the worksheet to which the carried requests lead.  `commitsWhole_run`
says that a commit then either changes nothing, which happens exactly to a blank line, or
adds one step and clears the line.  The induction for both is `follows_run`: besides the
worksheet itself it keeps track of what the carried additions were answered, which is how
the numbers that commits have given out are known.
-/

namespace MathLine

namespace Workbench

/-! ## Requests -/

/-- What may be asked of a workbench.  The steps that `submitTo` hands over go to a receiver
that takes note of them. -/
inductive Request where
  | setInput (text : String)
  | setExplanation (words : String)
  | commit
  | remove (id : StepId)
  | submitTo

/-- What a request is answered.  If it has a receiver, `calls` is what the receiver was handed,
call by call. -/
inductive Answer where
  | done
  | committed (answer : Except Rejection Step)
  | removed (answer : Option Step)
  | received (answer : Except Rejection Unit) (calls : List (List Step))

/-- The outcome of a submission, and what the receiver was handed, call by call. -/
def submitNoted (bench : Workbench) :
    Outcome Workbench (Except Rejection Unit) × List (List Step) :=
  ((bench.submitTo Worksheet.takeNote).run []).run

/-- Carries out a request. -/
def perform (bench : Workbench) : Request → Outcome Workbench Answer
  | .setInput text => (bench.setInput text).map fun _ => .done
  | .setExplanation words => { state := bench.setExplanation words, answer := .done, log := [] }
  | .commit => bench.commit.map .committed
  | .remove id => (bench.remove id).map .removed
  | .submitTo => bench.submitNoted.1.map fun answer => .received answer bench.submitNoted.2

/-- One entry of the history of a workbench. -/
abbrev Entry : Type := Exchange Request Answer

/-- A run of requests to a workbench on which nothing is written at first. -/
abbrev run (requests : List Request) : Course Workbench Request Answer :=
  Course.run perform empty requests

/-! ## Reading a history -/

/-- The step that was committed, if one was. -/
def Entry.committed? (entry : Entry) : Option Step :=
  match entry.answer with
  | .committed (.ok step) => some step
  | _ => none

/-- The text that the line was set to, if it was. -/
def Entry.input? (entry : Entry) : Option String :=
  match entry.request with
  | .setInput text => some text
  | _ => none

/-- The words that the explanation was set to, if it was. -/
def Entry.explanation? (entry : Entry) : Option String :=
  match entry.request with
  | .setExplanation words => some words
  | _ => none

/-- The steps that were committed, in order, as they were handed back. -/
def committed (history : List Entry) : List Step := history.filterMap Entry.committed?

/-- The entries after the last commit that went through. -/
def sinceCommit (history : List Entry) : List Entry :=
  history.rtakeWhile fun entry => entry.committed?.isNone

/-- The last text of the given sort since the last commit that went through, and the empty
text if there is none. -/
def latest (text? : Entry → Option String) (history : List Entry) : String :=
  ((sinceCommit history).filterMap text?).getLast?.getD ""

/-- The text of the line, as it was last set. -/
def lastInput (history : List Entry) : String := latest Entry.input? history

/-- The words that explain the line, as they were last set. -/
def lastExplanation (history : List Entry) : String := latest Entry.explanation? history

/-- What an entry hands on to the worksheet, given the history before it. -/
def carried? (earlier : List Entry) (entry : Entry) : Option Worksheet.Request :=
  match entry.request with
  | .commit => entry.committed?.map fun _ =>
      .add (.ofString (lastInput earlier)) (some (lastExplanation earlier))
  | .remove id => some (.remove id)
  | _ => none

/-- What the entries after `earlier` hand on to the worksheet. -/
def carriedFrom (earlier : List Entry) : List Entry → List Worksheet.Request
  | [] => []
  | entry :: later => (carried? earlier entry).toList ++ carriedFrom (earlier ++ [entry]) later

/-- What a history hands on to the worksheet: each commit that went through as the addition
of the line as it then was, and each removal. -/
def carried (history : List Entry) : List Worksheet.Request := carriedFrom [] history

@[simp] theorem committed_concat (history : List Entry) (entry : Entry) :
    committed (history ++ [entry]) = committed history ++ entry.committed?.toList := by
  cases h : entry.committed? <;> simp [committed, h]

/-- A commit that goes through leaves nothing of the line. -/
theorem latest_concat_of_committed {text? : Entry → Option String} (history : List Entry)
    {entry : Entry} {step : Step} (h : entry.committed? = some step) :
    latest text? (history ++ [entry]) = "" := by
  simp [latest, sinceCommit, h]

/-- Any other entry leaves the last text, unless it sets one. -/
theorem latest_concat {text? : Entry → Option String} (history : List Entry)
    {entry : Entry} (h : entry.committed? = none) :
    latest text? (history ++ [entry]) = (text? entry).getD (latest text? history) := by
  cases htext : text? entry <;> simp [latest, sinceCommit, h, htext]

theorem carriedFrom_concat (earlier history : List Entry) (entry : Entry) :
    carriedFrom earlier (history ++ [entry]) =
      carriedFrom earlier history ++ (carried? (earlier ++ history) entry).toList := by
  induction history generalizing earlier with
  | nil => simp [carriedFrom]
  | cons first later ih =>
    rw [List.cons_append, carriedFrom, ih, carriedFrom]
    simp

@[simp] theorem carried_concat (history : List Entry) (entry : Entry) :
    carried (history ++ [entry]) = carried history ++ (carried? history entry).toList :=
  carriedFrom_concat [] history entry

/-! ## What one request does -/

/-- What a request does to a workbench. -/
inductive Effect (bench : Workbench) : Request → Answer → Workbench → Prop where
  | writes (text : String) : Effect bench (.setInput text) .done
      { bench with input := text, current := .ofString text }
  | explains (words : String) : Effect bench (.setExplanation words) .done
      { bench with explanation := words }
  | commits (hcurrent : bench.current.isEmpty = false) : Effect bench .commit
      (.committed (.ok (bench.sheet.nextStep bench.current (some bench.explanation))))
      ⟨(bench.sheet.add bench.current (some bench.explanation)).state, "", "", .empty⟩
  | refuses (hcurrent : bench.current.isEmpty = true) : Effect bench .commit
      (.committed (.error .emptyStep)) bench
  | removes (id : StepId) : Effect bench (.remove id) (.removed (bench.sheet.remove id).answer)
      { bench with sheet := (bench.sheet.remove id).state }
  | submits : Effect bench .submitTo
      (.received bench.sheet.submitNoted.1.answer bench.sheet.submitNoted.2) bench

theorem commit_of_isEmpty {bench : Workbench} (h : bench.current.isEmpty = true) :
    bench.commit.answer = .error .emptyStep ∧ bench.commit.state = bench := by
  simp [commit, h]

theorem commit_of_not_isEmpty {bench : Workbench} (h : bench.current.isEmpty = false) :
    bench.commit.answer =
        .ok (bench.sheet.nextStep bench.current (some bench.explanation)) ∧
      bench.commit.state =
        ⟨(bench.sheet.add bench.current (some bench.explanation)).state, "", "", .empty⟩ := by
  simp [commit, h, onSheet, Worksheet.add_of_not_isEmpty]

/-- A submission is that of the worksheet, and the workbench has no part in it. -/
theorem submitTo_eq {m : Type → Type} [Monad m] [LawfulMonad m] (bench : Workbench)
    (receive : List Step → m Unit) :
    bench.submitTo receive =
      (fun outcome => ⟨bench, outcome.answer, outcome.log⟩) <$> bench.sheet.submitTo receive := by
  rw [submitTo, Worksheet.submitTo_eq]
  split <;> simp [onSheet]

theorem submitNoted_eq (bench : Workbench) :
    bench.submitNoted =
      (⟨bench, bench.sheet.submitNoted.1.answer, bench.sheet.submitNoted.1.log⟩,
        bench.sheet.submitNoted.2) := by
  rw [submitNoted, submitTo_eq]
  rfl

/-- The inversion lemma of requests. -/
theorem effect_perform (bench : Workbench) (request : Request) :
    Effect bench request (bench.perform request).answer (bench.perform request).state := by
  cases request with
  | setInput text => exact .writes text
  | setExplanation words => exact .explains words
  | commit =>
    cases hcurrent : bench.current.isEmpty with
    | true =>
      obtain ⟨hanswer, hstate⟩ := commit_of_isEmpty hcurrent
      simp only [perform, Outcome.map, hanswer, hstate]
      exact .refuses hcurrent
    | false =>
      obtain ⟨hanswer, hstate⟩ := commit_of_not_isEmpty hcurrent
      simp only [perform, Outcome.map, hanswer, hstate]
      exact .commits hcurrent
  | remove id => exact .removes id
  | submitTo =>
    simp only [perform, Outcome.map, submitNoted_eq]
    exact .submits

/-- A request leaves the line in step with its text. -/
theorem inStep_perform {bench : Workbench} (h : bench.InStep) (request : Request) :
    (bench.perform request).state.InStep := by
  cases request with
  | setInput text => exact inStep_setInput bench text
  | setExplanation words => exact inStep_setExplanation h words
  | commit => exact inStep_commit h
  | remove id => exact inStep_remove h id
  | submitTo =>
    rw [perform, submitNoted_eq]
    exact h

/-! ## The workbench follows its history -/

/-- What the state of a workbench has to do with its history. -/
structure Follows (course : Course Workbench Request Answer) : Prop where
  input : course.state.input = lastInput course.history
  explanation : course.state.explanation = lastExplanation course.history
  /-- the expression in front is what the line is read as -/
  current : course.state.InStep
  /-- the worksheet is that of the run of carried requests -/
  sheet : (Worksheet.run (carried course.history)).state = course.state.sheet
  /-- what the carried run adds is what the commits have handed back -/
  committed : Worksheet.added (Worksheet.run (carried course.history)).history =
    committed course.history

/-- An entry that is neither a commit that went through nor a removal leaves the worksheet
alone. -/
theorem Follows.edit {course : Course Workbench Request Answer} (h : Follows course)
    {entry : Entry} (hcommitted : entry.committed? = none)
    (hcarried : carried? course.history entry = none) {bench : Workbench}
    (hinput : bench.input = entry.input?.getD course.state.input)
    (hexplanation : bench.explanation = entry.explanation?.getD course.state.explanation)
    (hcurrent : bench.InStep) (hsheet : bench.sheet = course.state.sheet) :
    Follows ⟨bench, course.history ++ [entry]⟩ := by
  have hcarry : carried (course.history ++ [entry]) = carried course.history := by
    simp [hcarried]
  constructor
  · rw [hinput, h.input]
    exact (latest_concat course.history hcommitted).symm
  · rw [hexplanation, h.explanation]
    exact (latest_concat course.history hcommitted).symm
  · exact hcurrent
  · rw [hcarry, hsheet]
    exact h.sheet
  · rw [hcarry, h.committed]
    simp [hcommitted]

/-- An entry that hands on a request is followed, if the worksheet carries out the request
and adds what the entry commits. -/
theorem Follows.carry {course : Course Workbench Request Answer} (h : Follows course)
    {entry : Entry} (request : Worksheet.Request)
    (hcarried : carried? course.history entry = some request) {bench : Workbench}
    (hinput : bench.input = lastInput (course.history ++ [entry]))
    (hexplanation : bench.explanation = lastExplanation (course.history ++ [entry]))
    (hcurrent : bench.InStep)
    (hsheet : bench.sheet = (course.state.sheet.perform request).state)
    (hadded : Worksheet.Entry.added?
      (Course.exchange Worksheet.perform course.state.sheet request) = entry.committed?) :
    Follows ⟨bench, course.history ++ [entry]⟩ := by
  have hrun : Worksheet.run (carried (course.history ++ [entry])) =
      Course.next Worksheet.perform (Worksheet.run (carried course.history)) request := by
    rw [carried_concat, hcarried, Option.toList_some, Worksheet.run_concat]
  constructor
  · exact hinput
  · exact hexplanation
  · exact hcurrent
  · rw [hrun, Course.next, h.sheet, hsheet]
  · rw [hrun, Course.next, h.sheet, Worksheet.added_concat, h.committed, hadded,
      committed_concat]

/-- One more request is followed. -/
theorem Follows.extend {course : Course Workbench Request Answer} (h : Follows course)
    {entry : Entry} {state : Workbench}
    (heffect : Effect course.state entry.request entry.answer state) (hcurrent : state.InStep) :
    Follows ⟨state, course.history ++ [entry]⟩ := by
  obtain ⟨request, answer, log⟩ := entry
  cases heffect with
  | writes text => exact h.edit rfl rfl rfl rfl hcurrent rfl
  | explains words => exact h.edit rfl rfl rfl rfl hcurrent rfl
  | commits hcontent =>
    have hadd := course.state.sheet.add_of_not_isEmpty hcontent (some course.state.explanation)
    refine h.carry (.add course.state.current (some course.state.explanation)) ?_
      (latest_concat_of_committed course.history rfl).symm
      (latest_concat_of_committed course.history rfl).symm hcurrent rfl ?_
    · rw [h.current, h.input, h.explanation]
      rfl
    · exact Worksheet.Entry.added?_eq_some_iff.2 (congrArg Worksheet.Answer.added hadd.1)
  | refuses _ => exact h.edit rfl rfl rfl rfl hcurrent rfl
  | removes id =>
    refine h.carry (.remove id) rfl ?_ ?_ hcurrent rfl rfl
    · rw [lastInput, latest_concat course.history rfl]
      exact h.input
    · rw [lastExplanation, latest_concat course.history rfl]
      exact h.explanation
  | submits => exact h.edit rfl rfl rfl rfl hcurrent rfl

theorem follows_run (requests : List Request) : Follows (run requests) := by
  apply Course.run_induction (P := Follows)
  · exact ⟨rfl, rfl, inStep_empty, rfl, rfl⟩
  · intro course request ih
    exact ih.extend (effect_perform course.state request) (inStep_perform ih.current request)

/-! ## The line and the worksheet behind it -/

/-- A workbench shows the line that its history says, and has the worksheet to which the
carried requests lead. -/
structure Refines (course : Course Workbench Request Answer) : Prop where
  input : course.state.input = lastInput course.history
  explanation : course.state.explanation = lastExplanation course.history
  current : course.state.current = .ofString (lastInput course.history)
  preview : course.state.preview =
    Fragment.ofNodes (Node.readLine (lastInput course.history).toList)
  sheet : course.state.sheet = (Worksheet.run (carried course.history)).state
  /-- a removal does not touch the line -/
  remove : ∀ id, (course.state.remove id).state.input = course.state.input ∧
    (course.state.remove id).state.explanation = course.state.explanation ∧
      (course.state.remove id).state.current = course.state.current
  /-- whatever the receiver does, a submission is that of the worksheet and leaves the workbench
  as it is -/
  submitTo : ∀ {m : Type → Type} [Monad m] [LawfulMonad m] (receive : List Step → m Unit),
    course.state.submitTo receive =
      (fun outcome => ⟨course.state, outcome.answer, outcome.log⟩) <$>
        course.state.sheet.submitTo receive

/-- After every run the workbench is a worksheet behind the line that was last written. -/
theorem refines_run (requests : List Request) : Refines (run requests) := by
  have hfollows := follows_run requests
  have hcurrent : (run requests).state.current =
      .ofString (lastInput (run requests).history) := by
    rw [← hfollows.input]
    exact hfollows.current
  constructor
  case input => exact hfollows.input
  case explanation => exact hfollows.explanation
  case current => exact hcurrent
  case preview => rw [preview, hcurrent, Expression.ofString, Expression.ofNodes]
  case sheet => exact hfollows.sheet.symm
  case remove =>
    intro id
    exact ⟨rfl, rfl, rfl⟩
  case submitTo => exact submitTo_eq _

/-! ## Commits -/

/-- A commit either changes nothing or adds the line as one step and clears it. -/
structure CommitsWhole (course : Course Workbench Request Answer) : Prop where
  /-- only a line without anything to read is refused -/
  refuses : course.state.commit.answer = .error .emptyStep ↔
    Text.isBlankText course.state.input.toList = true
  keeps : Text.isBlankText course.state.input.toList = true →
    course.state.commit.state = course.state
  commits : Text.isBlankText course.state.input.toList = false →
    ∃ step, course.state.commit.answer = .ok step ∧
      step.id.number.toNat = (committed course.history).length + 1 ∧
      (∀ earlier ∈ committed course.history, earlier.id ≠ step.id) ∧
      (∀ kept ∈ course.state.sheet.steps, kept.id ≠ step.id) ∧
      step.content = .ofString course.state.input ∧
      step.explanation = (if Text.isBlankText course.state.explanation.toList then none
        else some course.state.explanation) ∧
      course.state.commit.state =
        ⟨⟨course.state.sheet.steps ++ [step], step.id⟩, "", "", .ofString ""⟩

theorem accounts_carried (requests : List Request)
    (hfew : (committed (run requests).history).length + 1 < UInt64.size) :
    Worksheet.Accounts (Worksheet.run (carried (run requests).history)) := by
  apply Worksheet.accounts_run
  rw [(follows_run requests).committed]
  omega

/-- The number of the next step is the count of the commits that went through, and one more. -/
theorem toNat_nextStep (requests : List Request)
    (hfew : (committed (run requests).history).length + 1 < UInt64.size) (content : Expression)
    (explanation : Option String) :
    ((run requests).state.sheet.nextStep content explanation).id.number.toNat =
      (committed (run requests).history).length + 1 := by
  have hfollows := follows_run requests
  have hlast := (accounts_carried requests hfew).lastId
  rw [hfollows.sheet, hfollows.committed] at hlast
  rw [Worksheet.nextStep, Worksheet.toNat_next (by omega), hlast]

theorem le_of_mem_committed (requests : List Request)
    (hfew : (committed (run requests).history).length + 1 < UInt64.size) :
    ∀ step ∈ committed (run requests).history,
      step.id.number.toNat ≤ (committed (run requests).history).length := by
  intro step hstep
  rw [← (follows_run requests).committed] at hstep ⊢
  exact (accounts_carried requests hfew).le_of_mem_added hstep

/-- Every step of the worksheet was committed. -/
theorem mem_committed_of_mem_steps (requests : List Request)
    (hfew : (committed (run requests).history).length + 1 < UInt64.size) :
    ∀ step ∈ (run requests).state.sheet.steps, step ∈ committed (run requests).history := by
  have hfollows := follows_run requests
  intro step hstep
  rw [← hfollows.sheet] at hstep
  rw [← hfollows.committed]
  exact (accounts_carried requests hfew).mem_added hstep

/-- After every run of fewer than `UInt64.size` commits, the commit at hand included, a commit
does all of its work or none. -/
theorem commitsWhole_run (requests : List Request)
    (hfew : (committed (run requests).history).length + 1 < UInt64.size) :
    CommitsWhole (run requests) := by
  have hcurrent : (run requests).state.current = .ofString (run requests).state.input :=
    (follows_run requests).current
  have hempty : (run requests).state.current.isEmpty =
      Text.isBlankText (run requests).state.input.toList := by
    rw [hcurrent, Bool.eq_iff_iff, Expression.isEmpty_ofString]
  constructor
  case refuses =>
    rw [← hempty]
    cases hblank : (run requests).state.current.isEmpty with
    | true => simp [commit_of_isEmpty hblank]
    | false => simp [commit_of_not_isEmpty hblank]
  case keeps =>
    intro hblank
    exact (commit_of_isEmpty (hempty.trans hblank)).2
  case commits =>
    intro hblank
    obtain ⟨hanswer, hstate⟩ := commit_of_not_isEmpty (hempty.trans hblank)
    have hnumber := toNat_nextStep requests hfew (run requests).state.current
      (some (run requests).state.explanation)
    have hfresh : ∀ earlier ∈ committed (run requests).history,
        earlier.id ≠ ((run requests).state.sheet.nextStep (run requests).state.current
          (some (run requests).state.explanation)).id := by
      intro earlier hearlier heq
      have hle := le_of_mem_committed requests hfew earlier hearlier
      rw [heq, hnumber] at hle
      omega
    refine ⟨_, hanswer, hnumber, hfresh, ?_, hcurrent, ?_, ?_⟩
    · intro kept hkept
      exact hfresh kept (mem_committed_of_mem_steps requests hfew kept hkept)
    · cases hwords : Text.isBlankText (run requests).state.explanation.toList <;>
        simp [Worksheet.nextStep, Option.filter, hwords]
    · rw [hstate, (Worksheet.add_of_not_isEmpty _ (hempty.trans hblank) _).2,
        Expression.ofString_empty]
      rfl

/-- A step is committed with its explanation and removed again, a blank line is refused, and
then another line is written. -/
def briefWork : List Request :=
  [.setInput "x = 1", .setExplanation "why", .commit, .setInput " ", .commit, .remove ⟨1⟩,
   .submitTo, .setInput "(y)"]

theorem commitsWhole_briefWork :
    (committed (run briefWork).history).length + 1 < UInt64.size ∧ CommitsWhole (run briefWork) :=
  have hfew : (committed (run briefWork).history).length + 1 < UInt64.size := by decide +kernel
  ⟨hfew, commitsWhole_run briefWork hfew⟩

end Workbench

end MathLine
