import MathLine.Proofs.Lexemes
import MathLine.Proofs.WorkbenchHistory

set_option autoImplicit false

/-!
# The log tells the steps

All that is logged while a workbench is used are lines of text.  Still the steps that the
worksheet has can be told from them: `replay` reads the lines one after the other, puts a step
down for each that says that one was added, and strikes it out again when a line says that it
was removed.  `tellsTruth_run` says that after every run what is put down are the steps of the
worksheet, by their numbers, how many parts they have and whether they are explained.

A line may quote what was typed, but it then starts with words of its own, so that nothing can be
typed that is taken for a step (`Change.read?_message`).  What is logged on a request is found
out once (`tells_perform`), and the run follows.
-/

namespace MathLine

open MathLine.Text

/-! ## Numbers in texts -/

/-- The number whose decimal digits a text starts with, and what follows them. -/
def readNumber (s : List Char) : Nat × List Char :=
  (Nat.ofDigitChars 10 (s.takeWhile Char.isDigit) 0, s.dropWhile Char.isDigit)

theorem readNumber_repr_append (n : Nat) {rest : List Char} (hrest : Numeral.stops rest = true) :
    readNumber (n.repr.toList ++ rest) = (n, rest) := by
  have hrepr : n.repr.toList = Nat.toDigits 10 n := String.toList_ofList
  have hdigits : ∀ c ∈ Nat.toDigits 10 n, c.isDigit = true := fun c hc =>
    Nat.isDigit_of_mem_toDigits (by decide) (by decide) hc
  obtain ⟨htake, hdrop⟩ := Numeral.takeWhile_isDigit_of_stops hrest
  rw [readNumber, hrepr, List.takeWhile_append_of_pos hdigits, List.dropWhile_append_of_pos hdigits,
    htake, hdrop, List.append_nil, Nat.ofDigitChars_toDigits (by decide) (by decide)]

/-- The step that a text starts with, and what follows its name. -/
def StepId.read? (s : List Char) : Option (StepId × List Char) :=
  (dropLeading? "step-".toList s).map fun digits =>
    (⟨UInt64.ofNat (readNumber digits).1⟩, (readNumber digits).2)

theorem StepId.read?_name_append (id : StepId) {rest : List Char}
    (hrest : Numeral.stops rest = true) :
    read? (id.name.toList ++ rest) = some (id, rest) := by
  have hcut : dropLeading? "step-".toList (id.name.toList ++ rest) =
      some (id.number.toNat.repr.toList ++ rest) := by
    rw [dropLeading?_eq_some_iff, name, String.toList_append, List.append_assoc]
  rw [read?, hcut, Option.map_some, readNumber_repr_append _ hrest, UInt64.ofNat_toNat]

/-! ## What a line of the log says -/

/-- What the log tells of a step. -/
structure Outline where
  id : StepId
  parts : Nat
  explained : Bool
  deriving DecidableEq, Repr, Inhabited

/-- What is told of a step when it is added. -/
def Step.outline (step : Step) : Outline :=
  ⟨step.id, step.content.parts.length, step.explanation.isSome⟩

/-- A change that is told. -/
inductive Change where
  | added (outline : Outline)
  | removed (id : StepId)
  deriving DecidableEq, Repr, Inhabited

namespace Change

/-- The steps that are put down after the change. -/
def apply (steps : List Outline) : Change → List Outline
  | added outline => steps ++ [outline]
  | removed id => steps.eraseP fun outline => outline.id = id

/-- The change that `s` tells of, if it starts with `Added`. -/
def readAdded? (s : List Char) : Option Change := do
  let (id, s) ← StepId.read? (← dropLeading? "Added ".toList s)
  let (parts, s) := readNumber (← dropLeading? " (".toList s)
  let s ← dropLeading? " parts, explained: ".toList s
  if s = "true)".toList then some (added ⟨id, parts, true⟩)
  else if s = "false)".toList then some (added ⟨id, parts, false⟩)
  else none

/-- The change that `s` tells of, if it starts with `Removed`. -/
def readRemoved? (s : List Char) : Option Change := do
  let (id, s) ← StepId.read? (← dropLeading? "Removed ".toList s)
  if s = [] then some (removed id) else none

/-- The change that a line of the log tells of. -/
def read? (line : String) : Option Change :=
  (readAdded? line.toList).or (readRemoved? line.toList)

end Change

/-- The change that an event makes. -/
def Event.change? : Event → Option Change
  | added id parts explained => some (.added ⟨id, parts, explained⟩)
  | removed id => some (.removed id)
  | _ => none

/-- Nothing is told by a line that starts neither with `Added` nor with `Removed`. -/
theorem Change.read?_eq_none {line : String}
    (hadded : dropLeading? "Added ".toList line.toList = none)
    (hremoved : dropLeading? "Removed ".toList line.toList = none) : read? line = none := by
  rw [read?, readAdded?, readRemoved?, hadded, hremoved]
  rfl

theorem Change.readAdded?_message (id : StepId) (parts : Nat) (explained : Bool) :
    readAdded? (Event.added id parts explained).message.toList =
      some (added ⟨id, parts, explained⟩) := by
  have hcut (word s : List Char) : dropLeading? word (word ++ s) = some s :=
    dropLeading?_eq_some_iff.2 rfl
  simp only [readAdded?, Event.message, String.toList_append, List.append_assoc, hcut,
    Option.bind_eq_bind, Option.bind_some]
  rw [StepId.read?_name_append id rfl]
  simp only [Option.bind_some, hcut]
  rw [readNumber_repr_append parts rfl]
  simp only [Option.bind_some, hcut]
  cases explained <;> rfl

/-- The changes that are told are those that events make. -/
theorem Change.read?_message (event : Event) : read? event.message = event.change? := by
  cases event with
  | added id parts explained =>
    rw [read?, readAdded?_message]
    rfl
  | removed id =>
    have hcut : dropLeading? "Removed ".toList (Event.removed id).message.toList =
        some (id.name.toList ++ []) := by
      rw [dropLeading?_eq_some_iff, Event.message, String.toList_append, List.append_nil]
    have hadded : readAdded? (Event.removed id).message.toList = none := by
      simp only [readAdded?, Event.message, String.toList_append]
      rfl
    rw [read?, hadded, readRemoved?, hcut]
    simp only [Option.bind_eq_bind, Option.bind_some]
    rw [StepId.read?_name_append id rfl]
    rfl
  | noStepToRemove _ | submitting _ | lineRead _ _ _ =>
    refine read?_eq_none ?_ ?_ <;>
      (simp only [Event.message, String.toList_append, List.append_assoc]; rfl)
  | emptyStepRejected | emptySubmissionRejected | nothingToCommit =>
    exact read?_eq_none (by decide) (by decide)

/-- A line that was typed like a change is told as one that was typed. -/
example : Change.read? (Event.lineRead "Removed step-1" 13 .expression).message = none := by
  decide +kernel

/-- No other event is told like the refusal of an empty step. -/
theorem Event.eq_of_message_eq {event : Event}
    (h : event.message = emptyStepRejected.message) : event = emptyStepRejected := by
  have hchars := congrArg String.toList h
  cases event with
  | emptyStepRejected => rfl
  | emptySubmissionRejected | nothingToCommit => exact absurd h (by decide)
  | _ =>
    simp only [message, String.toList_append, List.append_assoc] at hchars
    simp at hchars

/-! ## Replaying -/

/-- The steps that are put down when one more line of the log is read. -/
def heed (steps : List Outline) (line : String) : List Outline :=
  ((Change.read? line).map (Change.apply steps)).getD steps

/-- The steps that are put down when the lines of a log are read, oldest first. -/
def replay (lines : List String) : List Outline := lines.foldl heed []

theorem replay_append (lines more : List String) :
    replay (lines ++ more) = more.foldl heed (replay lines) :=
  List.foldl_append

theorem heed_message (steps : List Outline) (event : Event) :
    heed steps event.message = (event.change?.map (Change.apply steps)).getD steps := by
  rw [heed, Change.read?_message]

/-- Lines that tell of no change change nothing. -/
theorem foldl_heed_of_change?_eq_none {log : List Event}
    (h : ∀ event ∈ log, event.change? = none) (steps : List Outline) :
    (log.map Event.message).foldl heed steps = steps := by
  induction log with
  | nil => rfl
  | cons event log ih =>
    rw [List.forall_mem_cons] at h
    rw [List.map_cons, List.foldl_cons, heed_message, h.1]
    exact ih h.2

namespace Workbench

/-- The lines that were logged, oldest first. -/
def lines (history : List Entry) : List String :=
  history.flatMap fun entry => entry.log.map Event.message

/-! ## What a request logs -/

/-- That the step was added, as it is logged. -/
def addition (step : Step) : Event :=
  .added step.id step.content.parts.length step.explanation.isSome

/-- What is logged with an answer, when the worksheet had the steps `before` and has the steps
`after`. -/
inductive Tells (before : List Step) : Answer → List Event → (after : List Step) → Prop where
  | commits (step : Step) :
    Tells before (.committed (.ok step)) [addition step] (before ++ [step])
  | refuses (rejection : Rejection) :
    Tells before (.committed (.error rejection)) [.nothingToCommit] before
  | removes (id : StepId) (answer : Option Step) :
    Tells before (.removed answer) [.removed id] (before.eraseP fun step => step.id = id)
  | nothing {answer : Answer} {log : List Event} (hanswer : ∀ a, answer ≠ .committed a)
      (hlog : ∀ event ∈ log, event.change? = none ∧ event ≠ .emptyStepRejected) :
    Tells before answer log before

theorem log_commit_of_not_isEmpty {bench : Workbench} (h : bench.current.isEmpty = false) :
    bench.commit.log =
      [addition (bench.sheet.nextStep bench.current (some bench.explanation))] := by
  simp [commit, h, onSheet, Worksheet.add, addition, Worksheet.nextStep]

theorem log_submitTo (bench : Workbench) :
    ∀ event ∈ (bench.perform .submitTo).log,
      event = .emptySubmissionRejected ∨ event = .submitting bench.sheet.steps.length := by
  simp only [perform, Outcome.map, submitNoted_eq, Worksheet.submitNoted_eq]
  split <;> simp

/-- What is logged on each request. -/
theorem tells_perform (bench : Workbench) (request : Request) :
    Tells bench.sheet.steps (bench.perform request).answer (bench.perform request).log
      (bench.perform request).state.sheet.steps := by
  cases request with
  | setInput text =>
    exact .nothing (by simp [perform, Outcome.map]) (List.forall_mem_singleton.2 ⟨rfl, by simp⟩)
  | setExplanation words => exact .nothing (by simp [perform]) (List.forall_mem_nil _)
  | commit =>
    cases hcurrent : bench.current.isEmpty with
    | true =>
      obtain ⟨hanswer, hstate⟩ := commit_of_isEmpty hcurrent
      have hlog : bench.commit.log = [.nothingToCommit] := by simp [commit, hcurrent]
      simp only [perform, Outcome.map, hanswer, hstate, hlog]
      exact .refuses _
    | false =>
      obtain ⟨hanswer, hstate⟩ := commit_of_not_isEmpty hcurrent
      have hadd := (bench.sheet.add_of_not_isEmpty hcurrent (some bench.explanation)).2
      simp only [perform, Outcome.map, hanswer, hstate, hadd, log_commit_of_not_isEmpty hcurrent]
      exact .commits _
  | remove id =>
    cases hstep : bench.sheet.get? id with
    | none =>
      simp only [perform, Outcome.map, remove, onSheet, Worksheet.remove, hstep]
      exact .nothing (by simp) (List.forall_mem_singleton.2 ⟨rfl, by simp⟩)
    | some step =>
      simp only [perform, Outcome.map, remove, onSheet, Worksheet.remove, hstep]
      exact .removes id (some step)
  | submitTo =>
    have hlog := log_submitTo bench
    simp only [perform, Outcome.map, submitNoted_eq] at hlog ⊢
    refine .nothing (by simp) fun event hevent => ?_
    rcases hlog event hevent with rfl | rfl
    · exact ⟨rfl, by simp⟩
    · exact ⟨rfl, by simp⟩

namespace Tells

variable {before after : List Step} {answer : Answer} {log : List Event}

/-- The lines that are logged tell how the steps change. -/
theorem foldl_heed (h : Tells before answer log after) :
    (log.map Event.message).foldl heed (before.map Step.outline) = after.map Step.outline := by
  cases h with
  | commits step =>
    rw [List.map_singleton, List.foldl_cons, List.foldl_nil, heed_message, List.map_append]
    rfl
  | refuses rejection => exact foldl_heed_of_change?_eq_none (List.forall_mem_singleton.2 rfl) _
  | removes id answer =>
    rw [List.map_singleton, List.foldl_cons, List.foldl_nil, heed_message]
    exact List.eraseP_map
  | nothing _ hlog =>
    exact foldl_heed_of_change?_eq_none (fun event hevent => (hlog event hevent).1) _

/-- A step is told to be added only with the answer that hands it back. -/
theorem exists_committed (h : Tells before answer log after) {event : Event}
    (hevent : event ∈ log) {outline : Outline} (hchange : event.change? = some (.added outline)) :
    ∃ step, answer = .committed (.ok step) ∧ outline = step.outline := by
  cases h with
  | commits step =>
    obtain rfl := List.mem_singleton.1 hevent
    exact ⟨step, rfl, (Change.added.inj (Option.some.inj hchange)).symm⟩
  | refuses rejection =>
    obtain rfl := List.mem_singleton.1 hevent
    exact absurd hchange (by simp [Event.change?])
  | removes id answer =>
    obtain rfl := List.mem_singleton.1 hevent
    exact absurd hchange (by simp [Event.change?])
  | nothing _ hlog =>
    rw [(hlog event hevent).1] at hchange
    exact absurd hchange (by simp)

theorem emptyStepRejected_not_mem (h : Tells before answer log after) :
    .emptyStepRejected ∉ log := by
  cases h with
  | commits _ | refuses _ | removes _ _ => simp [addition]
  | nothing _ hlog => exact fun hmem => (hlog _ hmem).2 rfl

end Tells

/-! ## The log of a run -/

/-- What is logged with an entry is true of it. -/
structure Entry.TellsTruth (entry : Entry) : Prop where
  /-- a commit that goes through is logged as the step that was added -/
  committed : ∀ step, entry.answer = .committed (.ok step) → entry.log = [addition step]
  /-- and a step that is told to be added is the one that was committed -/
  added : ∀ event ∈ entry.log, ∀ outline, Change.read? event.message = some (.added outline) →
    ∃ step, entry.answer = .committed (.ok step) ∧ outline = step.outline
  /-- when a commit is refused, the workbench tells so and nothing else is told -/
  refused : ∀ rejection, entry.answer = .committed (.error rejection) →
    entry.log = [.nothingToCommit]
  /-- and the worksheet never tells that it refused a step -/
  emptyStep : ∀ event ∈ entry.log, event.message ≠ Event.emptyStepRejected.message

theorem Tells.tellsTruth {before after : List Step} {entry : Entry}
    (h : Tells before entry.answer entry.log after) : entry.TellsTruth := by
  obtain ⟨request, answer, log⟩ := entry
  constructor
  case committed =>
    rintro step rfl
    cases h with
    | commits => rfl
    | nothing hanswer _ => exact absurd rfl (hanswer _)
  case added =>
    intro event hevent outline hread
    rw [Change.read?_message] at hread
    exact h.exists_committed hevent hread
  case refused =>
    rintro rejection rfl
    cases h with
    | refuses => rfl
    | nothing hanswer _ => exact absurd rfl (hanswer _)
  case emptyStep =>
    intro event hevent hmessage
    exact h.emptyStepRejected_not_mem (Event.eq_of_message_eq hmessage ▸ hevent)

/-- What has been logged is true: it tells the steps that there are, and what became of each
request. -/
structure TellsTruth (course : Course Workbench Request Answer) : Prop where
  steps : replay (lines course.history) = course.state.sheet.steps.map Step.outline
  entries : ∀ entry ∈ course.history, Entry.TellsTruth entry

/-- After every run, the log tells the truth. -/
theorem tellsTruth_run (requests : List Request) : TellsTruth (run requests) := by
  apply Course.run_induction (P := TellsTruth)
  · exact ⟨rfl, List.forall_mem_nil _⟩
  · intro course request ih
    have htells := tells_perform course.state request
    constructor
    case steps =>
      rw [Course.next, lines, List.flatMap_append, ← lines, replay_append, ih.steps,
        List.flatMap_singleton]
      exact htells.foldl_heed
    case entries =>
      intro entry hentry
      rcases List.mem_append.1 hentry with hentry | hentry
      · exact ih.entries entry hentry
      · obtain rfl := List.mem_singleton.1 hentry
        exact htells.tellsTruth

end Workbench

end MathLine
