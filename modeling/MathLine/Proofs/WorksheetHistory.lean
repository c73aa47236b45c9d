import Mathlib.Data.List.Nodup
import MathLine.Proofs.Runs
import MathLine.Worksheet

set_option autoImplicit false

/-!
# The history of a worksheet

A worksheet remembers only the steps that it has and one number.  All that it owes to
its user is about its past, though: which steps it has depends on all that was added and
removed, and a number must never be given out twice.  This file says what the past
determines and shows that the worksheet keeps to it.

The past is the history of a run of requests.  `added` are the steps that were handed
back as added, and `surviving` those of them that nobody has asked to remove since.  A
receiver takes note of its calls, so that the history also says what it was handed.
`Worksheet.TrueTo` lists what a worksheet owes to its history, and `trueTo_run` says that
every run of fewer than `UInt64.size` additions keeps it.

The invariant that carries the induction is `Worksheet.Accounts`: the last number is the
count of the additions, their numbers go up from one without a gap, and the steps are
the surviving ones.
-/

namespace MathLine

namespace Worksheet

/-! ## Requests -/

/-- What may be asked of a worksheet.  The steps that `submitTo` hands over go to a receiver
that takes note of them. -/
inductive Request where
  | add (content : Expression) (explanation : Option String)
  | remove (id : StepId)
  | submit
  | submitTo
  | get (id : StepId)

/-- What a request is answered.  If it has a receiver, `calls` is what the receiver was handed,
call by call. -/
inductive Answer where
  | added (answer : Except Rejection Step)
  | removed (answer : Option Step)
  | submitted (answer : Except Rejection (List Step))
  | received (answer : Except Rejection Unit) (calls : List (List Step))
  | found (answer : Option Step)

/-- A receiver that takes note of what it is handed. -/
def takeNote (steps : List Step) : StateM (List (List Step)) Unit := modify (· ++ [steps])

/-- The outcome of a submission, and what the receiver was handed, call by call. -/
def submitNoted (sheet : Worksheet) :
    Outcome Worksheet (Except Rejection Unit) × List (List Step) :=
  ((sheet.submitTo takeNote).run []).run

/-- Carries out a request. -/
def perform (sheet : Worksheet) : Request → Outcome Worksheet Answer
  | .add content explanation => (sheet.add content explanation).map .added
  | .remove id => (sheet.remove id).map .removed
  | .submit => sheet.submit.map .submitted
  | .submitTo => sheet.submitNoted.1.map fun answer => .received answer sheet.submitNoted.2
  | .get id => { state := sheet, answer := .found (sheet.get? id), log := [] }

/-- One entry of the history of a worksheet. -/
abbrev Entry : Type := Exchange Request Answer

/-- A run of requests to a worksheet that has no steps at first. -/
abbrev run (requests : List Request) : Course Worksheet Request Answer :=
  Course.run perform empty requests

theorem run_concat (requests : List Request) (request : Request) :
    run (requests ++ [request]) = Course.next perform (run requests) request :=
  Course.run_concat ..

/-! ## Reading a history -/

/-- The step that was added, if one was. -/
def Entry.added? (entry : Entry) : Option Step :=
  match entry.answer with
  | .added (.ok step) => some step
  | _ => none

theorem Entry.added?_eq_some_iff {entry : Entry} {step : Step} :
    entry.added? = some step ↔ entry.answer = .added (.ok step) := by
  unfold Entry.added?
  split
  · next other hanswer => simp [hanswer]
  · next hanswer => simpa using hanswer step

/-- Whether it was asked to remove the step with the number `id`. -/
def Entry.removes (id : StepId) (entry : Entry) : Bool :=
  match entry.request with
  | .remove other => other = id
  | _ => false

/-- The steps that were added, in order, as they were handed back. -/
def added (history : List Entry) : List Step := history.filterMap Entry.added?

/-- The steps that were added and that nobody has asked to remove since. -/
def surviving : List Entry → List Step
  | [] => []
  | entry :: later =>
    entry.added?.toList.filter (fun step => !later.any (Entry.removes step.id)) ++
      surviving later

@[simp] theorem added_nil : added ([] : List Entry) = [] := rfl

@[simp] theorem added_concat (history : List Entry) (entry : Entry) :
    added (history ++ [entry]) = added history ++ entry.added?.toList := by
  cases h : entry.added? <;> simp [added, h]

/-- A new entry first removes what it asks to remove, and then adds its step. -/
@[simp] theorem surviving_concat (history : List Entry) (entry : Entry) :
    surviving (history ++ [entry]) =
      (surviving history).filter (fun step => !entry.removes step.id) ++
        entry.added?.toList := by
  induction history with
  | nil => simp [surviving]
  | cons first later ih =>
    rw [List.cons_append, surviving, ih, surviving, List.filter_append, List.filter_filter,
      List.append_assoc]
    simp [Bool.and_comm]

/-- What survives was added. -/
theorem surviving_sublist (history : List Entry) :
    (surviving history).Sublist (added history) := by
  induction history with
  | nil => exact .slnil
  | cons entry later ih =>
    have hfirst : added (entry :: later) = entry.added?.toList ++ added later := by
      cases h : entry.added? <;> simp [added, h]
    rw [surviving, hfirst]
    exact List.filter_sublist.append ih

/-! ## What one request does -/

/-- The step that is made of the given content, if it has any. -/
def nextStep (sheet : Worksheet) (content : Expression) (explanation : Option String) : Step where
  id := sheet.lastId.next
  content := content
  explanation := explanation.filter fun words => !Text.isBlankText words.toList

/-- What a request does to a worksheet: it adds a step, removes one, or changes nothing. -/
inductive Effect (sheet : Worksheet) : Request → Answer → Worksheet → Prop where
  | adds {content : Expression} {explanation : Option String} (hcontent : content.isEmpty = false) :
    Effect sheet (.add content explanation) (.added (.ok (sheet.nextStep content explanation)))
      ⟨sheet.steps ++ [sheet.nextStep content explanation], sheet.lastId.next⟩
  | removes {id : StepId} {step : Step} (hstep : sheet.get? id = some step) :
    Effect sheet (.remove id) (.removed (some step))
      { sheet with steps := sheet.steps.eraseP fun step => step.id = id }
  | nothing {request : Request} {answer : Answer}
      (hadded : ∀ step, answer ≠ .added (.ok step))
      (hremoved : ∀ step, answer ≠ .removed (some step))
      (habsent : ∀ id, request = .remove id → sheet.get? id = none) :
    Effect sheet request answer sheet

theorem get?_eq_none_iff {sheet : Worksheet} {id : StepId} :
    sheet.get? id = none ↔ ∀ step ∈ sheet.steps, step.id ≠ id := by
  simp [get?]

theorem id_of_get? {sheet : Worksheet} {id : StepId} {step : Step}
    (h : sheet.get? id = some step) : step ∈ sheet.steps ∧ step.id = id :=
  ⟨List.mem_of_find?_eq_some h, by simpa using List.find?_some h⟩

@[simp] theorem state_submit (sheet : Worksheet) : sheet.submit.state = sheet := by
  unfold submit
  split <;> rfl

/-- A submission calls its receiver once if there are steps, and with all of them, and else not
at all.  The worksheet is what it was in either case. -/
theorem submitTo_eq {m : Type → Type} [Monad m] (sheet : Worksheet)
    (receive : List Step → m Unit) :
    sheet.submitTo receive =
      if sheet.steps = [] then pure ⟨sheet, .error .noSteps, [.emptySubmissionRejected]⟩
      else do
        receive sheet.steps
        return ⟨sheet, .ok (), [.submitting sheet.steps.length]⟩ := by
  cases hsteps : sheet.steps <;> simp [submitTo, submit, Outcome.map, hsteps]

theorem submitNoted_eq (sheet : Worksheet) :
    sheet.submitNoted =
      if sheet.steps = [] then (⟨sheet, .error .noSteps, [.emptySubmissionRejected]⟩, [])
      else (⟨sheet, .ok (), [.submitting sheet.steps.length]⟩, [sheet.steps]) := by
  rw [submitNoted, submitTo_eq]
  split <;> rfl

@[simp] theorem state_submitNoted (sheet : Worksheet) : sheet.submitNoted.1.state = sheet := by
  rw [submitNoted_eq]
  split <;> rfl

theorem add_of_isEmpty (sheet : Worksheet) {content : Expression} (h : content.isEmpty = true)
    (explanation : Option String) :
    (sheet.add content explanation).answer = .error .emptyStep ∧
      (sheet.add content explanation).state = sheet := by
  simp [add, h]

theorem add_of_not_isEmpty (sheet : Worksheet) {content : Expression}
    (h : content.isEmpty = false) (explanation : Option String) :
    (sheet.add content explanation).answer = .ok (sheet.nextStep content explanation) ∧
      (sheet.add content explanation).state =
        ⟨sheet.steps ++ [sheet.nextStep content explanation], sheet.lastId.next⟩ := by
  simp [add, h, nextStep]

theorem remove_of_absent {sheet : Worksheet} {id : StepId} (h : sheet.get? id = none) :
    (sheet.remove id).answer = none ∧ (sheet.remove id).state = sheet := by
  simp [remove, h]

/-- The inversion lemma of requests. -/
theorem effect_perform (sheet : Worksheet) (request : Request) :
    Effect sheet request (sheet.perform request).answer (sheet.perform request).state := by
  cases request with
  | add content explanation =>
    cases hcontent : content.isEmpty with
    | true =>
      obtain ⟨hanswer, hstate⟩ := sheet.add_of_isEmpty hcontent explanation
      simp only [perform, Outcome.map, hanswer, hstate]
      exact .nothing (by simp) (by simp) (by simp)
    | false =>
      obtain ⟨hanswer, hstate⟩ := sheet.add_of_not_isEmpty hcontent explanation
      simp only [perform, Outcome.map, hanswer, hstate]
      exact .adds hcontent
  | remove id =>
    cases hstep : sheet.get? id with
    | none =>
      obtain ⟨hanswer, hstate⟩ := remove_of_absent hstep
      simp only [perform, Outcome.map, hanswer, hstate]
      exact .nothing (by simp) (by simp) (by simpa using hstep)
    | some step =>
      simp only [perform, remove, hstep, Outcome.map]
      exact .removes hstep
  | submit =>
    simp only [perform, Outcome.map, state_submit]
    exact .nothing (by simp) (by simp) (by simp)
  | submitTo =>
    simp only [perform, Outcome.map, state_submitNoted]
    exact .nothing (by simp) (by simp) (by simp)
  | get id => exact .nothing (by simp [perform]) (by simp [perform]) (by simp)

/-! ## The books are kept -/

/-- What the state of a worksheet has to do with its history. -/
structure Accounts (course : Course Worksheet Request Answer) : Prop where
  /-- the last number is the count of the additions -/
  lastId : course.state.lastId.number.toNat = (added course.history).length
  /-- additions are numbered from one without a gap -/
  numbered : (added course.history).map (fun step => step.id.number.toNat) =
    List.range' 1 (added course.history).length
  /-- the steps are those that survive -/
  steps : course.state.steps = surviving course.history
  /-- a number that has been removed was given out, and no step has it now -/
  gone : ∀ entry ∈ course.history, ∀ id step,
    entry.request = .remove id → entry.answer = .removed (some step) →
      id.number.toNat ≤ (added course.history).length ∧
        ∀ kept ∈ course.state.steps, kept.id ≠ id

theorem Accounts.le_of_mem_added {course : Course Worksheet Request Answer}
    (h : Accounts course) {step : Step} (hstep : step ∈ added course.history) :
    step.id.number.toNat ≤ (added course.history).length := by
  have hmem := List.mem_map_of_mem (f := fun step : Step => step.id.number.toNat) hstep
  rw [h.numbered, List.mem_range'_1] at hmem
  omega

theorem Accounts.mem_added {course : Course Worksheet Request Answer}
    (h : Accounts course) {step : Step} (hstep : step ∈ course.state.steps) :
    step ∈ added course.history :=
  (surviving_sublist course.history).subset (h.steps ▸ hstep)

/-- The steps stand in the order of their numbers. -/
theorem Accounts.ascending {course : Course Worksheet Request Answer}
    (h : Accounts course) :
    course.state.steps.Pairwise fun a b => a.id.number.toNat < b.id.number.toNat := by
  have hadded : (added course.history).Pairwise
      fun a b => a.id.number.toNat < b.id.number.toNat := by
    rw [← List.pairwise_map (f := fun step : Step => step.id.number.toNat), h.numbered]
    exact List.pairwise_lt_range'
  rw [h.steps]
  exact hadded.sublist (surviving_sublist course.history)

/-- No two steps have one number. -/
theorem Accounts.nodup {course : Course Worksheet Request Answer} (h : Accounts course) :
    (course.state.steps.map Step.id).Nodup := by
  rw [List.Nodup, List.pairwise_map]
  apply h.ascending.imp
  intro a b hlt heq
  simp [heq] at hlt

/-- Where no two steps have one number, the first step with a number is the only one. -/
theorem eraseP_eq_filter {steps : List Step} (h : (steps.map Step.id).Nodup) (id : StepId) :
    (steps.eraseP fun step => step.id = id) = steps.filter fun step => step.id ≠ id := by
  induction steps with
  | nil => rfl
  | cons first rest ih =>
    obtain ⟨hfirst, hrest⟩ := List.nodup_cons.1 h
    by_cases hid : first.id = id
    · have hall : ∀ step ∈ rest, step.id ≠ id := by
        intro step hstep heq
        exact hfirst (hid ▸ heq ▸ List.mem_map_of_mem hstep)
      rw [List.eraseP_cons_of_pos (by simpa using hid),
        List.filter_cons_of_neg (by simpa using hid), List.filter_eq_self.2 (by simpa using hall)]
    · rw [List.eraseP_cons_of_neg (by simpa using hid),
        List.filter_cons_of_pos (by simpa using hid), ih hrest]

/-- Where no two steps have one number, a look-up finds the step that has it. -/
theorem get?_eq_some_iff {sheet : Worksheet} (h : (sheet.steps.map Step.id).Nodup) {id : StepId}
    {step : Step} : sheet.get? id = some step ↔ step ∈ sheet.steps ∧ step.id = id := by
  refine ⟨id_of_get?, ?_⟩
  rintro ⟨hmem, rfl⟩
  cases hfound : sheet.get? step.id with
  | none => exact absurd rfl (get?_eq_none_iff.1 hfound step hmem)
  | some other =>
    obtain ⟨hother, hid⟩ := id_of_get? hfound
    rw [List.inj_on_of_nodup_map h hother hmem hid]

theorem toNat_next {id : StepId} (h : id.number.toNat + 1 < UInt64.size) :
    id.next.number.toNat = id.number.toNat + 1 := by
  rw [StepId.next, UInt64.toNat_add]
  exact Nat.mod_eq_of_lt h

/-- An entry whose answer adds nothing leaves the additions as they were. -/
theorem added_concat_of_none (history : List Entry) {entry : Entry}
    (h : entry.added? = none) : added (history ++ [entry]) = added history := by
  simp [h]

/-- An addition is entered under the next number. -/
theorem Accounts.add {course : Course Worksheet Request Answer} (h : Accounts course)
    {entry : Entry} {content : Expression} {explanation : Option String}
    (hrequest : entry.request = .add content explanation)
    (hanswer : entry.added? = some (course.state.nextStep content explanation))
    (hfew : (added course.history).length + 1 < UInt64.size) :
    Accounts ⟨⟨course.state.steps ++ [course.state.nextStep content explanation],
      course.state.lastId.next⟩, course.history ++ [entry]⟩ := by
  have hnext : course.state.lastId.next.number.toNat = (added course.history).length + 1 := by
    rw [toNat_next (h.lastId ▸ hfew), h.lastId]
  have hadded : added (course.history ++ [entry]) =
      added course.history ++ [course.state.nextStep content explanation] := by
    simp [hanswer]
  constructor
  · simpa [hadded] using hnext
  · rw [hadded, List.map_append, h.numbered, List.length_append, List.length_singleton,
      List.range'_1_concat]
    simp [nextStep, hnext, Nat.add_comm]
  · have hkept : (surviving course.history).filter (fun step => !entry.removes step.id) =
        surviving course.history := List.filter_eq_self.2 (by simp [Entry.removes, hrequest])
    rw [surviving_concat, hkept, hanswer, h.steps]
    rfl
  · intro earlier hearlier id step hasked hremoved
    rw [hadded, List.length_append, List.length_singleton]
    rcases List.mem_append.1 hearlier with hearlier | hearlier
    · obtain ⟨hle, hkept⟩ := h.gone earlier hearlier id step hasked hremoved
      refine ⟨by omega, ?_⟩
      intro kept hmem
      rcases List.mem_append.1 hmem with hmem | hmem
      · exact hkept kept hmem
      · rw [List.mem_singleton.1 hmem]
        rintro rfl
        change course.state.lastId.next.number.toNat ≤ _ at hle
        omega
    · rw [List.mem_singleton.1 hearlier, hrequest] at hasked
      exact absurd hasked (by simp)

/-- A removal takes out the one step that has the number. -/
theorem Accounts.remove {course : Course Worksheet Request Answer} (h : Accounts course)
    {entry : Entry} {id : StepId} {step : Step} (hrequest : entry.request = .remove id)
    (hanswer : entry.added? = none) (hstep : course.state.get? id = some step) :
    Accounts ⟨{ course.state with steps := course.state.steps.eraseP fun step => step.id = id },
      course.history ++ [entry]⟩ := by
  obtain ⟨hmem, hid⟩ := id_of_get? hstep
  have hadded := added_concat_of_none course.history hanswer
  have hfilter := eraseP_eq_filter h.nodup id
  constructor
  · rw [hadded]
    exact h.lastId
  · rw [hadded]
    exact h.numbered
  · simp only [surviving_concat, hanswer, ← h.steps, hfilter, Entry.removes, hrequest,
      Option.toList_none, List.append_nil, ne_eq, decide_not, eq_comm (a := id)]
  · intro earlier hearlier other removed hasked hremoved
    rw [hadded]
    simp only [hfilter, List.mem_filter]
    rcases List.mem_append.1 hearlier with hearlier | hearlier
    · obtain ⟨hle, hkept⟩ := h.gone earlier hearlier other removed hasked hremoved
      exact ⟨hle, fun kept hmem => hkept kept hmem.1⟩
    · rw [List.mem_singleton.1 hearlier, hrequest] at hasked
      obtain rfl : id = other := by simpa using hasked
      refine ⟨hid ▸ h.le_of_mem_added (h.mem_added hmem), ?_⟩
      intro kept hmem
      simpa using hmem.2

/-- An entry that changes nothing may be entered at any time. -/
theorem Accounts.nothing {course : Course Worksheet Request Answer} (h : Accounts course)
    {entry : Entry} (hadded : entry.added? = none)
    (hremoved : ∀ step, entry.answer ≠ .removed (some step))
    (habsent : ∀ id, entry.request = .remove id → course.state.get? id = none) :
    Accounts ⟨course.state, course.history ++ [entry]⟩ := by
  have hkept : ∀ step ∈ surviving course.history, entry.removes step.id = false := by
    intro step hstep
    rw [Entry.removes]
    split
    · next id hrequest =>
      have hne := get?_eq_none_iff.1 (habsent id hrequest) step (h.steps ▸ hstep)
      simpa using hne.symm
    · rfl
  have hnone := added_concat_of_none course.history hadded
  constructor
  · rw [hnone]
    exact h.lastId
  · rw [hnone]
    exact h.numbered
  · rw [surviving_concat, hadded, List.filter_eq_self.2 (by simpa using hkept), h.steps]
    simp
  · intro earlier hearlier id step hasked hanswer
    rw [hnone]
    rcases List.mem_append.1 hearlier with hearlier | hearlier
    · exact h.gone earlier hearlier id step hasked hanswer
    · rw [List.mem_singleton.1 hearlier] at hanswer
      exact absurd hanswer (hremoved step)

/-- One more request keeps the accounts. -/
theorem Accounts.extend {course : Course Worksheet Request Answer} (h : Accounts course)
    {entry : Entry} {state : Worksheet}
    (heffect : Effect course.state entry.request entry.answer state)
    (hfew : (added (course.history ++ [entry])).length < UInt64.size) :
    Accounts ⟨state, course.history ++ [entry]⟩ := by
  obtain ⟨request, answer, log⟩ := entry
  cases heffect with
  | adds hcontent => exact h.add rfl rfl (by simpa [Entry.added?] using hfew)
  | removes hstep => exact h.remove rfl rfl hstep
  | nothing hadded hremoved habsent =>
    refine h.nothing ?_ hremoved habsent
    rw [Option.eq_none_iff_forall_ne_some]
    intro step hstep
    exact hadded step (Entry.added?_eq_some_iff.1 hstep)

/-- The accounts are kept by every run that does not run out of numbers. -/
theorem accounts_run (requests : List Request)
    (hfew : (added (run requests).history).length < UInt64.size) : Accounts (run requests) := by
  revert hfew
  apply Course.run_induction
    (P := fun course => (added course.history).length < UInt64.size → Accounts course)
  · intro _
    exact ⟨rfl, rfl, rfl, by simp⟩
  · intro course request ih hfew
    have hless : (added course.history).length < UInt64.size := by
      simp only [Course.next, added_concat, List.length_append] at hfew
      omega
    exact (ih hless).extend (effect_perform course.state request) hfew

/-- What is added has content, and no explanation that is blank. -/
theorem Effect.wellFormed {sheet state : Worksheet} {request : Request} {answer : Answer}
    (h : Effect sheet request answer state) {step : Step} (hstep : answer = .added (.ok step)) :
    step.content.isEmpty = false ∧
      ∀ words ∈ step.explanation, Text.isBlankText words.toList = false := by
  cases h with
  | @adds content explanation hcontent =>
    obtain rfl : sheet.nextStep content explanation = step := by simpa using hstep
    refine ⟨hcontent, ?_⟩
    intro words hwords
    simpa using (Option.mem_filter_iff.1 hwords).2
  | removes _ => exact absurd hstep (by simp)
  | nothing hadded _ _ => exact absurd hstep (hadded step)

theorem wellFormed_of_mem_added (requests : List Request) :
    ∀ step ∈ added (run requests).history, step.content.isEmpty = false ∧
      ∀ words ∈ step.explanation, Text.isBlankText words.toList = false := by
  apply Course.run_induction (P := fun course => ∀ step ∈ added course.history,
    step.content.isEmpty = false ∧
      ∀ words ∈ step.explanation, Text.isBlankText words.toList = false)
  · simp
  · intro course request ih step hstep
    rw [Course.next, added_concat, List.mem_append, Option.mem_toList,
      Entry.added?_eq_some_iff] at hstep
    rcases hstep with hstep | hstep
    · exact ih step hstep
    · exact (effect_perform course.state request).wellFormed hstep

/-- At every place of a history the receiver was handed the steps that survived till then. -/
theorem answer_of_submitTo (requests : List Request)
    (hfew : (added (run requests).history).length < UInt64.size) {earlier later : List Entry}
    {entry : Entry} (hhistory : (run requests).history = earlier ++ entry :: later)
    (hrequest : entry.request = .submitTo) :
    entry.answer =
      if surviving earlier = [] then .received (.error .noSteps) []
      else .received (.ok ()) [surviving earlier] := by
  obtain ⟨before, request, hearlier, rfl⟩ := Course.exists_of_history_eq hhistory
  have hless : (added (run before).history).length < UInt64.size := by
    rw [hhistory, added, List.filterMap_append, List.length_append] at hfew
    rw [hearlier, added]
    omega
  obtain rfl : request = .submitTo := hrequest
  rw [← hearlier, ← (accounts_run before hless).steps]
  simp only [Course.exchange, perform, Outcome.map, submitNoted_eq]
  split <;> rfl

/-! ## What a worksheet owes to its history -/

/-- The state of a worksheet is true to its history. -/
structure TrueTo (course : Course Worksheet Request Answer) : Prop where
  /-- the additions are numbered from one, and what was rejected has no number -/
  numbered : (added course.history).map (fun step => step.id.number.toNat) =
    List.range' 1 (added course.history).length
  /-- the steps are those that were added and not removed since, as they were handed back -/
  steps : course.state.steps = surviving course.history
  ascending : course.state.steps.Pairwise fun a b => a.id.number < b.id.number
  get? : ∀ id step, course.state.get? id = some step ↔
    step ∈ surviving course.history ∧ step.id = id
  /-- a number that was removed stays without a step -/
  gone : ∀ entry ∈ course.history, ∀ id step,
    entry.request = .remove id → entry.answer = .removed (some step) →
      course.state.get? id = none
  wellFormed : ∀ step ∈ course.state.steps, step.content.isEmpty = false ∧
    ∀ words ∈ step.explanation, Text.isBlankText words.toList = false
  remove_absent : ∀ id, (∀ step ∈ course.state.steps, step.id ≠ id) →
    (course.state.remove id).answer = none ∧ (course.state.remove id).state = course.state
  add_rejected : ∀ content explanation rejection,
    (course.state.add content explanation).answer = .error rejection →
      content.isEmpty = true ∧ (course.state.add content explanation).state = course.state
  add_accepted : ∀ content explanation, content.isEmpty = false →
    ∃ step, (course.state.add content explanation).answer = .ok step ∧ step.content = content ∧
      step.explanation = explanation.filter fun words => !Text.isBlankText words.toList
  submit : course.state.submit.state = course.state
  /-- whatever the receiver does, it is called once if there are steps, and with all of them,
  and else not at all -/
  submitTo : ∀ {m : Type → Type} [Monad m] (receive : List Step → m Unit),
    course.state.submitTo receive =
      if course.state.steps = [] then
        pure ⟨course.state, .error .noSteps, [.emptySubmissionRejected]⟩
      else do
        receive course.state.steps
        return ⟨course.state, .ok (), [.submitting course.state.steps.length]⟩
  /-- each receiver of the past was called so, with the steps that survived at its time -/
  calls : ∀ earlier entry later, course.history = earlier ++ entry :: later →
    entry.request = .submitTo →
      entry.answer =
        if surviving earlier = [] then .received (.error .noSteps) []
        else .received (.ok ()) [surviving earlier]

/-- After every run that adds fewer than `UInt64.size` steps, the worksheet is true to all that
has happened. -/
theorem trueTo_run (requests : List Request)
    (hfew : (added (run requests).history).length < UInt64.size) : TrueTo (run requests) := by
  have haccounts := accounts_run requests hfew
  constructor
  case numbered => exact haccounts.numbered
  case steps => exact haccounts.steps
  case ascending => exact haccounts.ascending
  case get? =>
    intro id step
    rw [← haccounts.steps]
    exact get?_eq_some_iff haccounts.nodup
  case gone =>
    intro entry hentry id step hrequest hanswer
    exact get?_eq_none_iff.2 (haccounts.gone entry hentry id step hrequest hanswer).2
  case wellFormed =>
    intro step hstep
    exact wellFormed_of_mem_added requests step (haccounts.mem_added hstep)
  case remove_absent =>
    intro id habsent
    exact remove_of_absent (get?_eq_none_iff.2 habsent)
  case add_rejected =>
    intro content explanation rejection hanswer
    cases hcontent : content.isEmpty with
    | true => exact ⟨rfl, (add_of_isEmpty _ hcontent explanation).2⟩
    | false =>
      rw [(add_of_not_isEmpty _ hcontent explanation).1] at hanswer
      exact absurd hanswer (by simp)
  case add_accepted =>
    intro content explanation hcontent
    exact ⟨_, (add_of_not_isEmpty _ hcontent explanation).1, rfl, rfl⟩
  case submit => exact state_submit _
  case submitTo => exact submitTo_eq _
  case calls =>
    intro earlier entry later
    exact answer_of_submitTo requests hfew

/-- A submission without steps, three additions of which one has a kind that its nodes do not
suggest, one more without content, two removals of which one finds nothing, a submission of
what is left, and a look at the number that is gone. -/
def shortLife : List Request :=
  [.submitTo, .add (.ofNodes [.letter 'x']) (some "why"), .add .empty none,
   .add ⟨.equation, [.letter 'y']⟩ (some " "), .remove ⟨1⟩, .remove ⟨7⟩,
   .add (.ofNodes [.letter 'z']) none, .submitTo, .get ⟨1⟩]

theorem trueTo_shortLife :
    (added (run shortLife).history).length < UInt64.size ∧ TrueTo (run shortLife) :=
  have hfew : (added (run shortLife).history).length < UInt64.size := by decide
  ⟨hfew, trueTo_run shortLife hfew⟩

end Worksheet

end MathLine
