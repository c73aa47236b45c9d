import Mathlib.Data.List.Basic
import Mathlib.Data.List.Induction
import MathLine.Journal

set_option autoImplicit false

/-!
# Runs

Worksheets and workbenches are used by one request after another, and what they owe to
their user is said of whole runs of requests.  A `Course` is the state that a run has
come to together with all that was exchanged on the way, so that a state can be compared
with its past.

A run is extended at its end (`run_concat`).  `run_induction` is the one induction over
runs: what holds at the start and is kept by each request holds of every course.  What is
known of all courses can also be said of any place of a history, since each exchange was made
at the end of a run of its own (`exists_of_history_eq`).
-/

namespace MathLine

/-- A request, what it was answered, and the events that it caused. -/
structure Exchange (ρ β : Type) where
  request : ρ
  answer : β
  log : List Event

/-- A state, and the exchanges that have led to it, oldest first. -/
structure Course (σ ρ β : Type) where
  state : σ
  history : List (Exchange ρ β)

namespace Course

variable {σ ρ β : Type} (perform : σ → ρ → Outcome σ β)

/-- The exchange in which `request` is made in the state `s`. -/
def exchange (s : σ) (request : ρ) : Exchange ρ β :=
  ⟨request, (perform s request).answer, (perform s request).log⟩

/-- The course after one more request. -/
def next (course : Course σ ρ β) (request : ρ) : Course σ ρ β where
  state := (perform course.state request).state
  history := course.history ++ [exchange perform course.state request]

/-- The course that the requests take from the state `s`. -/
def run (s : σ) (requests : List ρ) : Course σ ρ β := requests.foldl (next perform) ⟨s, []⟩

@[simp] theorem run_concat (s : σ) (requests : List ρ) (request : ρ) :
    run perform s (requests ++ [request]) = next perform (run perform s requests) request :=
  List.foldl_append ..

variable {perform}

/-- What holds at the start and is kept by every request holds after every run. -/
theorem run_induction {P : Course σ ρ β → Prop} {s : σ} (hstart : P ⟨s, []⟩)
    (hnext : ∀ course request, P course → P (next perform course request))
    (requests : List ρ) : P (run perform s requests) := by
  induction requests using List.reverseRecOn with
  | nil => exact hstart
  | append_singleton requests request ih =>
    rw [run_concat]
    exact hnext _ _ ih

/-- Every exchange of a run was made in the state to which the requests before it had led. -/
theorem exists_of_history_eq {s : σ} {requests : List ρ} {earlier later : List (Exchange ρ β)}
    {entry : Exchange ρ β} (h : (run perform s requests).history = earlier ++ entry :: later) :
    ∃ before request, (run perform s before).history = earlier ∧
      entry = exchange perform (run perform s before).state request := by
  induction requests using List.reverseRecOn generalizing later with
  | nil => exact absurd h.symm (by simp [run])
  | append_singleton requests request ih =>
    rw [run_concat, next] at h
    rcases List.eq_nil_or_concat' later with rfl | ⟨later, last, rfl⟩
    · obtain ⟨hearlier, hentry⟩ := List.append_inj' h rfl
      exact ⟨requests, request, hearlier, (List.singleton_inj.1 hentry).symm⟩
    · rw [← List.cons_append, ← List.append_assoc] at h
      exact ih (List.append_inj' h rfl).1

end Course

end MathLine
