import PdfObjects.Operation
import PdfObjects.Proofs.Recall

/-! Read problems are sticky. A flag that is up stays up, whatever is done with the reader, and nothing
that is done goes otherwise because of it: sessions judge by what they met themselves, and add the rest
when they close. So an old problem neither hides nor fakes a new one. Only two things lower a flag, and
neither is a step here: the request to forget all problems, and a session opened by hand. -/
namespace PdfObjects.Reader

/-- The same reader with other flags at its gate. -/
def flagged (problems : Problems) (r : Reader) : Reader :=
  { r with gate := { r.gate with problems } }

/-- What can be done with a reader from outside: the operations of the reader, the levels of nesting
that a caller takes and gives back, the uses of its gate that pass it by, and the arrival of more of the
document. -/
inductive Step where
  | ask (operation : Operation)
  | enter
  | leave
  /-- Reads a range of the source. -/
  | read (offset length : Nat)
  /-- Has a range of the source checked. -/
  | check (offset length : Nat)
  | checkComplete
  | setComplete
  | arrive (availability : Availability)

namespace Step

/-- Carries out a step. -/
def run : Step → Reader → Answer × Reader
  | .ask operation, r => operation.run r
  | .enter, r =>
    match r.enter with
    | .ok deeper => (.truth true, deeper)
    | .error _ => (.truth false, r)
  | .leave, r => (.done, r.leave)
  | .read offset length, r =>
    let (found, gate) := r.gate.read offset length
    (.bytes (found.map Array.toList), { r with gate })
  | .check offset length, r =>
    let (passed, gate) := r.gate.check offset length
    (.truth passed, { r with gate })
  | .checkComplete, r =>
    let (passed, gate) := r.gate.checkComplete
    (.truth passed, { r with gate })
  | .setComplete, r => (.done, { r with gate := r.gate.setComplete })
  | .arrive availability, r =>
    (.done, { r with gate := { r.gate with availability := some availability } })

/-- What a step leaves to be seen, other than flags. -/
structure Shown where
  answer : Answer
  cursor : Nat
  window : Window
  trailerEnds : Option (List Nat)
  requests : List Extent

/-- What is seen of steps one after the other, and the reader after the last. -/
def trace : List Step → Reader → List Shown × Reader
  | [], r => ([], r)
  | step :: steps, r =>
    let (answer, after) := step.run r
    let (rest, last) := trace steps after
    (⟨answer, after.position, after.window, after.trailerEnds, after.gate.requests⟩ :: rest, last)

end Step

variable (problems : Problems) (r : Reader)

/-- Flags are notes of a reader that has none. -/
theorem flagged_eq_remember : r.flagged problems = (r.flagged {}).remember problems [] := by
  simp [flagged, remember, Gate.remember, Problems.merge]

theorem checkComplete_remember (g : Gate) (requests : List Extent) :
    (g.remember problems requests).checkComplete =
      (g.checkComplete.1, g.checkComplete.2.remember problems requests) := by
  have availability : (g.remember problems requests).availability = g.availability := rfl
  have complete : (g.remember problems requests).complete = g.complete := rfl
  have size : (g.remember problems requests).size = g.size := rfl
  unfold Gate.checkComplete
  rw [availability, complete, size, Gate.remember_request]
  split
  · rfl
  · split
    · rfl
    · split <;> rfl

theorem operation_remember (operation : Operation) :
    operation.run (r.remember problems []) =
      ((operation.run r).1, (operation.run r).2.remember problems []) := by
  cases operation with
  | call asked => exact remember_run asked.program problems [] r
  | trailerEnds => rfl
  | takeTrailerEnds =>
    have ends : (r.remember problems []).trailerEnds = r.trailerEnds := rfl
    simp only [Operation.run, Recording.takeTrailerEnds, takeTrailerEnds, ends]
    split <;> rfl

theorem enter_remember :
    (r.remember problems []).enter = r.enter.map (·.remember problems []) := by
  have depth : (r.remember problems []).depth = r.depth := rfl
  have options : (r.remember problems []).options = r.options := rfl
  unfold enter
  rw [depth, options]
  split <;> rfl

namespace Step

/-- No step tells a reader with notes from one without, or loses a note. -/
theorem run_remember (step : Step) :
    step.run (r.remember problems []) =
      ((step.run r).1, (step.run r).2.remember problems []) := by
  have gate : (r.remember problems []).gate = r.gate.remember problems [] := rfl
  cases step with
  | ask operation => exact operation_remember problems r operation
  | enter =>
    simp only [run, enter_remember]
    cases r.enter <;> rfl
  | read offset length =>
    simp only [run, gate, Gate.remember_read]
    rfl
  | check offset length =>
    simp only [run, gate, Gate.remember_check]
    rfl
  | checkComplete =>
    simp only [run, gate, checkComplete_remember]
    rfl
  | leave | setComplete | arrive => rfl

theorem trace_remember (steps : List Step) : ∀ r : Reader,
    trace steps (r.remember problems []) =
      ((trace steps r).1, (trace steps r).2.remember problems []) := by
  induction steps with
  | nil => exact fun _ => rfl
  | cons step steps ih =>
    intro r
    simp only [trace, run_remember, ih]
    rfl

/-- Read problems are sticky and change nothing. Take any reader, over any source of which anything has
arrived, and any steps. Whatever flags are up at first, the same is seen of every step, and the reader
ends the same in all but its flags. A flag is up in the end exactly if it was up at first or the steps
raise it on a reader without flags. -/
theorem trace_flagged (steps : List Step) (first second : Problems) (r : Reader) :
    (trace steps (r.flagged first)).1 = (trace steps (r.flagged second)).1 ∧
    (trace steps (r.flagged first)).2.flagged {} = (trace steps (r.flagged second)).2.flagged {} ∧
    (trace steps (r.flagged first)).2.gate.problems.readError =
      (first.readError || (trace steps (r.flagged {})).2.gate.problems.readError) ∧
    (trace steps (r.flagged first)).2.gate.problems.unavailable =
      (first.unavailable || (trace steps (r.flagged {})).2.gate.problems.unavailable) := by
  rw [flagged_eq_remember first, flagged_eq_remember second, trace_remember, trace_remember]
  exact ⟨rfl, rfl, Bool.or_comm _ _, Bool.or_comm _ _⟩

end Step
end PdfObjects.Reader
