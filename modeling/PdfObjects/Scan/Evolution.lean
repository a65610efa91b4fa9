import PdfObjects.Scan

/-! What every command does to the state of a reader, every program does. A relation between the states
before and after need only be checked for single commands, and for what a session or a level of nesting
makes of the run inside it; invariants are the relations that hand a property on. -/
namespace PdfObjects.Scan

variable {σ : Type} [Readable σ]

/-- A relation between the states before and after that holds across every command, goes on from one
to the next, and survives the brackets of a session and those of a level of nesting. -/
structure Evolution (step : σ → σ → Prop) : Prop where
  refl : ∀ s, step s s
  trans : ∀ s t u, step s t → step t u → step s u
  perform : ∀ {α : Type} (command : Command α) (s : σ), step s (Readable.perform command s).2
  session : ∀ s after, step (Readable.openSession s) after →
    step s (Readable.closeSession s after).2
  nested : ∀ s inside after, Readable.enter s = some inside → step inside after →
    step s (Readable.leave after)

/-- The relation holds between the ends of every run. -/
theorem Evolution.run {step : σ → σ → Prop} (evolves : Evolution step) {α : Type}
    (program : Scan α) : ∀ s : σ, step s (program.run s).2 := by
  induction program with
  | pure value => exact evolves.refl
  | bind first rest ihFirst ihRest =>
    intro s
    exact evolves.trans _ _ _ (ihFirst s) (ihRest (first.run s).1 (first.run s).2)
  | perform command => exact evolves.perform command
  | session body ih =>
    intro s
    exact evolves.session s _ (ih (Readable.openSession s))
  | nested body refused ihBody ihRefused =>
    intro s
    cases entered : Readable.enter s with
    | none =>
      rw [run_refused entered]
      exact ihRefused s
    | some inside =>
      rw [run_entered entered]
      exact evolves.nested s inside _ entered (ihBody inside)

end PdfObjects.Scan
