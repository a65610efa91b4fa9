import PdfObjects.Scan

/-! What holds of commands holds of programs. If two readers, in related states, give the same answer
to every command and stay related, then every program gives the same result over both. That reading
does not depend on how bytes are fetched is an instance of this, with a relation of its own. -/
namespace PdfObjects.Scan

variable {σ τ : Type} [Readable σ] [Readable τ]

/-- A relation between the states of two readers that no command, no session and no level of nesting can
break or tell apart. -/
structure Simulation (related : σ → τ → Prop) : Prop where
  perform : ∀ {α : Type} (command : Command α) (s : σ) (t : τ), related s t →
    (Readable.perform command s).1 = (Readable.perform command t).1 ∧
      related (Readable.perform command s).2 (Readable.perform command t).2
  openSession : ∀ (s : σ) (t : τ), related s t →
    related (Readable.openSession s) (Readable.openSession t)
  closeSession : ∀ (s s' : σ) (t t' : τ), related s t → related s' t' →
    (Readable.closeSession s s').1 = (Readable.closeSession t t').1 ∧
      related (Readable.closeSession s s').2 (Readable.closeSession t t').2
  enter : ∀ (s : σ) (t : τ), related s t → Option.Rel related (Readable.enter s) (Readable.enter t)
  leave : ∀ (s : σ) (t : τ), related s t → related (Readable.leave s) (Readable.leave t)

/-- Related readers run every program to the same result, and end related. -/
theorem Simulation.run {related : σ → τ → Prop} (sim : Simulation related) {α : Type}
    (program : Scan α) : ∀ (s : σ) (t : τ), related s t →
      (program.run s).1 = (program.run t).1 ∧ related (program.run s).2 (program.run t).2 := by
  induction program with
  | pure value => exact fun s t h => ⟨rfl, h⟩
  | bind first rest ihFirst ihRest =>
    intro s t h
    obtain ⟨same, related⟩ := ihFirst s t h
    simp only [Scan.run]
    rw [same]
    exact ihRest _ _ _ related
  | perform command => exact sim.perform command
  | session body ih =>
    intro s t h
    obtain ⟨same, inside⟩ := ih _ _ (sim.openSession s t h)
    obtain ⟨sameProblems, related⟩ := sim.closeSession s _ t _ h inside
    simp only [Scan.run]
    exact ⟨by rw [same, sameProblems], related⟩
  | nested body refused ihBody ihRefused =>
    intro s t h
    have entering := sim.enter s t h
    cases left : Readable.enter s <;> cases right : Readable.enter t <;> rw [left, right] at entering
    case none.none =>
      rw [run_refused left, run_refused right]
      exact ihRefused s t h
    case some.some inside other =>
      cases entering with
      | some inner =>
        obtain ⟨same, related⟩ := ihBody inside other inner
        rw [run_entered left, run_entered right]
        exact ⟨same, sim.leave _ _ related⟩
    case none.some | some.none => cases entering

end PdfObjects.Scan
