import PdfObjects.Body
import PdfObjects.Scan.Parsing

/-! How runs end. What a program answers, and the state in which it leaves the reader, are told step by
step: a step ends in a state from which the rest ends as expected. A program that may fail has two ends,
one for its value and one for its error, and what follows it starts from the first alone. -/
namespace PdfObjects

variable {σ α β : Type} [Readable σ]

namespace Scan

/-- A run from a state ends with an answer and in a state that are expected together. -/
structure Meets (program : Scan α) (s : σ) (expected : α → σ → Prop) : Prop where
  holds : expected (program.run s).1 (program.run s).2

variable {program : Scan α} {rest : α → Scan β} {s : σ} {expected : α → σ → Prop}

theorem meets_pure {value : α} (holds : expected value s) : (pure value : Scan α).Meets s expected :=
  ⟨holds⟩

/-- What a run comes to, as such. -/
theorem meets_ran (program : Scan α) (s : σ) : program.Meets s fun value t => program.run s = (value, t) :=
  ⟨rfl⟩

theorem Meets.mono {weaker : α → σ → Prop} (meets : program.Meets s expected)
    (implies : ∀ value t, expected value t → weaker value t) : program.Meets s weaker :=
  ⟨implies _ _ meets.holds⟩

/-- The rest starts where the first step ended. -/
theorem Meets.bind {later : β → σ → Prop} (first : program.Meets s expected)
    (next : ∀ value t, expected value t → (rest value).Meets t later) :
    (program >>= rest).Meets s later :=
  ⟨(next _ _ first.holds).holds⟩

theorem meets_ite {condition : Prop} [Decidable condition] {other : Scan α}
    (yes : condition → program.Meets s expected) (no : ¬ condition → other.Meets s expected) :
    (if condition then program else other).Meets s expected :=
  iteInduction (motive := fun p => Meets p s expected) yes no

end Scan

namespace Parse

/-- The step after one whose outcome is handed out sees the error too. -/
theorem run_bind_outcome (program : Parse α) (next : Except Error α → Parse β) (s : σ) :
    (outcome program >>= next).run.run s =
      (next (program.run.run s).1).run.run (program.run.run s).2 := rfl

/-- A run from a state ends with a value as expected, or with an error as expected. -/
structure Meets (program : Parse α) (s : σ) (done : α → σ → Prop) (failed : Error → σ → Prop) :
    Prop where
  value : ∀ v t, program.run.run s = (.ok v, t) → done v t
  error : ∀ e t, program.run.run s = (.error e, t) → failed e t

variable {program : Parse α} {rest : α → Parse β} {s : σ} {done : α → σ → Prop}
  {failed : Error → σ → Prop}

/-- Both ends of a program, put together. -/
theorem Meets.run {expected : Except Error α → σ → Prop}
    (meets : program.Meets s (fun v => expected (.ok v)) fun e => expected (.error e)) :
    program.run.Meets s expected := by
  constructor
  cases ran : program.run.run s with
  | mk result t =>
    cases result with
    | ok v => exact meets.value v t ran
    | error e => exact meets.error e t ran

theorem Meets.mono {weaker : α → σ → Prop} {milder : Error → σ → Prop}
    (meets : program.Meets s done failed) (value : ∀ v t, done v t → weaker v t)
    (error : ∀ e t, failed e t → milder e t) : program.Meets s weaker milder :=
  ⟨fun v t ran => value v t (meets.value v t ran), fun e t ran => error e t (meets.error e t ran)⟩

/-- Programs that run alike meet the same expectations. -/
theorem Meets.alike {other : Parse α} (meets : other.Meets s done failed)
    (same : program.run.run s = other.run.run s) : program.Meets s done failed :=
  ⟨fun v t ran => meets.value v t (same ▸ ran), fun e t ran => meets.error e t (same ▸ ran)⟩

theorem meets_pure {value : α} (holds : done value s) : (pure value : Parse α).Meets s done failed := by
  constructor
  · rintro _ _ ⟨⟩
    exact holds
  · rintro _ _ ⟨⟩

theorem meets_throw {error : Error} (holds : failed error s) :
    (throw error : Parse α).Meets s done failed := by
  constructor
  · rintro _ _ ⟨⟩
  · rintro _ _ ⟨⟩
    exact holds

/-- A step that cannot fail. -/
theorem meets_lift {scan : Scan α} (meets : scan.Meets s done) :
    (liftM scan : Parse α).Meets s done failed := by
  constructor
  · rintro _ _ ⟨⟩
    exact meets.holds
  · rintro _ _ ⟨⟩

/-- An error of the first step is the error of the whole. -/
theorem Meets.bind {later : β → σ → Prop} (first : program.Meets s done failed)
    (next : ∀ v t, done v t → (rest v).Meets t later failed) :
    (program >>= rest).Meets s later failed := by
  cases ran : program.run.run s with
  | mk result after =>
    cases result with
    | ok v =>
      have meets := next v after (first.value v after ran)
      exact ⟨by rw [run_bind_ok ran]; exact meets.value, by rw [run_bind_ok ran]; exact meets.error⟩
    | error e =>
      have meets := first.error e after ran
      constructor
      · rw [run_bind_error ran]
        rintro _ _ ⟨⟩
      · rw [run_bind_error ran]
        rintro _ _ ⟨⟩
        exact meets

theorem meets_lift_bind {scan : Scan α} {later : β → σ → Prop} (first : scan.Meets s done)
    (next : ∀ v t, done v t → (rest v).Meets t later failed) :
    ((liftM scan : Parse α) >>= rest).Meets s later failed :=
  (meets_lift first).bind next

/-- What follows an error is not run. -/
theorem meets_throw_bind {error : Error} {later : β → σ → Prop} (holds : failed error s) :
    ((throw error : Parse α) >>= rest).Meets s later failed := by
  have thrown : (throw error : Parse α).Meets s (fun _ _ => False) failed := meets_throw holds
  exact thrown.bind fun _ _ never => never.elim

theorem meets_ite {condition : Prop} [Decidable condition] {other : Parse α}
    (yes : condition → program.Meets s done failed) (no : ¬ condition → other.Meets s done failed) :
    (if condition then program else other).Meets s done failed :=
  iteInduction (motive := fun p => Meets p s done failed) yes no

/-- A program whose outcome is handed out does not fail. -/
theorem meets_outcome {expected : Except Error α → σ → Prop}
    (meets : program.Meets s (fun v => expected (.ok v)) fun e => expected (.error e)) :
    (outcome program).Meets s expected failed := by
  have holds := meets.run.holds
  constructor
  · rintro _ _ ⟨⟩
    exact holds
  · rintro _ _ ⟨⟩

end Parse
end PdfObjects
