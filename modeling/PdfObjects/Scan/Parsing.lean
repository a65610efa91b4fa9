import PdfObjects.Scan

/-! Running programs that may fail. A program stops at the first error and leaves the reader where that
error left it; its steps can be taken one by one, over any kind of reader. -/
namespace PdfObjects.Parse

variable {σ α β : Type} [Readable σ]

@[simp] theorem run_pure (value : α) (s : σ) : (pure value : Parse α).run.run s = (.ok value, s) := rfl

@[simp] theorem run_throw (error : Error) (s : σ) :
    (throw error : Parse α).run.run s = (.error error, s) := rfl

@[simp] theorem run_lift (program : Scan α) (s : σ) :
    (liftM program : Parse α).run.run s = (.ok (program.run s).1, (program.run s).2) := rfl

theorem run_bind (first : Parse α) (rest : α → Parse β) (s : σ) :
    (first >>= rest).run.run s =
      match first.run.run s with
      | (.ok value, after) => (rest value).run.run after
      | (.error error, after) => (.error error, after) := by
  change (first.run >>= ExceptT.bindCont rest : Scan _).run s = _
  rw [Scan.run_bind]
  cases first.run.run s with
  | mk result after => cases result <;> rfl

/-- A step that succeeds hands on its value. -/
theorem run_bind_ok {first : Parse α} {rest : α → Parse β} {s after : σ} {value : α}
    (ran : first.run.run s = (.ok value, after)) :
    (first >>= rest).run.run s = (rest value).run.run after := by rw [run_bind, ran]

/-- A step that fails ends the program. -/
theorem run_bind_error {first : Parse α} {rest : α → Parse β} {s after : σ} {error : Error}
    (ran : first.run.run s = (.error error, after)) :
    (first >>= rest).run.run s = (.error error, after) := by rw [run_bind, ran]

/-- A step that cannot fail. -/
@[simp] theorem run_bind_lift (program : Scan α) (rest : α → Parse β) (s : σ) :
    ((liftM program : Parse α) >>= rest).run.run s =
      (rest (program.run s).1).run.run (program.run s).2 := rfl

/-- How steps are grouped does not matter. -/
theorem run_bind_assoc {γ : Type} (first : Parse α) (next : α → Parse β) (rest : β → Parse γ) (s : σ) :
    ((first >>= next) >>= rest).run.run s = (first >>= fun value => next value >>= rest).run.run s := by
  rw [run_bind, run_bind, run_bind]
  cases first.run.run s with
  | mk result after =>
    cases result with
    | error e => rfl
    | ok value => exact (run_bind (next value) rest after).symm

end PdfObjects.Parse
