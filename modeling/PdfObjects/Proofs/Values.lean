import PdfObjects.Proofs.Cursor

/-! What runs yield, wherever they start. The settings of a reader and the size of its document stay in
every run, so a claim about values that depends on these alone need not follow the cursor, nor what has
arrived: it holds of a program over all readers of a kind if it holds of its steps. -/
namespace PdfObjects
open Scan (Verdict)

namespace Reader

/-- Two readers with the same settings, of documents of the same size. -/
structure SameBounds (t r : Reader) : Prop where
  size : t.size = r.size
  limits : t.limits = r.limits

theorem SameBounds.run {t r : Reader} (bounds : t.SameBounds r) (program : Scan α) :
    (program.run t).2.SameBounds r := by
  exact ⟨(t.size_run program).trans bounds.size, (Reader.continues.run program t).limits.trans bounds.limits⟩

end Reader

variable {r : Reader} {α β : Type}

namespace Scan

/-- Whatever a program answers is of a kind. -/
def Gives (r : Reader) (program : Scan α) (kind : α → Prop) : Prop :=
  ∀ t : Reader, t.SameBounds r → kind (program.run t).1

variable {program : Scan α} {rest : α → Scan β} {kind : α → Prop} {later : β → Prop}

theorem gives_any (program : Scan α) : Gives r program fun _ => True := fun _ _ => trivial

theorem gives_pure {value : α} (holds : kind value) : Gives r (pure value) kind := fun _ _ => holds

theorem Gives.bind (first : Gives r program kind) (next : ∀ value, kind value → Gives r (rest value) later) :
    Gives r (program >>= rest) later :=
  fun t bounds => next _ (first t bounds) _ (bounds.run program)

/-- A step of whose answer nothing is known. -/
theorem gives_after (next : ∀ value, Gives r (rest value) later) : Gives r (program >>= rest) later :=
  (gives_any program).bind fun value _ => next value

theorem gives_ite {condition : Prop} [Decidable condition] {other : Scan α}
    (yes : condition → Gives r program kind) (no : ¬ condition → Gives r other kind) :
    Gives r (if condition then program else other) kind :=
  iteInduction (motive := fun p => Gives r p kind) yes no

/-- A session does not change what its body answers. -/
theorem Gives.session (gives : Gives r program kind) :
    Gives r (session program) fun result => kind result.1 :=
  fun t bounds => gives (Readable.openSession t) ⟨bounds.size, bounds.limits⟩

/-- A loop over bytes answers as it should if what it holds stays as it should. -/
theorem takeFrom_gives {step : β → UInt8 → Verdict β α} {finish : β → α} (held : β → Prop)
    (more : ∀ state b state', held state → step state b = .more state' → held state')
    (before : ∀ state b answer, held state → step state b = .before answer → kind answer)
    (through : ∀ state b answer, held state → step state b = .through answer → kind answer)
    (finished : ∀ state, held state → kind (finish state)) (fuel : Nat) (state : β)
    (start : held state) : Gives r (takeFrom step finish fuel state) kind := by
  induction fuel generalizing state with
  | zero => exact gives_pure (finished state start)
  | succ fuel ih =>
    unfold takeFrom
    refine gives_after fun found => ?_
    cases found with
    | none => exact gives_pure (finished state start)
    | some b =>
      dsimp only
      cases made : step state b with
      | more state' => exact ih state' (more state b state' start made)
      | before answer => exact gives_after fun _ => gives_pure (before state b answer start made)
      | through answer => exact gives_pure (through state b answer start made)

end Scan

namespace Parse

/-- Whatever a program yields, if it does not fail, is of a kind. -/
def Gives (r : Reader) (program : Parse α) (kind : α → Prop) : Prop :=
  ∀ t : Reader, t.SameBounds r → program.Meets t (fun value _ => kind value) fun _ _ => True

variable {program : Parse α} {rest : α → Parse β} {kind : α → Prop} {later : β → Prop}

theorem gives_any (program : Parse α) : Gives r program fun _ => True :=
  fun _ _ => ⟨fun _ _ _ => trivial, fun _ _ _ => trivial⟩

theorem gives_pure {value : α} (holds : kind value) : Gives r (pure value) kind :=
  fun _ _ => meets_pure holds

theorem gives_throw (error : Error) : Gives r (throw error : Parse α) kind :=
  fun _ _ => meets_throw trivial

theorem Gives.bind (first : Gives r program kind) (next : ∀ value, kind value → Gives r (rest value) later) :
    Gives r (program >>= rest) later := by
  intro t bounds
  have met := first t bounds
  have started : program.Meets t (fun value u => kind value ∧ u.SameBounds r) fun _ _ => True := by
    refine ⟨fun value u ran => ⟨met.value value u ran, ?_⟩, met.error⟩
    have after := bounds.run program.run
    rwa [ran] at after
  exact started.bind fun value u made => next value made.1 u made.2

theorem gives_lift_bind {scan : Scan α} (first : Scan.Gives r scan kind)
    (next : ∀ value, kind value → Gives r (rest value) later) :
    Gives r ((liftM scan : Parse α) >>= rest) later := by
  have lifted : Gives r (liftM scan) kind := fun t bounds => meets_lift ⟨first t bounds⟩
  exact lifted.bind next

/-- A step that cannot fail and of whose answer nothing is known. -/
theorem gives_after {scan : Scan α} (next : ∀ value, Gives r (rest value) later) :
    Gives r ((liftM scan : Parse α) >>= rest) later :=
  gives_lift_bind (Scan.gives_any scan) fun value _ => next value

theorem gives_throw_bind (error : Error) : Gives r ((throw error : Parse α) >>= rest) later :=
  fun _ _ => meets_throw_bind trivial

theorem gives_ite {condition : Prop} [Decidable condition] {other : Parse α}
    (yes : condition → Gives r program kind) (no : ¬ condition → Gives r other kind) :
    Gives r (if condition then program else other) kind :=
  iteInduction (motive := fun p => Gives r p kind) yes no

theorem Gives.mono {weaker : α → Prop} (gives : Gives r program kind)
    (implies : ∀ value, kind value → weaker value) : Gives r program weaker :=
  fun t bounds => (gives t bounds).mono (fun value _ => implies value) fun _ _ => id

/-- An outcome that is handed out has a value of the kind, or it is an error. -/
theorem Gives.outcome (gives : Gives r program kind) :
    Gives r (outcome program) fun result => ∀ value, result = .ok value → kind value := by
  intro t bounds
  refine meets_outcome ((gives t bounds).mono ?_ ?_)
  · rintro value _ holds _ ⟨⟩
    exact holds
  · rintro error _ _ _ ⟨⟩

end Parse
end PdfObjects
