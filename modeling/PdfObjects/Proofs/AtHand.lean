import PdfObjects.Proofs.Levels
import PdfObjects.Proofs.Lexing
import PdfObjects.Scan.Evolution
import PdfObjects.Scan.Parsing
import PdfObjects.Scan.Simulation

/-! Runs over a document at hand. No run changes the document or what limits it, and the cursor does
not leave the document once it is inside. What a run yields depends neither on the record of trailers
nor, where an object is read, on the words read before. -/
namespace PdfObjects

namespace Resident

/-- The same reader without a record. -/
def unrecorded (t : Resident) : Resident := { t with trailerEnds := none }

/-- What no run changes: the document and the limits. -/
structure Continues (t after : Resident) : Prop where
  bytes : after.bytes = t.bytes
  limits : after.limits = t.limits
  inside : t.position ≤ t.bytes.length → after.position ≤ t.bytes.length

theorem continues_next (t : Resident) : t.Continues t.next.2 := by
  unfold next
  split
  · rename_i b found
    obtain ⟨inside, _⟩ := List.getElem?_eq_some_iff.mp found
    exact ⟨rfl, rfl, fun _ => inside⟩
  · exact ⟨rfl, rfl, id⟩

theorem continues_perform (command : Command α) (t : Resident) :
    t.Continues (Readable.perform command t).2 := by
  cases command with
  | next => exact t.continues_next
  | seek position => exact ⟨rfl, rfl, fun _ => Nat.min_le_right _ _⟩
  | byteAt | byteBehind | position | documentSize | settings | block | check | keepWord | lastWord
  | noteTrailer => exact ⟨rfl, rfl, id⟩

/-- The reader at another depth. -/
def atDepth (t : Resident) (depth : Nat) : Resident := { t with limits := { t.limits with depth } }

theorem entered {t inside : Resident} (enters : Readable.enter t = some inside) :
    t.limits.depth < t.limits.nesting ∧ inside = t.atDepth (t.limits.depth + 1) := by
  change t.enter = some inside at enters
  unfold enter at enters
  split at enters
  · rename_i left
    cases enters
    exact ⟨left, rfl⟩
  · cases enters

theorem continues : Scan.Evolution Continues where
  refl _ := ⟨rfl, rfl, id⟩
  trans _ _ _ first rest :=
    ⟨rest.bytes.trans first.bytes, rest.limits.trans first.limits, fun inside =>
      first.bytes ▸ rest.inside (first.bytes.symm ▸ first.inside inside)⟩
  perform := continues_perform
  session _ _ inside := inside
  nested t inside after enters kept := by
    obtain ⟨_, rfl⟩ := entered enters
    refine ⟨kept.bytes, ?_, kept.inside⟩
    change { after.limits with depth := after.limits.depth - 1 } = t.limits
    rw [kept.limits]
    rfl

theorem unrecorded_simulation :
    Scan.Simulation fun t u : Resident => u = t.unrecorded where
  perform command t u same := by
    subst same
    cases command with
    | next =>
      simp only [Readable.perform, next, unrecorded]
      cases t.bytes[t.position]? <;> exact ⟨rfl, rfl⟩
    | noteTrailer | seek | byteAt | byteBehind | position | documentSize | settings | block | check
    | keepWord | lastWord => exact ⟨rfl, rfl⟩
  openSession _ _ same := same
  closeSession _ _ _ _ _ same := ⟨rfl, same⟩
  enter t u same := by
    subst same
    change Option.Rel _ t.enter t.unrecorded.enter
    unfold enter
    change Option.Rel _ _ (if t.limits.depth < t.limits.nesting then _ else _)
    split
    · exact .some rfl
    · exact .none
  leave t u same := by
    subst same
    rfl

theorem perform_atDepth (command : Command α) (t : Resident) (depth : Nat) :
    Readable.perform command (t.atDepth depth) =
      ((Readable.perform command t).1, (Readable.perform command t).2.atDepth depth) := by
  cases command with
  | next =>
    simp only [Readable.perform, next, atDepth]
    split <;> rfl
  | byteAt | byteBehind | noteTrailer | check | block | position | seek | documentSize | settings
  | keepWord | lastWord => rfl

theorem nesting : Scan.Nesting limits atDepth where
  enter _ := rfl
  leave _ := rfl
  deeper _ _ := rfl
  kept program t := (continues.run program t).limits
  settings _ := rfl
  perform := perform_atDepth
  opened _ := rfl
  openSession _ _ := rfl
  closeSession _ _ _ := rfl

end Resident

namespace Scan

theorem run_continues (program : Scan α) (t : Resident) : t.Continues (program.run t).2 :=
  Resident.continues.run program t

/-- Without a record, a run yields the same and ends at the same place. -/
theorem run_unrecorded (program : Scan α) (t : Resident) :
    program.run t.unrecorded = ((program.run t).1, (program.run t).2.unrecorded) := by
  obtain ⟨same, after⟩ := Resident.unrecorded_simulation.run program t _ rfl
  exact Prod.ext same.symm after

/-- A program of which only the document, the limits and the cursor decide what it yields and where it
ends. -/
def Memoryless (program : Scan α) : Prop :=
  ∀ t u : Resident, t.bytes = u.bytes → t.limits = u.limits → t.position = u.position →
    (program.run t).1 = (program.run u).1 ∧ (program.run t).2.position = (program.run u).2.position

/-- It is enough that the last word does not matter as long as nothing is recorded. -/
theorem memoryless_of_keep {program : Scan α}
    (kept : ∀ (t : Resident) word, t.trailerEnds = none →
      (program.run (t.keep word)).1 = (program.run t).1 ∧
        (program.run (t.keep word)).2.position = (program.run t).2.position) :
    program.Memoryless := by
  intro t u bytes limits position
  have other : t.unrecorded = u.unrecorded.keep t.lastWord := by
    simp only [Resident.unrecorded, Resident.keep, bytes, limits, position]
  obtain ⟨value, place⟩ := kept u.unrecorded t.lastWord rfl
  rw [← other, run_unrecorded, run_unrecorded] at value place
  exact ⟨value, place⟩

theorem rawWord_memoryless : rawWord.Memoryless := by
  refine memoryless_of_keep fun t kept quiet => ?_
  rw [rawWord_run (t.hasAhead_drop quiet), rawWord_run ((t.hasAhead_drop quiet).keep kept)]
  exact ⟨rfl, rfl⟩

end Scan

namespace Parse

variable {resolve : Resolver} {mode : Mode} {t : Resident}

/-- The first word of an object takes the place of whatever word was kept. -/
theorem body_memoryless (levels : Nat) : (body resolve levels mode).run.Memoryless := by
  refine Scan.memoryless_of_keep fun t kept quiet => ?_
  cases levels with
  | zero => exact ⟨rfl, rfl⟩
  | succ levels =>
    have read := Scan.word_run (t.hasAhead_drop quiet)
    have readKept := Scan.word_run ((t.hasAhead_drop quiet).keep kept)
    have same : (body resolve (levels + 1) mode).run.run (t.keep kept) =
        (body resolve (levels + 1) mode).run.run t := by
      simp only [body, announced, run_bind_lift, Scan.position_run, read, readKept, Resident.keep_position,
        Resident.keep_limits, Resident.keep_move, Resident.keep_keep]
    rw [same]
    exact ⟨rfl, rfl⟩

theorem headerNumber_run_keep (start : Nat) (fault : SyntaxFault) (kept : Bytes)
    (quiet : t.trailerEnds = none) :
    (headerNumber start fault).run.run (t.keep kept) = (headerNumber start fault).run.run t := by
  have read := Scan.word_run (t.hasAhead_drop quiet)
  have readKept := Scan.word_run ((t.hasAhead_drop quiet).keep kept)
  simp only [headerNumber, run_bind_lift, read, readKept, Resident.keep_limits, Resident.keep_move,
    Resident.keep_keep]

theorem anyObject_run (t : Resident) : (anyObject resolve mode).run.run t =
    (body resolve (t.limits.nesting - t.limits.depth) mode).run.run t :=
  anyObject_levels Resident.nesting t

theorem anyObject_memoryless : (anyObject resolve mode).run.Memoryless := by
  intro t u bytes limits position
  rw [anyObject_run, anyObject_run, limits]
  exact body_memoryless _ t u bytes limits position

theorem headerAndObject_memoryless : (headerAndObject resolve mode).run.Memoryless := by
  refine Scan.memoryless_of_keep fun t kept quiet => ?_
  simp only [headerAndObject, run_bind_lift, Scan.position_run, Resident.keep_position]
  rw [run_bind, run_bind, headerNumber_run_keep _ _ _ quiet]
  exact ⟨rfl, rfl⟩

end Parse
end PdfObjects
