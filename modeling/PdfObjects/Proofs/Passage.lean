import PdfObjects.Proofs.Delivery
import PdfObjects.Reader
import PdfObjects.Scan.Evolution

/-! Readers touch their source through the gate alone, and no command passes the gate more than once.
So what reads and checks do to a gate is all that a run can do to it: problems stay once they are
there, and a gate through which everything passes never raises one. -/
namespace PdfObjects

namespace Reader

variable {r : Reader}

theorem refill_gate (r : Reader) (start : Nat) :
    (r.refill start).gate =
      (r.gate.read start (min r.options.effectiveWindow (r.gate.size - start))).2 := by
  unfold refill
  split <;> simp_all

theorem fetch_gate (r : Reader) (offset start : Nat) :
    (r.fetch offset start).2.gate = r.gate ∨
      ∃ first length, (r.fetch offset start).2.gate = (r.gate.read first length).2 := by
  unfold fetch
  split
  · exact .inl rfl
  · split
    · exact .inl rfl
    · exact .inr ⟨start, _, r.refill_gate start⟩

theorem next_gate (r : Reader) : r.next.2.gate = (r.byteAt r.position).2.gate := by
  unfold next
  split <;> simp_all

theorem noteTrailer_gate (r : Reader) (ending : UInt8) :
    (r.noteTrailer ending).gate = r.gate ∨
      (r.noteTrailer ending).gate = (r.byteAt r.position).2.gate := by
  unfold noteTrailer
  split
  · exact .inl rfl
  · split
    · exact .inr rfl
    · exact .inl rfl

/-- A command leaves the gate alone, or reads through it once, or has one range of at least a byte
checked. -/
theorem perform_gate (command : Command α) (r : Reader) :
    (Readable.perform command r).2.gate = r.gate ∨
    (∃ offset length, (Readable.perform command r).2.gate = (r.gate.read offset length).2) ∨
    (∃ offset length, 0 < length ∧
      (Readable.perform command r).2.gate = (r.gate.check offset length).2) := by
  have read {after : Reader} {offset start : Nat} (same : after.gate = (r.fetch offset start).2.gate) :
      after.gate = r.gate ∨ (∃ offset length, after.gate = (r.gate.read offset length).2) ∨
        (∃ offset length, 0 < length ∧ after.gate = (r.gate.check offset length).2) := by
    rcases r.fetch_gate offset start with kept | ⟨first, length, passed⟩
    · exact .inl (same.trans kept)
    · exact .inr (.inl ⟨first, length, same.trans passed⟩)
  cases command with
  | next => exact read r.next_gate
  | byteAt position => exact read rfl
  | byteBehind position => exact read rfl
  | block position length => exact .inr (.inl ⟨_, _, rfl⟩)
  | check position length =>
    by_cases empty : length = 0
    · exact .inl (by simp [Readable.perform, check, empty])
    · exact .inr (.inr ⟨position + r.origin, length, Nat.pos_of_ne_zero empty,
        by simp [Readable.perform, check, empty]⟩)
  | noteTrailer ending =>
    rcases r.noteTrailer_gate ending with kept | passed
    · exact .inl kept
    · exact read passed
  | position | seek | documentSize | settings | keepWord | lastWord => exact .inl rfl

theorem fetch_kept (r : Reader) (offset start : Nat) :
    ∃ gate window, (r.fetch offset start).2 = { r with gate, window } := by
  unfold fetch
  split
  · exact ⟨r.gate, r.window, rfl⟩
  · split
    · exact ⟨r.gate, r.window, rfl⟩
    · unfold refill
      split <;> exact ⟨_, _, rfl⟩

/-- What a command may change, apart from the gate: the window, the cursor, the last word and the
record. -/
theorem perform_kept (command : Command α) (r : Reader) :
    ∃ gate window position lastWord trailerEnds, (Readable.perform command r).2 =
      { r with gate, window, position, lastWord, trailerEnds } := by
  have fetched := r.fetch_kept
  cases command with
  | next =>
    obtain ⟨gate, window, kept⟩ := fetched (r.position + r.origin) (r.position + r.origin)
    simp only [Readable.perform, next, byteAt]
    split
    · rename_i same
      rw [same] at kept
      cases kept
      exact ⟨_, _, _, _, _, rfl⟩
    · rename_i same
      rw [same] at kept
      cases kept
      exact ⟨_, _, _, _, _, rfl⟩
  | byteAt position =>
    obtain ⟨gate, window, kept⟩ := fetched (position + r.origin) (position + r.origin)
    exact ⟨gate, window, _, _, _, kept⟩
  | byteBehind position =>
    obtain ⟨gate, window, kept⟩ := fetched (position + r.origin) _
    exact ⟨gate, window, _, _, _, kept⟩
  | noteTrailer ending =>
    obtain ⟨gate, window, kept⟩ := fetched (r.position + r.origin) (r.position + r.origin)
    simp only [Readable.perform, noteTrailer, byteAt]
    split
    · exact ⟨_, _, _, _, _, rfl⟩
    · split
      · rw [kept]
        exact ⟨_, _, _, _, _, rfl⟩
      · exact ⟨_, _, _, _, _, rfl⟩
  | check position length =>
    simp only [Readable.perform, check]
    split <;> exact ⟨_, _, _, _, _, rfl⟩
  | block | position | seek | documentSize | settings | keepWord | lastWord =>
    exact ⟨_, _, _, _, _, rfl⟩

/-- A reader on the next level of nesting differs in its depth alone. -/
theorem entered {r inside : Reader} (entered : Readable.enter r = some inside) :
    r.depth < r.options.maxDepth ∧ inside = { r with depth := r.depth + 1 } := by
  change r.enter.toOption = some inside at entered
  unfold enter at entered
  split at entered
  · rename_i left
    cases entered
    exact ⟨left, rfl⟩
  · cases entered

end Reader

namespace Gate

/-- A relation between the gates before and after that holds across reads and checks, goes on from one
to the next, and survives the brackets of a session. -/
structure Evolution (step : Gate → Gate → Prop) : Prop where
  refl : ∀ g, step g g
  trans : ∀ g h k, step g h → step h k → step g k
  read : ∀ g offset length, step g (g.read offset length).2
  check : ∀ g offset length, 0 < length → step g (g.check offset length).2
  session : ∀ g after, step g.reset after → step g (after.restore g.problems)

/-- Such a relation holds between the gates at the ends of every run. -/
theorem Evolution.reader {step : Gate → Gate → Prop} (evolves : Evolution step) :
    Scan.Evolution fun before after : Reader => step before.gate after.gate where
  refl r := evolves.refl r.gate
  trans r s t := evolves.trans r.gate s.gate t.gate
  perform command r := by
    rcases r.perform_gate command with kept | ⟨offset, length, passed⟩ | ⟨offset, length, positive, passed⟩
    · exact kept ▸ evolves.refl _
    · exact passed ▸ evolves.read _ _ _
    · exact passed ▸ evolves.check _ _ _ positive
  session r after := evolves.session r.gate after.gate
  nested r inside after entered step := by
    obtain ⟨_, rfl⟩ := Reader.entered entered
    exact step

theorem read_problems (g : Gate) (offset length : Nat) :
    (g.read offset length).2.problems = g.problems ∨
      (g.read offset length).2.problems.any = true := by
  unfold Gate.read
  split
  · exact .inl rfl
  · split
    · exact .inr (g.request_unavailable offset length)
    · split
      · exact .inl rfl
      · exact .inr (request_unavailable _ _ _)

theorem check_problems (g : Gate) (offset length : Nat) :
    (g.check offset length).2.problems = g.problems ∨
      (g.check offset length).2.problems.any = true := by
  rcases g.check_cases offset length with passed | ⟨_, _, failed⟩
  · exact .inl (by rw [passed])
  · exact .inr (by rw [failed]; exact g.request_unavailable offset length)

/-- Problems do not go away. -/
theorem troubled_evolution :
    Evolution fun g after => g.problems.any = true → after.problems.any = true where
  refl _ := id
  trans _ _ _ first rest := rest ∘ first
  read g offset length troubled := by
    rcases g.read_problems offset length with same | raised
    · rw [same, troubled]
    · exact raised
  check g offset length _ troubled := by
    rcases g.check_problems offset length with same | raised
    · rw [same, troubled]
    · exact raised
  session g after _ troubled := by
    simp [restore, Problems.any_merge, troubled]

end Gate

namespace Gate

/-- What stays of a gate in every run. Only a source with a position of its own is left in another
state. -/
structure Stays (g after : Gate) : Prop where
  availability : after.availability = g.availability
  complete : after.complete = g.complete
  memory : ∀ bytes, g.source = .memory bytes → after.source = .memory bytes

theorem stays_evolution : Evolution Stays where
  refl _ := ⟨rfl, rfl, fun _ => id⟩
  trans _ _ _ first rest := ⟨rest.availability.trans first.availability,
    rest.complete.trans first.complete, fun bytes same => rest.memory bytes (first.memory bytes same)⟩
  read g offset length := by
    have memory bytes (same : g.source = .memory bytes) :
        (g.source.read offset length).2 = .memory bytes := by
      rw [same, Source.read]
      split <;> rfl
    unfold Gate.read
    split
    · exact ⟨rfl, rfl, fun _ => id⟩
    · split
      · exact ⟨rfl, rfl, fun _ => id⟩
      · split
        · rename_i source read
          exact ⟨rfl, rfl, fun bytes same => by simpa [read] using memory bytes same⟩
        · rename_i source read
          exact ⟨rfl, rfl, fun bytes same => by simpa [read, request] using memory bytes same⟩
  check g offset length _ := by
    rcases g.check_cases offset length with passed | ⟨_, _, failed⟩
    · rw [passed]
      exact ⟨rfl, rfl, fun _ => id⟩
    · rw [failed]
      exact ⟨rfl, rfl, fun _ => id⟩
  session _ _ inside := ⟨inside.availability, inside.complete, inside.memory⟩

end Gate

namespace Reader

/-- What no run changes, apart from the gate. -/
structure Continues (r after : Reader) : Prop where
  origin : after.origin = r.origin
  options : after.options = r.options
  depth : after.depth = r.depth

theorem continues : Scan.Evolution Continues where
  refl _ := ⟨rfl, rfl, rfl⟩
  trans _ _ _ first rest :=
    ⟨rest.origin.trans first.origin, rest.options.trans first.options, rest.depth.trans first.depth⟩
  perform command r := by
    obtain ⟨gate, window, position, lastWord, trailerEnds, kept⟩ := r.perform_kept command
    rw [kept]
    exact ⟨rfl, rfl, rfl⟩
  session _ _ inside := ⟨inside.origin, inside.options, inside.depth⟩
  nested r inside after entered kept := by
    obtain ⟨_, rfl⟩ := Reader.entered entered
    exact ⟨kept.origin, kept.options, congrArg (· - 1) kept.depth⟩

theorem Continues.limits {r after : Reader} (continues : r.Continues after) : after.limits = r.limits := by
  simp only [Reader.limits, continues.options, continues.depth]

end Reader

namespace Scan

/-- Problems do not go away in the course of a run. -/
theorem problems_stay (program : Scan α) (r : Reader) (troubled : r.gate.problems.any = true) :
    (program.run r).2.gate.problems.any = true :=
  Gate.troubled_evolution.reader.run program r troubled

/-- A run that ends without problems has had none at any time. -/
theorem clear_before {program : Scan α} {r : Reader}
    (clear : (program.run r).2.gate.problems.any = false) : r.gate.problems.any = false := by
  cases troubled : r.gate.problems.any with
  | false => rfl
  | true => rw [program.problems_stay r troubled] at clear; cases clear

end Scan
end PdfObjects
