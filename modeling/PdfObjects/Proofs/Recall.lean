import PdfObjects.Proofs.Passage

/-! Problems and requests are noted, but never looked at while reading. A run that starts with some notes
already made goes as it goes without them, and ends with the same notes in addition. -/
namespace PdfObjects

/-- The same gate with earlier notes. -/
def Gate.remember (problems : Problems) (requests : List Extent) (g : Gate) : Gate :=
  { g with problems := g.problems.merge problems, requests := requests ++ g.requests }

/-- The same reader with earlier notes at its gate. -/
def Reader.remember (problems : Problems) (requests : List Extent) (r : Reader) : Reader :=
  { r with gate := r.gate.remember problems requests }

variable (problems : Problems) (requests : List Extent)

namespace Gate

variable (g : Gate) (offset length : Nat)

theorem remember_request :
    (g.remember problems requests).request offset length =
      (g.request offset length).remember problems requests := by
  simp only [request, remember, size, Problems.merge, List.append_assoc]
  rfl

theorem remember_read :
    (g.remember problems requests).read offset length =
      ((g.read offset length).1, (g.read offset length).2.remember problems requests) := by
  have size : (g.remember problems requests).size = g.size := rfl
  have available : (g.remember problems requests).isAvailable offset length =
      g.isAvailable offset length := rfl
  have source : (g.remember problems requests).source = g.source := rfl
  unfold read
  rw [size, available, source]
  split
  · rfl
  · split
    · rw [remember_request]
    · split
      · rfl
      · rw [← remember_request]
        rfl

theorem remember_check :
    (g.remember problems requests).check offset length =
      ((g.check offset length).1, (g.check offset length).2.remember problems requests) := by
  have size : (g.remember problems requests).size = g.size := rfl
  have available length : (g.remember problems requests).isAvailable offset length =
      g.isAvailable offset length := rfl
  unfold check
  simp only [size, available, remember_request]
  split
  · rfl
  · split <;> rfl

end Gate

namespace Reader

variable (r : Reader)

theorem remember_refill (start : Nat) :
    (r.remember problems requests).refill start = (r.refill start).remember problems requests := by
  have read := r.gate.remember_read problems requests start
    (min r.options.effectiveWindow (r.gate.size - start))
  have gate : (r.remember problems requests).gate = r.gate.remember problems requests := rfl
  have options : (r.remember problems requests).options = r.options := rfl
  have size : (r.gate.remember problems requests).size = r.gate.size := rfl
  simp only [refill, gate, options, size, read]
  cases r.gate.read start (min r.options.effectiveWindow (r.gate.size - start)) with
  | mk answer gate => cases answer <;> rfl

theorem remember_fetch (offset start : Nat) :
    (r.remember problems requests).fetch offset start =
      ((r.fetch offset start).1, (r.fetch offset start).2.remember problems requests) := by
  have size : (r.remember problems requests).gate.size = r.gate.size := rfl
  have window : (r.remember problems requests).window = r.window := rfl
  unfold fetch
  rw [size, window]
  split
  · rfl
  · split
    · rfl
    · rw [remember_refill]
      rfl

theorem remember_next :
    (r.remember problems requests).next = (r.next.1, r.next.2.remember problems requests) := by
  have read : (r.remember problems requests).byteAt (r.remember problems requests).position =
      ((r.byteAt r.position).1, (r.byteAt r.position).2.remember problems requests) :=
    r.remember_fetch problems requests _ _
  unfold next
  rw [read]
  cases r.byteAt r.position with
  | mk answer after => cases answer <;> rfl

theorem remember_check (position length : Nat) :
    (r.remember problems requests).check position length =
      ((r.check position length).1, (r.check position length).2.remember problems requests) := by
  have checked := r.gate.remember_check problems requests (position + r.origin) length
  unfold check
  split
  · rfl
  · have gate : (r.remember problems requests).gate = r.gate.remember problems requests := rfl
    have origin : (r.remember problems requests).origin = r.origin := rfl
    simp only [gate, origin, checked]
    rfl

theorem remember_noteTrailer (ending : UInt8) :
    (r.remember problems requests).noteTrailer ending =
      (r.noteTrailer ending).remember problems requests := by
  have read : (r.remember problems requests).byteAt (r.remember problems requests).position =
      ((r.byteAt r.position).1, (r.byteAt r.position).2.remember problems requests) :=
    r.remember_fetch problems requests _ _
  have ends : (r.remember problems requests).trailerEnds = r.trailerEnds := rfl
  unfold noteTrailer
  rw [ends]
  split
  · rfl
  · split
    · rw [read]
      rfl
    · rfl

theorem remember_perform (command : Command α) :
    Readable.perform command (r.remember problems requests) =
      ((Readable.perform command r).1,
        (Readable.perform command r).2.remember problems requests) := by
  cases command with
  | next => exact r.remember_next problems requests
  | byteAt position => exact r.remember_fetch problems requests _ _
  | byteBehind position => exact r.remember_fetch problems requests _ _
  | block position length =>
    have gate : (r.remember problems requests).gate = r.gate.remember problems requests := rfl
    have origin : (r.remember problems requests).origin = r.origin := rfl
    simp only [Readable.perform, block, gate, origin, Gate.remember_read]
    rfl
  | check position length => exact r.remember_check problems requests position length
  | noteTrailer ending => exact Prod.ext rfl (r.remember_noteTrailer problems requests ending)
  | position | seek | documentSize | settings | keepWord | lastWord => rfl

theorem remember_enter : Readable.enter (r.remember problems requests) =
    (Readable.enter r).map (·.remember problems requests) := by
  change (r.remember problems requests).enter.toOption = r.enter.toOption.map _
  unfold enter
  change (if r.depth < r.options.maxDepth then _ else _ : Except Error Reader).toOption = _
  split <;> rfl

/-- Every run. A session puts the problems met before it aside itself, so inside it only the requests
are remembered. -/
theorem remember_run (program : Scan α) : ∀ problems requests (r : Reader),
    program.run (r.remember problems requests) =
      ((program.run r).1, (program.run r).2.remember problems requests) := by
  induction program with
  | pure value => exact fun _ _ _ => rfl
  | bind first rest ihFirst ihRest =>
    intro problems requests r
    simp only [Scan.run, ihFirst, ihRest]
  | perform command => exact fun problems requests r => r.remember_perform problems requests command
  | session body ih =>
    intro problems requests r
    have opened : Readable.openSession (r.remember problems requests) =
        (Readable.openSession r).remember {} requests := rfl
    have any (p : Problems) : (p.merge {}).any = p.any := by simp [Problems.merge, Problems.any]
    simp only [Scan.run, opened, ih]
    simp only [Readable.closeSession, remember, Gate.remember, Gate.restore, any]
    congr 3
    simp [Problems.merge, Bool.or_assoc]
  | nested body refused ihBody ihRefused =>
    intro problems requests r
    have same : Readable.enter (r.remember problems requests) =
        (Readable.enter r).map (·.remember problems requests) := r.remember_enter problems requests
    cases enters : Readable.enter r with
    | none =>
      rw [enters] at same
      rw [Scan.run_refused enters, Scan.run_refused same, ihRefused]
    | some inside =>
      rw [enters] at same
      rw [Scan.run_entered enters, Scan.run_entered same, ihBody]
      rfl

end Reader
end PdfObjects
