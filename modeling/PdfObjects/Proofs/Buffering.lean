import PdfObjects.Operation
import PdfObjects.Proofs.Loading

/-! Over a source that delivers what it holds, a reader cannot be told from the bytes themselves. Where
the window stands, how wide it is, and how far into the source the document starts, do not show in any
answer, cursor or record, however many calls are made. -/
namespace PdfObjects

namespace Reader

variable {document : Bytes} {r : Reader}

theorem Whole.run (whole : r.Whole document) (program : Scan α) :
    (program.run r).2.Whole document := by
  have stays := (whole.faithful.run program).faithful
  exact ⟨whole.gate_run program, stays.origin, stays.window⟩

theorem Whole.seek (whole : r.Whole document) (place : Nat) : (r.seek place).Whole document :=
  whole.run (Scan.seek place)

/-- Over a whole document a run goes exactly as in the mirror. -/
theorem Whole.mirror_run (whole : r.Whole document) (clear : r.gate.problems = {})
    (program : Scan α) :
    program.run (r.mirror document) = ((program.run r).1, (program.run r).2.mirror document) := by
  refine (whole.faithful.run program).same ?_
  rw [whole.untroubled, clear]
  rfl

/-- A new reader is the mirror image of the bytes from the start of the document on. -/
theorem ofGate_mirror {source : Source} {held : Bytes} (holds : source.Holds held) (start : Nat)
    (options : Options) :
    (ofGate { source } start options).mirror held = Resident.ofBytes (held.drop start) options := by
  have size : Gate.size { source } = held.length := holds.size
  have cut : held.drop (min start held.length) = held.drop start := by
    rcases Nat.le_total start held.length with inside | outside
    · rw [Nat.min_eq_left inside]
    · rw [Nat.min_eq_right outside, List.drop_of_length_le outside, List.drop_length]
  simp only [mirror, ofGate, limits, Resident.ofBytes, size, cut]

end Reader

namespace Operation

variable {document : Bytes} {r : Reader}

/-- A single operation and its image. -/
theorem run_mirror (whole : r.Whole document) (clear : r.gate.problems = {}) (operation : Operation) :
    operation.run (r.mirror document) =
        ((operation.run r).1, (operation.run r).2.mirror document) ∧
      (operation.run r).2.Whole document ∧ (operation.run r).2.gate.problems = {} := by
  cases operation with
  | call asked =>
    exact ⟨whole.mirror_run clear asked.program, whole.run asked.program,
      (whole.untroubled asked.program).trans clear⟩
  | trailerEnds => exact ⟨rfl, whole, clear⟩
  | takeTrailerEnds =>
    simp only [run, Recording.takeTrailerEnds, Reader.takeTrailerEnds, Resident.takeTrailerEnds,
      Reader.mirror]
    cases recorded : r.trailerEnds with
    | none => exact ⟨by simp [recorded], whole, clear⟩
    | some ends => exact ⟨rfl, ⟨whole.gate, whole.origin, whole.window⟩, clear⟩

/-- Any number of operations. -/
theorem observe_mirror (operations : List Operation) (whole : r.Whole document)
    (clear : r.gate.problems = {}) :
    (observe operations (r.mirror document)).1 = (observe operations r).1 ∧
      (observe operations r).2.gate.problems = {} := by
  induction operations generalizing r with
  | nil => exact ⟨rfl, clear⟩
  | cons operation operations ih =>
    obtain ⟨image, wholeAfter, clearAfter⟩ := run_mirror whole clear operation
    obtain ⟨rest, clearLast⟩ := ih wholeAfter clearAfter
    refine ⟨?_, clearLast⟩
    simp only [observe, image, rest]
    rfl

/-- Windows and offsets do not show. A reader of any source over some bytes, whose document starts
some way into them, answers a sequence of operations as a reader of the document alone does, with
another window, and as the bytes of the document themselves; and no problem is ever met. -/
theorem observe_transparent {source : Source} {held : Bytes} (holds : source.Holds held)
    (start : Nat) (options : Options) (windowSize : Nat) (operations : List Operation) :
    let shifted := Reader.ofGate { source } start options
    let plain := Reader.ofGate { source := .memory (held.drop start).toArray } 0
      { options with windowSize }
    let bytes := Resident.ofBytes (held.drop start) options
    (observe operations shifted).1 = (observe operations plain).1 ∧
      (observe operations shifted).1 = (observe operations bytes).1 ∧
      (observe operations shifted).2.gate.problems = {} ∧
      (observe operations plain).2.gate.problems = {} := by
  intro shifted plain bytes
  have plainHolds : (Source.memory (held.drop start).toArray).Holds (held.drop start) := rfl
  obtain ⟨here, clear⟩ :=
    observe_mirror operations (Reader.ofGate_whole holds start options) rfl
  obtain ⟨there, plainClear⟩ :=
    observe_mirror operations (Reader.ofGate_whole plainHolds 0 { options with windowSize }) rfl
  rw [Reader.ofGate_mirror holds] at here
  rw [Reader.ofGate_mirror plainHolds] at there
  exact ⟨here.symm.trans there, here.symm, clear, plainClear⟩

/-- A window of a stream, two bytes before the document, and read through windows of one byte. -/
theorem observe_transparent_window :
    let behind := Bytes.ofAscii ['x', '%', 'P', ' ', '7', ' ', '8', 'x']
    let held := Bytes.ofAscii ['%', 'P', ' ', '7', ' ', '8']
    let source := Source.window (.stream behind.toArray 3) 1 6
    let operations := [.call .word, .call (.searchBack ['7'.toUInt8] 0), .call .next, .takeTrailerEnds]
    source.Holds held ∧
      (observe operations (Reader.ofGate { source } 2 { windowSize := 0 })).1 =
        (observe operations (Resident.ofBytes (held.drop 2) { windowSize := 0 })).1 := by
  intro behind held source operations
  have holds : source.Holds held := ⟨behind, rfl, by decide, rfl⟩
  exact ⟨holds, (observe_transparent holds 2 { windowSize := 0 } 4096 operations).2.1⟩

end Operation
end PdfObjects
