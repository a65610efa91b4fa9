import PdfObjects.Proofs.Passage
import PdfObjects.Resident

/-! A reader behind a gate and the document at hand. As long as the gate is faithful and the window
shows nothing but bytes of the document, a run either meets a problem or goes exactly as it would if
the document were wholly at hand, wherever the window stood and however it moved. -/
namespace PdfObjects

/-- A window in which only bytes of the document can be seen, each at its own place. -/
def Window.Shows (document : Bytes) (w : Window) : Prop :=
  ∀ index, index < w.bytes.size → w.bytes[index]? = document[w.start + index]?

namespace Window

variable {document : Bytes} {w : Window}

theorem Shows.byte? (shows : w.Shows document) {offset : Nat} {b : UInt8}
    (seen : w.byte? offset = some b) : document[offset]? = some b := by
  unfold Window.byte? at seen
  split at seen
  · rename_i behind
    obtain ⟨inside, _⟩ := Array.getElem?_eq_some_iff.mp seen
    rw [← seen, shows _ inside, Nat.add_sub_cancel' behind]
  · cases seen

theorem shows_empty (start : Nat) : Window.Shows document ⟨start, #[]⟩ := by
  intro index inside
  cases inside

theorem shows_range (start length : Nat) :
    Window.Shows document ⟨start, ((document.drop start).take length).toArray⟩ := by
  intro index inside
  simp only [List.size_toArray, List.length_take] at inside
  simp only [List.getElem?_toArray, List.getElem?_take, List.getElem?_drop]
  rw [if_pos (by omega)]

/-- A window filled from the document shows every byte in its reach. -/
theorem byte?_range {start length offset : Nat} (behind : start ≤ offset)
    (inside : offset < start + length) :
    Window.byte? ⟨start, ((document.drop start).take length).toArray⟩ offset = document[offset]? := by
  simp only [Window.byte?, if_pos behind, List.getElem?_toArray, List.getElem?_take, List.getElem?_drop]
  rw [if_pos (by omega), Nat.add_sub_cancel' behind]

end Window

namespace Reader

/-- A reader to which the document is shown as it is, where it is shown at all. -/
structure Faithful (document : Bytes) (r : Reader) : Prop where
  gate : r.gate.Faithful document
  origin : r.origin ≤ document.length
  window : r.window.Shows document

/-- The reader that has the document at hand and stands at the same place. -/
def mirror (document : Bytes) (r : Reader) : Resident :=
  { bytes := document.drop r.origin
    limits := r.limits
    position := r.position
    lastWord := r.lastWord
    trailerEnds := r.trailerEnds }

/-- What an access to bytes may do: it moves nothing but the window and the gate, and if it meets no
problem it gives the answer that the document has. -/
structure Access (document : Bytes) (r : Reader) (wanted : α) (result : α × Reader) : Prop where
  kept : ∃ gate window, result.2 = { r with gate, window }
  faithful : result.2.Faithful document
  answer : result.2.gate.problems.any = true ∨ result.1 = wanted

variable {document : Bytes} {r : Reader}

theorem Faithful.size (faithful : r.Faithful document) : r.size = (document.drop r.origin).length := by
  rw [Reader.size, faithful.gate.size, List.length_drop]

/-- An access that needs no bytes. -/
theorem Faithful.known (faithful : r.Faithful document) (answer : α) :
    Access document r answer (answer, r) :=
  ⟨⟨r.gate, r.window, rfl⟩, faithful, .inr rfl⟩

/-- Reading through the gate, with whatever window is left after it. -/
theorem Faithful.read (faithful : r.Faithful document) (offset length : Nat) :
    (document.length < offset + length ∧ r.gate.read offset length = (none, r.gate)) ∨
    ((r.gate.read offset length).1 = none ∧ (r.gate.read offset length).2.problems.any = true ∧
      (r.gate.read offset length).2.Faithful document) ∨
    ((r.gate.read offset length).1 = some ((document.drop offset).take length).toArray ∧
      (r.gate.read offset length).2.Faithful document ∧ offset + length ≤ document.length) := by
  rcases faithful.gate.read_cases offset length with
    ⟨outside, failed⟩ | ⟨_, _, failed⟩ | ⟨inside, _, after, kept, delivered⟩
  · exact .inl ⟨outside, failed⟩
  · rw [failed]
    exact .inr (.inl ⟨rfl, r.gate.request_unavailable offset length, faithful.gate⟩)
  · rw [delivered]
    exact .inr (.inr ⟨rfl, kept, inside⟩)

/-- A byte within the reach of the window to be filled is the byte of the document. -/
theorem Faithful.fetch (faithful : r.Faithful document) {offset start : Nat} (behind : start ≤ offset)
    (reach : offset < start + r.options.effectiveWindow) :
    Access document r document[offset]? (r.fetch offset start) := by
  have size := faithful.gate.size
  unfold Reader.fetch
  by_cases outside : r.gate.size ≤ offset
  · rw [if_pos outside, List.getElem?_eq_none (by omega)]
    exact faithful.known none
  · rw [if_neg outside]
    cases seen : r.window.byte? offset with
    | some b =>
      rw [faithful.window.byte? seen]
      exact faithful.known (some b)
    | none =>
      have reads := faithful.read start (min r.options.effectiveWindow (r.gate.size - start))
      simp only [Reader.refill]
      revert reads
      cases r.gate.read start (min r.options.effectiveWindow (r.gate.size - start)) with
      | mk answer gate =>
        rintro (⟨past, _⟩ | ⟨failed, problems, kept⟩ | ⟨delivered, kept, _⟩)
        · omega
        · cases failed
          exact ⟨⟨gate, _, rfl⟩, ⟨kept, faithful.origin, Window.shows_empty _⟩, .inl problems⟩
        · cases delivered
          exact ⟨⟨gate, _, rfl⟩, ⟨kept, faithful.origin, Window.shows_range _ _⟩,
            .inr (Window.byte?_range behind (by omega))⟩

theorem Faithful.byteAt (faithful : r.Faithful document) (position : Nat) :
    Access document r (document.drop r.origin)[position]? (r.byteAt position) := by
  rw [List.getElem?_drop, Nat.add_comm]
  have positive := r.options.effectiveWindow_pos
  exact faithful.fetch (Nat.le_refl _) (by omega)

theorem Faithful.byteBehind (faithful : r.Faithful document) (position : Nat) :
    Access document r (document.drop r.origin)[position]? (r.byteBehind position) := by
  rw [List.getElem?_drop, Nat.add_comm]
  have positive := r.options.effectiveWindow_pos
  apply faithful.fetch <;> split <;> omega

theorem Faithful.block (faithful : r.Faithful document) (position length : Nat) :
    Access document r ((r.mirror document).block position length) (r.block position length) := by
  have expected : (r.mirror document).block position length =
      if position + length ≤ document.length - r.origin then
        some ((document.drop (r.origin + position)).take length) else none := by
    simp [Resident.block, mirror, List.drop_drop]
  have origin := faithful.origin
  rw [expected]
  have reads := faithful.read (position + r.origin) length
  simp only [Reader.block]
  revert reads
  cases r.gate.read (position + r.origin) length with
  | mk answer gate =>
    rintro (⟨past, same⟩ | ⟨failed, problems, kept⟩ | ⟨delivered, kept, inside⟩)
    · cases same
      rw [if_neg (by omega)]
      exact faithful.known none
    · exact ⟨⟨gate, _, rfl⟩, ⟨kept, faithful.origin, faithful.window⟩, .inl problems⟩
    · cases delivered
      rw [if_pos (by omega), Nat.add_comm r.origin]
      exact ⟨⟨gate, _, rfl⟩, ⟨kept, faithful.origin, faithful.window⟩, .inr (by simp)⟩

theorem Faithful.check (faithful : r.Faithful document) (position length : Nat) :
    Access document r true (r.check position length) := by
  unfold Reader.check
  split
  · exact faithful.known true
  · rcases r.gate.check_cases (position + r.origin) length with passed | ⟨_, _, failed⟩
    · rw [passed]
      exact faithful.known true
    · rw [failed]
      exact ⟨⟨_, _, rfl⟩, ⟨faithful.gate, faithful.origin, faithful.window⟩,
        .inl (r.gate.request_unavailable _ length)⟩

/-- The outcome of a command or a run and what the mirror makes of it: the reader stays faithful, and
unless there is a problem the answers are the same and the mirror shows where the reader went. -/
structure Mirrored (document : Bytes) (result : α × Reader) (image : α × Resident) : Prop where
  faithful : result.2.Faithful document
  same : result.2.gate.problems.any = false → image = (result.1, result.2.mirror document)

/-- An access in the mirror changes nothing at all. -/
theorem Access.mirrored {wanted : α} {result : α × Reader} (access : Access document r wanted result) :
    Mirrored document result (wanted, r.mirror document) := by
  refine ⟨access.faithful, fun clear => ?_⟩
  obtain ⟨gate, window, kept⟩ := access.kept
  rcases access.answer with problems | same
  · rw [problems] at clear
    cases clear
  · rw [same, kept]
    rfl

theorem Faithful.next (faithful : r.Faithful document) :
    Mirrored document r.next (r.mirror document).next := by
  obtain ⟨⟨gate, window, kept⟩, stays, answer⟩ := faithful.byteAt r.position
  unfold Reader.next
  revert kept stays answer
  cases r.byteAt r.position with
  | mk seen after =>
    rintro stays answer rfl
    cases seen with
    | none =>
      refine ⟨stays, fun clear => ?_⟩
      have missing := answer.resolve_left (by simp [clear])
      simp only [Resident.next, mirror, ← missing]
      rfl
    | some b =>
      refine ⟨⟨stays.gate, stays.origin, stays.window⟩, fun clear => ?_⟩
      have found := answer.resolve_left (by simp [clear])
      simp only [Resident.next, mirror, ← found]
      rfl

theorem Faithful.noteTrailer (faithful : r.Faithful document) (ending : UInt8) :
    Mirrored document ((), r.noteTrailer ending) ((), (r.mirror document).noteTrailer ending) := by
  unfold Reader.noteTrailer
  cases recorded : r.trailerEnds with
  | none =>
    refine ⟨faithful, fun _ => ?_⟩
    simp [Resident.noteTrailer, mirror, recorded]
  | some ends =>
    by_cases returned : ending = Byte.carriageReturn
    · obtain ⟨⟨gate, window, kept⟩, stays, answer⟩ := faithful.byteAt r.position
      simp only [if_pos returned]
      revert kept stays answer
      cases r.byteAt r.position with
      | mk following after =>
        rintro stays answer rfl
        refine ⟨⟨stays.gate, stays.origin, stays.window⟩, fun clear => ?_⟩
        obtain rfl := answer.resolve_left (by simp [clear])
        simp [Resident.noteTrailer, mirror, recorded, returned, limits]
    · simp only [if_neg returned]
      refine ⟨⟨faithful.gate, faithful.origin, faithful.window⟩, fun _ => ?_⟩
      simp [Resident.noteTrailer, mirror, recorded, returned, limits]

/-- Every command. -/
theorem Faithful.perform (faithful : r.Faithful document) (command : Command α) :
    Mirrored document (Readable.perform command r) (Readable.perform command (r.mirror document)) := by
  cases command with
  | next => exact faithful.next
  | byteAt position => exact (faithful.byteAt position).mirrored
  | byteBehind position => exact (faithful.byteBehind position).mirrored
  | block position length => exact (faithful.block position length).mirrored
  | check position length => exact (faithful.check position length).mirrored
  | noteTrailer ending => exact faithful.noteTrailer ending
  | documentSize => exact ⟨faithful, fun _ => Prod.ext faithful.size.symm rfl⟩
  | seek position =>
    refine ⟨⟨faithful.gate, faithful.origin, faithful.window⟩, fun _ => ?_⟩
    simp only [Readable.perform, Reader.seek, Resident.seek, faithful.size]
    rfl
  | keepWord word => exact ⟨⟨faithful.gate, faithful.origin, faithful.window⟩, fun _ => rfl⟩
  | position | settings | lastWord => exact ⟨faithful, fun _ => rfl⟩

/-- The mirror has as many levels of nesting left. -/
theorem mirror_enter (r : Reader) (document : Bytes) :
    Readable.enter (r.mirror document) = (Readable.enter r).map (Reader.mirror document) := by
  change Resident.enter (r.mirror document) = r.enter.toOption.map (Reader.mirror document)
  unfold Resident.enter Reader.enter
  change (if r.depth < r.options.maxDepth then _ else _) = _
  split <;> rfl

/-- Every run. Inside a session the problems so far are put aside, so the induction is over programs
that may start with a clear gate anywhere in the run. -/
theorem Faithful.run (program : Scan α) : ∀ {r : Reader}, r.Faithful document →
    Mirrored document (program.run r) (program.run (r.mirror document)) := by
  induction program with
  | pure value => exact fun faithful => ⟨faithful, fun _ => rfl⟩
  | bind first rest ihFirst ihRest =>
    intro r faithful
    have before := ihFirst faithful
    have after := ihRest (first.run r).1 before.faithful
    refine ⟨after.faithful, fun clear => ?_⟩
    simp only [Scan.run]
    rw [before.same (Scan.clear_before clear)]
    exact after.same clear
  | perform command => exact fun faithful => faithful.perform command
  | session body ih =>
    intro r faithful
    have opened : (Readable.openSession r).Faithful document :=
      ⟨faithful.gate, faithful.origin, faithful.window⟩
    have inside := ih opened
    refine ⟨⟨inside.faithful.gate, inside.faithful.origin, inside.faithful.window⟩, fun clear => ?_⟩
    have innerClear : (body.run (Readable.openSession r)).2.gate.problems.any = false := by
      simp only [Scan.run, Readable.closeSession, Gate.restore, Problems.any_merge,
        Bool.or_eq_false_iff] at clear
      exact clear.1
    have image : body.run (Readable.openSession (r.mirror document)) = _ := inside.same innerClear
    simp only [Scan.run, Readable.closeSession, innerClear]
    rw [image]
    rfl
  | nested body refused ihBody ihRefused =>
    intro r faithful
    have image := r.mirror_enter document
    cases enters : Readable.enter r with
    | none =>
      rw [enters] at image
      rw [Scan.run_refused enters, Scan.run_refused image]
      exact ihRefused faithful
    | some inside =>
      rw [enters] at image
      rw [Scan.run_entered enters, Scan.run_entered image]
      obtain ⟨_, rfl⟩ := entered enters
      have inner := ihBody (r := { r with depth := r.depth + 1 })
        ⟨faithful.gate, faithful.origin, faithful.window⟩
      refine ⟨⟨inner.faithful.gate, inner.faithful.origin, inner.faithful.window⟩, fun clear => ?_⟩
      rw [inner.same clear]
      rfl

end Reader
end PdfObjects
