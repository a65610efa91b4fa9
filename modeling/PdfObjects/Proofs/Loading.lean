import PdfObjects.Proofs.Mirror
import PdfObjects.Proofs.Present

/-! Reading a document while it arrives. Any of the many reads in a parse may find its bytes missing and
be taken for the end of the data by whoever asked for them; the flags of the session are what tells such
a run from an honest one. A run whose session ends without a flag went as it would have gone over the
document at hand, so its result can be relied on; and over a whole document no flag is ever raised. -/
namespace PdfObjects

namespace Gate

variable {document : Bytes}

/-- A step across a gate that has nothing to hold back. -/
private structure Serene (document : Bytes) (g after : Gate) : Prop where
  whole : after.Whole document
  problems : after.problems = g.problems

private theorem serene_evolution : Evolution fun g after =>
    g.Whole document → Serene document g after where
  refl _ whole := ⟨whole, rfl⟩
  trans _ _ _ first rest whole :=
    have before := first whole
    have after := rest before.whole
    ⟨after.whole, after.problems.trans before.problems⟩
  read g offset length whole := by
    obtain ⟨source, holds, moved⟩ := whole.read offset length
    rw [moved]
    exact ⟨⟨holds, whole.opens⟩, rfl⟩
  check g offset length _ whole := by
    rw [whole.check]
    exact ⟨whole, rfl⟩
  session g after inside whole := by
    obtain ⟨stays, clear⟩ := inside ⟨whole.source, whole.opens⟩
    refine ⟨⟨stays.source, stays.opens⟩, ?_⟩
    simp [restore, clear, reset, Problems.merge]

end Gate

namespace Reader

/-- A reader of a document of which some bytes have arrived. Its source has the size of the document
and holds what has arrived; in all other places it may hold anything. -/
structure Loading (document : Bytes) (arrived : Nat → Bool) (r : Reader) : Prop where
  availability : r.gate.availability = some (Availability.ofBytes arrived)
  source : ∃ held, r.gate.source.Holds held ∧ held.length = document.length ∧
    ∀ index, index < document.length → arrived index = true → held[index]? = document[index]?
  complete : r.gate.complete = true → ∀ index, index < document.length → arrived index = true
  origin : r.origin ≤ document.length
  window : r.window.Shows document

/-- A reader that has the whole document behind its gate. -/
structure Whole (document : Bytes) (r : Reader) : Prop where
  gate : r.gate.Whole document
  origin : r.origin ≤ document.length
  window : r.window.Shows document

/-- Two readers that stand at the same place under the same limits, whatever windows they have, and
whatever they have read or recorded before. -/
structure Alongside (r s : Reader) : Prop where
  origin : s.origin = r.origin
  position : s.position = r.position
  limits : s.limits = r.limits

theorem whole_ofGate {gate : Gate} {held : Bytes} (whole : gate.Whole held) (start : Nat)
    (options : Options) : (ofGate gate start options).Whole held := by
  refine ⟨whole, ?_, Window.shows_empty 0⟩
  simp only [ofGate, whole.faithful.size]
  exact Nat.min_le_right _ _

theorem ofGate_whole {source : Source} {held : Bytes} (holds : source.Holds held) (start : Nat)
    (options : Options) : (ofGate { source } start options).Whole held :=
  whole_ofGate (Gate.whole_unwatched holds rfl) start options

/-- A new reader of a text in memory. -/
def ofText (text : Bytes) (options : Options) : Reader := ofGate { source := .memory text.toArray } 0 options

theorem ofText_whole (text : Bytes) (options : Options) : (ofText text options).Whole text :=
  have holds : (Source.memory text.toArray).Holds text := rfl
  ofGate_whole holds 0 options

variable {document : Bytes} {arrived : Nat → Bool} {r s : Reader}

theorem Loading.faithful (loading : r.Loading document arrived) : r.Faithful document := by
  refine ⟨?_, loading.origin, loading.window⟩
  obtain ⟨held, holds, same, agree⟩ := loading.source
  refine ⟨held, holds, same, fun offset length inside available => ?_⟩
  have present (index : Nat) (behind : offset ≤ index) (before : index < offset + length) :
      arrived index = true := by
    cases complete : r.gate.complete with
    | true => exact loading.complete complete index (by omega)
    | false =>
      simp only [Gate.isAvailable, complete, loading.availability, Bool.false_or,
        Availability.ofBytes, List.all_eq_true, List.mem_range'_1] at available
      exact available index ⟨behind, before⟩
  apply List.ext_getElem?
  intro index
  simp only [List.getElem?_take, List.getElem?_drop]
  split
  · exact agree _ (by omega) (present _ (by omega) (by omega))
  · rfl

theorem Whole.faithful (whole : s.Whole document) : s.Faithful document :=
  ⟨whole.gate.faithful, whole.origin, whole.window⟩

theorem Whole.gate_run (whole : s.Whole document) (program : Scan α) :
    (program.run s).2.gate.Whole document :=
  (Gate.serene_evolution.reader.run program s whole.gate).whole

theorem Whole.untroubled (whole : s.Whole document) (program : Scan α) :
    (program.run s).2.gate.problems = s.gate.problems :=
  (Gate.serene_evolution.reader.run program s whole.gate).problems

/-- A session without problems went as over the document at hand. -/
theorem Faithful.session_clear (faithful : r.Faithful document) (body : Scan α)
    (clear : ((Scan.session body).run r).1.2 = false) :
    body.run (r.mirror document) =
      (((Scan.session body).run r).1.1, ((Scan.session body).run r).2.mirror document) := by
  have opened : (Readable.openSession r).Faithful document :=
    ⟨faithful.gate, faithful.origin, faithful.window⟩
  exact (opened.run body).same clear

theorem Whole.session_clear (whole : s.Whole document) (body : Scan α) :
    ((Scan.session body).run s).1.2 = false := by
  have opened : (Readable.openSession s).Whole document :=
    ⟨⟨whole.gate.source, whole.gate.opens⟩, whole.origin, whole.window⟩
  have clear := opened.untroubled body
  simp only [Scan.run, Readable.closeSession, clear]
  rfl

/-- A session without problems and the same session over the whole document. -/
theorem session_agrees {body : Scan α} (memoryless : body.Memoryless) (faithful : r.Faithful document)
    (whole : s.Whole document) (alongside : r.Alongside s)
    (clear : ((Scan.session body).run r).1.2 = false) :
    ((Scan.session body).run s).1 = ((Scan.session body).run r).1 ∧
      ((Scan.session body).run s).2.position = ((Scan.session body).run r).2.position := by
  have quiet := whole.session_clear body
  have here := faithful.session_clear body clear
  have there := whole.faithful.session_clear body quiet
  obtain ⟨value, place⟩ := memoryless (s.mirror document) (r.mirror document)
    (by simp only [mirror, alongside.origin]) alongside.limits alongside.position
  rw [here, there] at value place
  exact ⟨Prod.ext value (quiet.trans clear.symm), place⟩

end Reader

namespace Parse

/-- What the outcome of a session amounts to. -/
theorem whole_run (body : Parse α) (r : Reader) :
    (whole body).run.run r =
      (if ((Scan.session body.run).run r).1.2 then .error .dataUnavailable
        else ((Scan.session body.run).run r).1.1, ((Scan.session body.run).run r).2) := by
  simp only [whole, run_bind_lift]
  split
  · rfl
  · split <;> simp_all

/-- Whatever a call yields over a document that is still arriving, other than that data are missing, it
yields over the whole document, and ends at the same place. -/
def Settles (call : Parse α) (r s : Reader) : Prop :=
  (call.run.run r).1 ≠ .error .dataUnavailable →
    (call.run.run s).1 = (call.run.run r).1 ∧ (call.run.run s).2.position = (call.run.run r).2.position

/-- A call that misses nothing: it neither reports missing data nor raises a flag. -/
def Suffices (call : Parse α) (s : Reader) : Prop :=
  (call.run.run s).1 ≠ .error .dataUnavailable ∧
    (call.run.run s).2.gate.problems = s.gate.problems

variable {document : Bytes} {r s : Reader} {body : Parse α}

theorem whole_settles (memoryless : body.run.Memoryless) (faithful : r.Faithful document)
    (whole : s.Whole document) (alongside : r.Alongside s) : (Parse.whole body).Settles r s := by
  intro settled
  rw [whole_run] at settled
  cases troubled : ((Scan.session body.run).run r).1.2 with
  | true => simp [troubled] at settled
  | false =>
    obtain ⟨same, place⟩ := Reader.session_agrees memoryless faithful whole alongside troubled
    rw [whole_run, whole_run, same]
    exact ⟨rfl, place⟩

theorem whole_suffices (avoids : body.Avoids .dataUnavailable) (whole : s.Whole document) :
    (Parse.whole body).Suffices s := by
  refine ⟨?_, whole.untroubled _⟩
  have quiet := whole.session_clear body.run
  have there := whole.faithful.session_clear body.run quiet
  have present := avoids (s.mirror document)
  rw [there] at present
  simp only [whole_run, quiet]
  exact present

/-- Missing data are reported only if a flag was raised. -/
theorem whole_raises (avoids : body.Avoids .dataUnavailable) (faithful : r.Faithful document)
    (missing : ((Parse.whole body).run.run r).1 = .error .dataUnavailable) :
    ((Parse.whole body).run.run r).2.gate.problems.any = true := by
  have raised : ((Scan.session body.run).run r).1.2 = true := by
    cases troubled : ((Scan.session body.run).run r).1.2 with
    | true => rfl
    | false =>
      have present := avoids (r.mirror document)
      rw [faithful.session_clear body.run troubled] at present
      rw [whole_run, troubled] at missing
      exact absurd missing present
  rw [whole_run]
  simp only [Scan.run, Readable.closeSession, Gate.restore, Problems.any_merge] at raised ⊢
  rw [raised, Bool.true_or]

theorem indirect_raises {resolve : Resolver} {mode : Mode} (faithful : r.Faithful document)
    (missing : ((indirect resolve mode).run.run r).1 = .error .dataUnavailable) :
    ((indirect resolve mode).run.run r).2.gate.problems.any = true := by
  unfold indirect at missing ⊢
  exact whole_raises (headerAndObject_avoids mode) faithful missing

end Parse

namespace Reader

variable {document : Bytes} {arrived : Nat → Bool} {r s : Reader}

/-- A word whose session met problems is left empty. -/
theorem word_run (r : Reader) :
    Scan.word.run r =
      (if ((Scan.session Scan.rawWord).run r).1.2 then
          { ((Scan.session Scan.rawWord).run r).1.1 with bytes := [] }
        else ((Scan.session Scan.rawWord).run r).1.1, ((Scan.session Scan.rawWord).run r).2) := rfl

/-- A non-empty word was read to its end, so it is the word that the whole document has there. -/
theorem word_settles (faithful : r.Faithful document) (whole : s.Whole document)
    (alongside : r.Alongside s) (found : (Scan.word.run r).1.bytes ≠ []) :
    (Scan.word.run s).1 = (Scan.word.run r).1 ∧
      (Scan.word.run s).2.position = (Scan.word.run r).2.position := by
  simp only [word_run] at found ⊢
  cases troubled : ((Scan.session Scan.rawWord).run r).1.2 with
  | true => simp [troubled] at found
  | false =>
    obtain ⟨same, place⟩ :=
      session_agrees Scan.rawWord_memoryless faithful whole alongside troubled
    rw [same, troubled]
    exact ⟨rfl, place⟩

/-- Loading a document step by step is sound. Over a document of which some bytes have arrived, and
with anything in place of the others, an object that is read, an error other than that data are missing
and a word that is not empty are those of the whole document, and so is the cursor. Over the whole
document nothing is ever missing. -/
theorem Loading.agrees_with_whole (loading : r.Loading document arrived) (whole : s.Whole document)
    (alongside : r.Alongside s) (resolve : Resolver) (mode : Mode) :
    ((Parse.object resolve).Settles r s ∧ (Parse.indirect resolve mode).Settles r s ∧
      ((Scan.word.run r).1.bytes ≠ [] →
        (Scan.word.run s).1 = (Scan.word.run r).1 ∧
          (Scan.word.run s).2.position = (Scan.word.run r).2.position)) ∧
    ((Parse.object resolve).Suffices s ∧ (Parse.indirect resolve mode).Suffices s ∧
      (Scan.word.run s).2.gate.problems = s.gate.problems) := by
  have faithful := loading.faithful
  refine ⟨⟨?_, ?_, ?_⟩, ?_, ?_, ?_⟩
  · exact Parse.whole_settles Parse.anyObject_memoryless faithful whole alongside
  · exact Parse.whole_settles Parse.headerAndObject_memoryless faithful whole alongside
  · exact word_settles faithful whole alongside
  · exact Parse.whole_suffices (Parse.anyObject_avoids _) whole
  · exact Parse.whole_suffices (Parse.headerAndObject_avoids _) whole
  · exact whole.untroubled _

/-- A name that has arrived is read, although the source has something else behind it. -/
theorem name_agrees_with_whole :
    ∃ (document : Bytes) (arrived : Nat → Bool) (r s : Reader),
      r.Loading document arrived ∧ s.Whole document ∧ r.Alongside s ∧
      ((Parse.object fun _ => none).run.run r).1.toOption.bind Object.asName = some ['A'.toUInt8] ∧
      ((Parse.object fun _ => none).run.run s).1.toOption.bind Object.asName = some ['A'.toUInt8] := by
  let text := Bytes.ofAscii ['/', 'A', ' ', 'B']
  let arrived (index : Nat) : Bool := index < 3
  let r := Reader.ofGate
    { source := .memory (Bytes.ofAscii ['/', 'A', ' ', '?']).toArray
      availability := some (.ofBytes arrived) } 0 { windowSize := 1 }
  let s := Reader.ofText text {}
  have loading : r.Loading text arrived := by
    refine ⟨rfl, ⟨_, rfl, rfl, fun index inside present => ?_⟩, fun complete => ?_,
      Nat.zero_le _, Window.shows_empty 0⟩
    · match index, of_decide_eq_true present with
      | 0, _ | 1, _ | 2, _ => rfl
    · cases complete
  have whole : s.Whole text := ofText_whole text {}
  have alongside : r.Alongside s := ⟨rfl, rfl, rfl⟩
  have read : ((Parse.object fun _ => none).run.run r).1.toOption.bind Object.asName =
      some ['A'.toUInt8] := by decide +kernel
  have settled : ((Parse.object fun _ => none).run.run r).1 ≠ .error .dataUnavailable := by
    intro missing
    rw [missing] at read
    cases read
  refine ⟨text, arrived, r, s, loading, whole, alongside, read, ?_⟩
  rw [((loading.agrees_with_whole whole alongside (fun _ => none) .loose).1.1 settled).1, read]

end Reader
end PdfObjects
