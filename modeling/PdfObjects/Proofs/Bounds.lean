import PdfObjects.Operation
import PdfObjects.Proofs.Rounds

/-! Reading keeps to the document and comes to an end. A reader may have been brought into its state by
any commands, finished operations or not, while the world behind its gate did what it liked: data arrived
or did not, reads failed, flags were taken back. Its cursor is in the document in any case; from there no
operation leads out, what succeeds leads on and what fails does not lead back, and no loop needs the
counter that bounds it. -/
namespace PdfObjects
open Scan (Verdict Finishes takeRound skipRound findRound findWordRound)
open Parse (elementRound entryRound)

/-- Where a program leaves the cursor: behind its start if it succeeds, and not in front of it if not. -/
structure Parse.Moves (program : Parse α) (r : Reader) : Prop where
  succeeded : ∀ value t, program.run.run r = (.ok value, t) → r.position < t.position
  failed : ∀ error t, program.run.run r = (.error error, t) → r.position ≤ t.position

namespace Reader

/-- The states that a reader can get into. -/
inductive Reachable : Reader → Prop where
  | fresh (gate : Gate) (origin : Nat) (options : Options) : Reachable (ofGate gate origin options)
  /-- Any commands have been carried out, those of a whole operation or only some of them. -/
  | ran (reached : Reachable r) {α : Type} (program : Scan α) : Reachable (program.run r).2
  | handedOut (reached : Reachable r) : Reachable r.takeTrailerEnds.2
  /-- Data have arrived or gone, or problems were put aside; the document is as long as it was. -/
  | outside (reached : Reachable r) (gate : Gate) (same : gate.size = r.gate.size) :
    Reachable { r with gate }
  /-- Levels of nesting were taken or given back. -/
  | nested (reached : Reachable r) (depth : Nat) : Reachable { r with depth }

/-- What is true of reading from a state on. -/
structure Orderly (r : Reader) : Prop where
  here : r.position ≤ r.size
  inside : ∀ operation : Operation,
    (operation.run r).2.size = r.size ∧ (operation.run r).2.position ≤ r.size
  word : (Scan.word.run r).1.isEmpty = false → r.position < (Scan.word.run r).2.position
  object : ∀ resolve, (Parse.object resolve).Moves r
  indirect : ∀ resolve mode, (Parse.indirect resolve mode).Moves r
  take : ∀ {β α : Type} (step : β → UInt8 → Verdict β α) (finish : β → α) (state : β),
    Finishes (takeRound step finish) state r ((Scan.take step finish state).run r).1
      ((Scan.take step finish state).run r).2
  skipBlanks : Finishes skipRound none r (Scan.skipBlanks.run r).1 (Scan.skipBlanks.run r).2
  /-- The search for a tag answers with the distance to the place where its loop ended. -/
  findTag : ∀ tag : Bytes, tag ≠ [] → ∃ found,
    Finishes (findRound tag) () r found ((Scan.findTag tag).run r).2 ∧
      ((Scan.findTag tag).run r).1 = found.map (· - r.position)
  /-- The search for a word puts the cursor back when its loop has ended. -/
  findWord : ∀ word : Bytes, ∃ after,
    Finishes (findWordRound word r.size) () r ((Scan.findWord word).run r).1 after ∧
      ((Scan.findWord word).run r).2 = after.seek r.position
  elements : ∀ resolve fuel, Finishes (elementRound (Parse.bodyFrom resolve fuel .loose)) [] r
    ((Parse.elements (Parse.bodyFrom resolve fuel .loose) (r.size - r.position + 1) []).run.run r).1
    ((Parse.elements (Parse.bodyFrom resolve fuel .loose) (r.size - r.position + 1) []).run.run r).2
  entries : ∀ resolve fuel mode,
    Finishes (entryRound (Parse.bodyFrom resolve fuel .loose) mode) [] r
      ((Parse.entries (Parse.bodyFrom resolve fuel .loose) mode (r.size - r.position + 1) []).run.run r).1
      ((Parse.entries (Parse.bodyFrom resolve fuel .loose) mode (r.size - r.position + 1) []).run.run r).2
  /-- Nor does nesting need more than one unit for every level that is left. -/
  nested : ∀ resolve fuel mode, r.options.maxDepth - r.depth ≤ fuel →
    (Parse.bodyFrom resolve fuel mode).run.run r = (Parse.anyObject resolve mode).run.run r

variable {r : Reader}

theorem takeTrailerEnds_still (r : Reader) :
    r.takeTrailerEnds.2.size = r.size ∧ r.takeTrailerEnds.2.position = r.position := by
  unfold takeTrailerEnds
  split <;> exact ⟨rfl, rfl⟩

/-- Nothing that can happen to a reader brings its cursor out of the document. -/
theorem Reachable.inside (reached : r.Reachable) : r.position ≤ r.size := by
  induction reached with
  | fresh gate origin options => exact Nat.zero_le _
  | ran _ program ih => exact inside_run program ih
  | handedOut _ ih =>
    rename_i r _
    obtain ⟨size, position⟩ := r.takeTrailerEnds_still
    rw [size, position]
    exact ih
  | outside _ gate same ih =>
    unfold size at ih ⊢
    rw [same]
    exact ih
  | nested _ depth ih => exact ih

/-- No operation leads out of the document. -/
theorem operation_inside (inside : r.position ≤ r.size) (operation : Operation) :
    (operation.run r).2.size = r.size ∧ (operation.run r).2.position ≤ r.size := by
  cases operation with
  | call asked =>
    have same := r.size_run asked.program
    refine ⟨same, ?_⟩
    rw [← same]
    exact inside_run asked.program inside
  | trailerEnds => exact ⟨rfl, inside⟩
  | takeTrailerEnds =>
    obtain ⟨size, position⟩ := r.takeTrailerEnds_still
    exact ⟨size, position ▸ inside⟩

theorem word_moves (inside : r.position ≤ r.size) (nonempty : (Scan.word.run r).1.isEmpty = false) :
    r.position < (Scan.word.run r).2.position :=
  ((Scan.word_meets (advancedFrom_self inside)).holds.word (Bool.eq_false_iff.mp nonempty)).behind

/-- A program that takes a byte if it succeeds moves on. -/
theorem moves_of_advances {program : Parse α} (advances : program.Advances)
    (inside : r.position ≤ r.size) : program.Moves r := by
  have meets := advances (advancedFrom_self inside)
  constructor
  · exact fun value t ran => (meets.value value t ran).behind
  · exact fun reason t ran => (meets.error reason t ran).behind

/-- The search for a tag counts from the cursor. -/
theorem findTag_run {tag : Bytes} (nonempty : tag ≠ []) (r : Reader) :
    (Scan.findTag tag).run r =
      (((Scan.findFrom tag (r.size - r.position)).run r).1.map (· - r.position),
        ((Scan.findFrom tag (r.size - r.position)).run r).2) := by
  have some : ¬ tag.isEmpty = true := by simpa using nonempty
  unfold Scan.findTag
  rw [if_neg some]
  rfl

/-- The search for a word looks ahead. -/
theorem findWord_run (word : Bytes) (r : Reader) :
    (Scan.findWord word).run r =
      (((Scan.findWordFrom word r.size (r.size - r.position)).run r).1,
        ((Scan.findWordFrom word r.size (r.size - r.position)).run r).2.seek r.position) := rfl

/-- An array of which only the first two bytes have arrived. -/
def cutArray : Reader :=
  ofGate
    { source := .memory (Bytes.ofAscii ['[', '1', ' ', '2', ']']).toArray
      availability := some (Availability.ofRanges [⟨0, 2⟩]) }
    0 { windowSize := 1 }

end Reader
end PdfObjects
