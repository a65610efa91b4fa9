import PdfObjects.Proofs.Lines
import PdfObjects.Proofs.Rounds
import PdfObjects.Proofs.RoundTrip
import PdfObjects.Survey

/-! The record of trailers. Reading word by word interrupts the search for markers at every word, and takes
it up behind. No word has a percent sign or a line ending in it, so nothing is lost: what has been
recorded, with what the search would find from the cursor on, stays the same all the way. At the end of
the data, it has all been recorded. -/
namespace PdfObjects

namespace Lexis

variable {b : UInt8} {text rest : Bytes}

/-- Outside comments, bytes other than a percent sign do not matter. -/
theorem trailerEnds_passed (clean : Byte.percent ∉ text) (position : Nat) :
    trailerEnds none position (text ++ rest) = trailerEnds none (position + text.length) rest := by
  induction text generalizing position with
  | nil => rfl
  | cons b text ih =>
    have other : ¬ b = Byte.percent := fun same => clean (same ▸ List.mem_cons_self)
    have later := ih (fun member => clean (List.mem_cons_of_mem b member)) (position + 1)
    simp only [List.cons_append, trailerEnds, other, ↓reduceIte, later, List.length_cons]
    congr 1
    omega

/-- What is skipped ends at the end of the text, or in front of a byte that starts a word. -/
theorem skipped_stop (comment : Bool) (text : Bytes)
    (found : (text.drop (skipped comment text)).head? = some b) : b ≠ Byte.percent := by
  induction text generalizing comment with
  | nil => cases comment <;> cases found
  | cons c text ih =>
    cases comment with
    | true => exact ih _ (by simpa [skipped] using found)
    | false =>
      by_cases blank : Byte.isWhitespace c = true
      · exact ih _ (by simpa [skipped, blank] using found)
      · by_cases percent : c = Byte.percent
        · subst percent
          exact ih true (by simpa [skipped, blank] using found)
        · have here : skipped false (c :: text) = 0 := by simp [skipped, blank, percent]
          rw [here] at found
          cases found
          exact percent

/-- A word starts a text as it stands there. -/
theorem lexeme_take (text : Bytes) : text.take (lexeme text).length = lexeme text := by
  cases text with
  | nil => rfl
  | cons b text =>
    simp only [lexeme]
    split
    · simp only [List.length_cons, List.take_succ_cons, List.cons.injEq, true_and]
      exact (List.prefix_iff_eq_take.mp (List.takeWhile_prefix isInner)).symm
    · split
      · rename_i paired
        simp only [Bool.and_eq_true, decide_eq_true_eq] at paired
        obtain ⟨after, rfl⟩ := List.head?_eq_some_iff.mp paired.2
        rfl
      · rfl

/-- No word has a percent sign in it. -/
theorem lexeme_clean (starts : text.head? ≠ some Byte.percent) : Byte.percent ∉ lexeme text := by
  cases text with
  | nil => exact List.not_mem_nil
  | cons b text =>
    have first : Byte.percent ≠ b := fun same => starts (same ▸ rfl)
    simp only [lexeme]
    split
    · refine List.not_mem_cons_of_ne_of_not_mem first fun member => ?_
      exact absurd (List.mem_takeWhile_imp member) (by decide)
    · split
      · simp [first]
      · simp [first]

end Lexis

namespace Scan

variable {t : Resident}

/-- A program that records nothing. -/
def Silent (program : Scan α) : Prop := ∀ t : Resident, (program.run t).2.trailerEnds = t.trailerEnds

theorem silent_pure (value : α) : Silent (pure value) := fun _ => rfl

theorem Silent.bind {first : Scan α} {rest : α → Scan β} (silent : Silent first)
    (later : ∀ value, Silent (rest value)) : Silent (first >>= rest) :=
  fun t => (later _ _).trans (silent t)

theorem silent_ite {condition : Prop} [Decidable condition] {first other : Scan α}
    (silent : Silent first) (otherwise : Silent other) :
    Silent (if condition then first else other) :=
  iteInduction (fun _ => silent) fun _ => otherwise

theorem next_silent : Silent next := by
  intro t
  change t.next.2.trailerEnds = t.trailerEnds
  unfold Resident.next
  split <;> rfl

theorem unread_silent : Silent unread := fun _ => rfl

theorem takeFrom_silent {β α : Type} (step : β → UInt8 → Verdict β α) (finish : β → α) (fuel : Nat)
    (state : β) : Silent (takeFrom step finish fuel state) := by
  induction fuel generalizing state with
  | zero => exact silent_pure _
  | succ fuel ih =>
    refine next_silent.bind fun found => ?_
    cases found with
    | none => exact silent_pure _
    | some b =>
      dsimp only
      cases step state b with
      | more state => exact ih state
      | before answer => exact unread_silent.bind fun _ => silent_pure _
      | through answer => exact silent_pure _

theorem restOfRun_silent (taken : Bytes) : Silent (restOfRun taken) := by
  intro t
  exact takeFrom_silent _ _ _ _ t

theorem lexeme_silent : Silent lexeme := by
  refine next_silent.bind fun found => ?_
  cases found with
  | none => exact silent_pure _
  | some b =>
    refine silent_ite (restOfRun_silent _) (silent_ite (next_silent.bind fun found => ?_) (silent_pure _))
    cases found with
    | none => exact silent_pure _
    | some c => exact silent_ite (silent_pure _) (unread_silent.bind fun _ => silent_pure _)

end Scan

namespace Resident

/-- What is found in the whole document: what has been recorded, and what the search would still find
from the cursor on. -/
def Finds (t : Resident) (state : Option Marker) (ends : List Nat) : Prop :=
  ∃ recorded, t.trailerEnds = some recorded ∧
    recorded ++ Lexis.trailerEnds state t.position (t.bytes.drop t.position) = ends

variable {t : Resident} {state : Option Marker} {ends : List Nat} {b : UInt8}

/-- At the end of the data nothing more is found. -/
theorem Finds.at_end (finds : t.Finds state ends) (empty : t.bytes.drop t.position = []) (other) :
    t.Finds other ends := by
  obtain ⟨recorded, same, all⟩ := finds
  refine ⟨recorded, same, ?_⟩
  rw [empty] at all ⊢
  exact all

/-- The last word does not matter. -/
theorem Finds.keep (finds : t.Finds state ends) (word : Bytes) : (t.keep word).Finds state ends := finds

theorem drop_here (here : t.bytes[t.position]? = some b) :
    t.bytes.drop t.position = b :: t.bytes.drop (t.position + 1) := by
  obtain ⟨inside, rfl⟩ := List.getElem?_eq_some_iff.mp here
  exact List.drop_eq_getElem_cons inside

theorem drop_end (nowhere : t.bytes[t.position]? = none) : t.bytes.drop t.position = [] :=
  List.drop_of_length_le (List.getElem?_eq_none_iff.mp nowhere)

/-- A byte outside comments. -/
theorem Finds.pass (finds : t.Finds none ends) (here : t.bytes[t.position]? = some b) :
    (t.move 1).Finds (if b = Byte.percent then some .percents else none) ends := by
  obtain ⟨recorded, same, all⟩ := finds
  refine ⟨recorded, same, ?_⟩
  rw [drop_here here] at all
  exact all

/-- A byte of a comment. -/
theorem Finds.comment {marker : Marker} (finds : t.Finds (some marker) ends)
    (here : t.bytes[t.position]? = some b) (inner : Byte.isLineEnding b = false) :
    (t.move 1).Finds (some (marker.step b)) ends := by
  obtain ⟨recorded, same, all⟩ := finds
  refine ⟨recorded, same, ?_⟩
  rw [drop_here here] at all
  simp only [Lexis.trailerEnds, inner, Bool.false_eq_true, ↓reduceIte] at all
  exact all

/-- The end of a comment that is no marker. -/
theorem Finds.close {marker : Marker} (finds : t.Finds (some marker) ends)
    (here : t.bytes[t.position]? = some b) (ending : Byte.isLineEnding b = true)
    (incomplete : marker.isComplete = false) : (t.move 1).Finds none ends := by
  obtain ⟨recorded, same, all⟩ := finds
  refine ⟨recorded, same, ?_⟩
  rw [drop_here here] at all
  simp only [Lexis.trailerEnds, ending, incomplete, Bool.false_eq_true, ↓reduceIte] at all
  exact all

/-- The end of a marker is recorded. -/
theorem Finds.record {marker : Marker} (finds : t.Finds (some marker) ends)
    (here : t.bytes[t.position]? = some b) (ending : Byte.isLineEnding b = true)
    (complete : marker.isComplete = true) : ((t.move 1).noteTrailer b).Finds none ends := by
  obtain ⟨recorded, same, all⟩ := finds
  rw [drop_here here] at all
  simp only [Lexis.trailerEnds, ending, complete, ↓reduceIte, List.head?_drop] at all
  refine ⟨_, congrArg (Option.map _) same, ?_⟩
  rw [List.append_assoc]
  exact all

end Resident

namespace Scan

variable {t : Resident} {ends : List Nat}

/-- A byte that is there can be put back. -/
theorem unread_back {b : UInt8} (here : t.bytes[t.position]? = some b) :
    unread.run (t.move 1) = ((), t) := by
  have inside := (List.getElem?_eq_some_iff.mp here).1
  change (seek (t.position + 1 - 1)).run (t.move 1) = _
  rw [Nat.add_sub_cancel, seek_run (t := t.move 1) (Nat.le_of_lt inside)]
  rfl

/-- Skipping goes on to the end of the comment, or of the data. -/
theorem skipFrom_finds (fuel : Nat) (state : Option Marker) (finds : t.Finds state ends)
    (enough : t.bytes.length - t.position ≤ fuel) :
    ((skipFrom fuel state).run t).2.Finds none ends := by
  induction fuel generalizing t state with
  | zero => exact finds.at_end (List.drop_of_length_le (by omega)) none
  | succ fuel ih =>
    unfold skipFrom
    cases here : t.bytes[t.position]? with
    | none =>
      have step : next.run t = (none, t) := by simp [next, Readable.perform, Resident.next, here]
      rw [run_bind, step]
      exact finds.at_end (Resident.drop_end here) none
    | some b =>
      have step : next.run t = (some b, t.move 1) := by
        simp [next, Readable.perform, Resident.next, here, Resident.move]
      have left : t.bytes.length - (t.position + 1) ≤ fuel := by omega
      rw [run_bind, step]
      cases state with
      | none =>
        have passed := finds.pass here
        by_cases blank : Byte.isWhitespace b = true
        · have other : b ≠ Byte.percent := by
            rintro rfl
            cases blank
          rw [if_neg other] at passed
          simp only [if_pos blank]
          exact ih none passed left
        · simp only [if_neg blank]
          by_cases percent : b = Byte.percent
          · rw [if_pos percent] at passed
            simp only [if_pos percent]
            exact ih _ passed left
          · simp only [if_neg percent]
            have back : unread.run (t.move 1) = ((), t) := unread_back here
            rw [back]
            exact finds
      | some marker =>
        dsimp only
        by_cases ending : Byte.isLineEnding b = true
        · simp only [if_pos ending]
          by_cases complete : marker.isComplete = true
          · simp only [if_pos complete]
            exact ih none (finds.record here ending complete) left
          · simp only [if_neg complete]
            exact ih none (finds.close here ending (by simpa using complete)) left
        · simp only [if_neg ending]
          exact ih _ (finds.comment here (by simpa using ending)) left

/-- Where a run ends does not depend on the record. -/
theorem position_unrecorded (program : Scan α) (t : Resident) :
    (program.run t).2.position = (program.run t.unrecorded).2.position := by
  rw [run_unrecorded]
  rfl

theorem skipBlanks_place (t : Resident) : (skipBlanks.run t).2.position =
    t.position + Lexis.skipped false (t.bytes.drop t.position) := by
  rw [position_unrecorded, skipBlanks_run (Resident.hasAhead_drop rfl)]
  rfl

theorem lexeme_place (t : Resident) : (lexeme.run t).2.position =
    t.position + (Lexis.lexeme (t.bytes.drop t.position)).length := by
  rw [position_unrecorded, lexeme_run (Resident.hasAhead_drop rfl)]
  rfl

/-- Words are passed without a trace. -/
theorem lexeme_finds (finds : t.Finds none ends)
    (starts : (t.bytes.drop t.position).head? ≠ some Byte.percent) :
    (lexeme.run t).2.Finds none ends := by
  obtain ⟨recorded, same, all⟩ := finds
  refine ⟨recorded, (lexeme_silent t).trans same, ?_⟩
  have cut := List.take_append_drop (Lexis.lexeme (t.bytes.drop t.position)).length
    (t.bytes.drop t.position)
  rw [Lexis.lexeme_take, List.drop_drop] at cut
  rw [← cut, Lexis.trailerEnds_passed (Lexis.lexeme_clean starts)] at all
  rw [lexeme_place, run_bytes]
  exact all

/-- Skipping has enough fuel for the bytes left. -/
theorem skipBlanks_finds (finds : t.Finds none ends) : (skipBlanks.run t).2.Finds none ends := by
  have ran : skipBlanks.run t = (skipFrom (t.bytes.length - t.position) none).run t := rfl
  rw [ran]
  exact skipFrom_finds _ none finds (Nat.le_refl _)

/-- A word takes what is found along, with the blanks and comments before it. -/
theorem word_finds (finds : t.Finds none ends) : (word.run t).2.Finds none ends := by
  have ran : (word.run t).2 = (lexeme.run (skipBlanks.run t).2).2.keep
      (Word.ofLexeme (skipBlanks.run t).2.limits.wordLength (lexeme.run (skipBlanks.run t).2).1).bytes :=
    rfl
  have starts : ((skipBlanks.run t).2.bytes.drop (skipBlanks.run t).2.position).head? ≠
      some Byte.percent := by
    intro found
    rw [run_bytes, skipBlanks_place, ← List.drop_drop] at found
    exact Lexis.skipped_stop false _ found rfl
  rw [ran]
  exact (lexeme_finds (skipBlanks_finds finds) starts).keep _

theorem wordsFrom_finds (fuel : Nat) (finds : t.Finds none ends) :
    ((wordsFrom fuel).run t).2.Finds none ends := by
  induction fuel generalizing t with
  | zero => exact finds
  | succ fuel ih =>
    have read := word_finds finds
    unfold wordsFrom
    rw [run_bind]
    split
    · exact read
    · exact ih read

/-- The next word, and where it ends, whatever is recorded. -/
theorem word_place (t : Resident) :
    (word.run t).1 = Lexis.word t.limits.wordLength (t.bytes.drop t.position) ∧
      (word.run t).2.position = t.position + Lexis.reach (t.bytes.drop t.position) := by
  have read := word_run (Resident.hasAhead_drop (t := t.unrecorded) rfl)
  rw [run_unrecorded] at read
  obtain ⟨same, after⟩ := Prod.mk.inj read
  exact ⟨same, congrArg Resident.position after⟩

/-- An empty word is found at the end of the data only. -/
theorem word_end (kept : 0 < t.limits.wordLength) (empty : (word.run t).1.isEmpty = true) :
    (word.run t).2.bytes.drop (word.run t).2.position = [] := by
  obtain ⟨same, place⟩ := word_place t
  rw [same] at empty
  have none : Lexis.lexeme ((t.bytes.drop t.position).drop
      (Lexis.skipped false (t.bytes.drop t.position))) = [] := by
    rcases List.take_eq_nil_iff.mp (List.isEmpty_iff.mp empty) with never | none
    · omega
    · exact none
  have head := Lexis.lexeme_head ((t.bytes.drop t.position).drop
    (Lexis.skipped false (t.bytes.drop t.position)))
  rw [none] at head
  rw [run_bytes, place, Lexis.reach, none, ← List.drop_drop]
  exact List.head?_eq_none_iff.mp head.symm

theorem word_advances (nonempty : ¬ (word.run t).1.isEmpty = true) :
    t.position < (word.run t).2.position := by
  obtain ⟨same, place⟩ := word_place t
  have some := Word.length_pos nonempty
  rw [same] at some
  have kept := List.length_take_le' t.limits.wordLength (Lexis.lexeme ((t.bytes.drop t.position).drop
    (Lexis.skipped false (t.bytes.drop t.position))))
  rw [place, Lexis.reach]
  simp only [Lexis.word, Word.ofLexeme] at some
  omega

/-- Words, as many as there are bytes, reach the end of the data. -/
theorem wordsFrom_end (fuel : Nat) (kept : 0 < t.limits.wordLength)
    (enough : t.bytes.length - t.position ≤ fuel) :
    ((wordsFrom fuel).run t).2.bytes.drop ((wordsFrom fuel).run t).2.position = [] := by
  induction fuel generalizing t with
  | zero =>
    change t.bytes.drop t.position = []
    exact List.drop_of_length_le (by omega)
  | succ fuel ih =>
    have continues := word.run_continues t
    unfold wordsFrom
    rw [run_bind]
    by_cases empty : (word.run t).1.isEmpty = true
    · rw [if_pos empty]
      exact word_end kept empty
    · have further := word_advances empty
      rw [if_neg empty]
      refine ih (continues.limits ▸ kept) ?_
      rw [continues.bytes]
      omega

/-- Reading all words of a document records the ends of its marker lines. -/
theorem wordsFrom_records {text : Bytes} {options : Options} (recording : options.recordTrailers = true)
    (fuel : Nat) (enough : text.length ≤ fuel) :
    ((wordsFrom fuel).run (Resident.ofBytes text options)).2.trailerEnds =
      some (Lexis.trailerEnds none 0 text) := by
  have start : (Resident.ofBytes text options).Finds none (Lexis.trailerEnds none 0 text) := by
    refine ⟨[], ?_, rfl⟩
    simp [Resident.ofBytes, recording]
  have kept : 0 < (Resident.ofBytes text options).limits.wordLength :=
    Nat.lt_of_lt_of_le (by decide) (Nat.le_max_right options.maxWordLength 16)
  obtain ⟨recorded, same, all⟩ := wordsFrom_finds fuel start
  rw [wordsFrom_end fuel kept enough, Lexis.trailerEnds, List.append_nil] at all
  rw [same, all]

/-- Reading one word of many. -/
def wordRound (_ : Unit) : Scan (Round Unit Unit) := do
  if (← word).isEmpty then pure (.done ()) else pure (.again ())

theorem wordRound_consumes : Consumes wordRound := by
  intro state r inside
  refine (word_meets (Reader.advancedFrom_self inside)).bind fun read t past => ?_
  exact meets_ite (fun _ => meets_pure trivial) fun nonempty => meets_pure (past.word nonempty)

theorem words_counts {σ : Type} [Readable σ] (s : σ) : Counts (fun fuel _ => wordsFrom fuel) wordRound s := by
  intro fuel state
  simp only [wordsFrom, wordRound, run_bind]
  split <;> rfl

/-- Reading words until there is none comes to an end. -/
theorem words_finishes {r : Reader} (inside : r.position ≤ r.size) :
    Finishes wordRound () r ((wordsFrom (r.size - r.position + 1)).run r).1
      ((wordsFrom (r.size - r.position + 1)).run r).2 :=
  finishes_of_lt (fun s _ => words_counts s) wordRound_consumes.on _ () r inside (Nat.lt_succ_self _)

end Scan

namespace Reader
open Scan (Finishes wordRound wordsFrom)
open Lexis (ClosedLine IsMarker)

variable {text : Bytes} {options : Options} {r : Reader}

/-- What a new reader of a text has recorded when it has read all words. -/
theorem Presents.records (presents : r.Presents text options)
    (recording : options.recordTrailers = true) (fuel : Nat) (enough : text.length ≤ fuel) :
    ((wordsFrom fuel).run r).2.takeTrailerEnds.1 = Lexis.trailerEnds none 0 text := by
  obtain ⟨source, held, start, holds, rfl, rfl⟩ := presents
  have records := Scan.wordsFrom_records recording fuel enough
  rw [← ofGate_mirror holds, (ofGate_whole holds start options).mirror_run rfl] at records
  change ((wordsFrom fuel).run (ofGate { source } start options)).2.trailerEnds = _ at records
  unfold takeTrailerEnds
  rw [records]

theorem Presents.size (presents : r.Presents text options) :
    r.size = text.length ∧ r.position = 0 := by
  obtain ⟨source, held, start, holds, rfl, rfl⟩ := presents
  have whole := (ofGate_whole holds start options).faithful
  have image := ofGate_mirror holds start options
  exact ⟨whole.size.trans (congrArg (fun t => t.bytes.length) image), rfl⟩

/-- The record of trailers is exact. Reading a document word by word comes to an end, and then the ends of
all marker lines have been recorded in order, each of them once, and nothing else. The survey of all words
records the same. -/
theorem records_trailers (presents : r.Presents text options)
    (recording : options.recordTrailers = true) :
    ∃ after, Finishes wordRound () r () after ∧
      after.takeTrailerEnds.1.Pairwise (· < ·) ∧
      (∀ stop, stop ∈ after.takeTrailerEnds.1 ↔
        ∃ line, ClosedLine text line stop ∧ IsMarker line) ∧
      (Scan.allWords.run r).2.takeTrailerEnds.1 = after.takeTrailerEnds.1 := by
  obtain ⟨size, start⟩ := presents.size
  have inside : r.position ≤ r.size := by omega
  have finishes := Scan.words_finishes inside
  have read := presents.records recording (r.size - r.position + 1) (by omega)
  have back : r.seek 0 = r := by
    unfold seek
    rw [Nat.zero_min, ← start]
  have surveyed : (Scan.allWords.run r).2 = ((wordsFrom (r.size - r.position)).run r).2 := by
    change ((wordsFrom ((r.seek 0).size - (r.seek 0).position)).run (r.seek 0)).2 = _
    rw [back]
  refine ⟨_, finishes, ?_, ?_, ?_⟩
  · rw [read]
    exact Lexis.trailerEnds_increasing text 0
  · intro stop
    rw [read, Lexis.mem_trailerEnds]
    simp only [Nat.zero_add]
    constructor
    · rintro ⟨line, _, closed, marker, rfl⟩
      exact ⟨line, closed, marker⟩
    · rintro ⟨line, closed, marker⟩
      exact ⟨line, stop, closed, marker, rfl⟩
  · rw [surveyed, read, presents.records recording _ (by omega)]

/-- Two markers behind words, one with a letter too many, and one at the end of the data that is not
closed. -/
def markedText : Bytes := Bytes.ofAscii "ab%%EOF\r\n(%%%EOF\r%%EOFX\n%%EOF".toList

/-- A reader of that text, which starts two bytes into its source. -/
def markedReader : Reader :=
  ofGate { source := .memory (Bytes.ofAscii ['x', 'y'] ++ markedText).toArray } 2
    { windowSize := 0, maxWordLength := 0, recordTrailers := true }

theorem markedReader_records :
    ∃ after, Finishes wordRound () markedReader () after ∧ after.takeTrailerEnds.1 = [9, 17] := by
  have presents : markedReader.Presents markedText
      { windowSize := 0, maxWordLength := 0, recordTrailers := true } :=
    ⟨.memory (Bytes.ofAscii ['x', 'y'] ++ markedText).toArray,
      Bytes.ofAscii ['x', 'y'] ++ markedText, 2, rfl, rfl, rfl⟩
  obtain ⟨after, finishes, _, _, surveyed⟩ := records_trailers presents rfl
  have ends : (Scan.allWords.run markedReader).2.takeTrailerEnds.1 = [9, 17] := by decide +kernel
  exact ⟨after, finishes, surveyed.symm.trans ends⟩

end Reader
end PdfObjects
