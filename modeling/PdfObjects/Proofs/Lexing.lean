import PdfObjects.Lexis
import PdfObjects.Resident

/-! Reading words from a document at hand. What is read, and how far the cursor goes, are functions of
the bytes ahead of it. The statements are about readers that record no trailers, since recording
changes nothing but the record. -/
namespace PdfObjects
open Scan (Verdict)

namespace Resident

/-- The cursor goes on by some bytes. -/
def move (t : Resident) (count : Nat) : Resident := { t with position := t.position + count }

/-- A word becomes the last one read. -/
def keep (t : Resident) (word : Bytes) : Resident := { t with lastWord := word }

/-- A reader without a record that has exactly these bytes ahead. -/
structure HasAhead (t : Resident) (ahead : Bytes) : Prop where
  ahead : t.bytes.drop t.position = ahead
  unrecorded : t.trailerEnds = none

@[simp] theorem move_zero (t : Resident) : t.move 0 = t := rfl

@[simp] theorem move_move (t : Resident) (first second : Nat) :
    (t.move first).move second = t.move (first + second) := by simp [move, Nat.add_assoc]

@[simp] theorem keep_keep (t : Resident) (first second : Bytes) :
    (t.keep first).keep second = t.keep second := rfl

@[simp] theorem keep_move (t : Resident) (word : Bytes) (count : Nat) :
    (t.keep word).move count = (t.move count).keep word := rfl

@[simp] theorem move_position (t : Resident) (count : Nat) :
    (t.move count).position = t.position + count := rfl

@[simp] theorem keep_position (t : Resident) (word : Bytes) : (t.keep word).position = t.position := rfl

@[simp] theorem move_limits (t : Resident) (count : Nat) : (t.move count).limits = t.limits := rfl

@[simp] theorem keep_limits (t : Resident) (word : Bytes) : (t.keep word).limits = t.limits := rfl

@[simp] theorem keep_lastWord (t : Resident) (word : Bytes) : (t.keep word).lastWord = word := rfl

variable {t : Resident} {b : UInt8} {text ahead : Bytes}

theorem hasAhead_drop (unrecorded : t.trailerEnds = none) : t.HasAhead (t.bytes.drop t.position) :=
  ⟨rfl, unrecorded⟩

theorem HasAhead.keep (standing : t.HasAhead ahead) (word : Bytes) : (t.keep word).HasAhead ahead :=
  ⟨standing.ahead, standing.unrecorded⟩

/-- Moving past a part of the bytes ahead leaves the rest of them. -/
theorem HasAhead.drop (standing : t.HasAhead ahead) (count : Nat) :
    (t.move count).HasAhead (ahead.drop count) :=
  ⟨by rw [← standing.ahead, List.drop_drop]; rfl, standing.unrecorded⟩

theorem HasAhead.append (standing : t.HasAhead (text ++ ahead)) : (t.move text.length).HasAhead ahead := by
  have dropped := standing.drop text.length
  rwa [List.drop_left] at dropped

theorem HasAhead.cons (standing : t.HasAhead (b :: ahead)) : (t.move 1).HasAhead ahead := standing.drop 1

/-- The bytes ahead are those up to the end of the document. -/
theorem HasAhead.length (standing : t.HasAhead ahead) : t.bytes.length - t.position = ahead.length := by
  rw [← standing.ahead, List.length_drop]

theorem HasAhead.inside (standing : t.HasAhead (b :: ahead)) : t.position < t.bytes.length := by
  have length := standing.length
  rw [List.length_cons] at length
  omega

theorem HasAhead.byte (standing : t.HasAhead (b :: ahead)) : t.bytes[t.position]? = some b := by
  rw [← List.head?_drop, standing.ahead, List.head?_cons]

theorem HasAhead.no_byte (standing : t.HasAhead []) : t.bytes[t.position]? = none := by
  rw [← List.head?_drop, standing.ahead, List.head?_nil]

end Resident

namespace Scan

variable {t : Resident} {b : UInt8} {text ahead : Bytes}

theorem next_run (standing : t.HasAhead (b :: ahead)) : next.run t = (some b, t.move 1) := by
  simp [next, Readable.perform, Resident.next, standing.byte, Resident.move]

theorem next_run_nil (standing : t.HasAhead []) : next.run t = (none, t) := by
  simp [next, Readable.perform, Resident.next, standing.no_byte]

@[simp] theorem position_run (t : Resident) : position.run t = (t.position, t) := rfl

@[simp] theorem settings_run (t : Resident) : settings.run t = (t.limits.toSettings, t) := rfl

@[simp] theorem lastWord_run (t : Resident) : lastWord.run t = (t.lastWord, t) := rfl

@[simp] theorem keepWord_run (t : Resident) (word : Bytes) :
    (keepWord word).run t = ((), t.keep word) := rfl

theorem seek_run {position : Nat} (inside : position ≤ t.bytes.length) :
    (seek position).run t = ((), { t with position }) := by
  simp [seek, Readable.perform, Resident.seek, Nat.min_eq_left inside]

theorem unread_run (standing : t.HasAhead (b :: ahead)) : unread.run (t.move 1) = ((), t) := by
  change (seek (t.position + 1 - 1)).run (t.move 1) = _
  rw [Nat.add_sub_cancel, seek_run (t := t.move 1) (Nat.le_of_lt standing.inside)]
  rfl

theorem remaining_run (standing : t.HasAhead ahead) : remaining.run t = (ahead.length, t) := by
  change (t.bytes.length - t.position, t) = _
  rw [standing.length]

/-- Taking bytes one by one, with fuel for all that are there. -/
theorem takeFrom_run {σ α : Type} (step : σ → UInt8 → Verdict σ α) (finish : σ → α) (fuel : Nat)
    (state : σ) (standing : t.HasAhead ahead) (enough : ahead.length ≤ fuel) :
    (takeFrom step finish fuel state).run t =
      ((Lexis.consume step finish state ahead).1, t.move (Lexis.consume step finish state ahead).2) := by
  induction ahead generalizing t fuel state with
  | nil =>
    cases fuel with
    | zero => rfl
    | succ fuel =>
      simp only [takeFrom, run_bind, next_run_nil standing]
      rfl
  | cons b ahead ih =>
    cases fuel with
    | zero => simp at enough
    | succ fuel =>
      simp only [takeFrom, run_bind, next_run standing, Lexis.consume]
      cases step state b with
      | more state =>
        simp only [ih fuel state standing.cons (by simpa using enough), Resident.move_move]
        rw [Nat.add_comm]
      | before answer => simp [unread_run standing]
      | through answer => rfl

theorem take_run {σ α : Type} (step : σ → UInt8 → Verdict σ α) (finish : σ → α) (state : σ)
    (standing : t.HasAhead ahead) : (take step finish state).run t =
      ((Lexis.consume step finish state ahead).1,
        t.move (Lexis.consume step finish state ahead).2) := by
  simp only [take, run_bind, remaining_run standing]
  exact takeFrom_run step finish _ state standing (Nat.le_refl _)

theorem noteTrailer_run (standing : t.HasAhead ahead) (ending : UInt8) :
    (noteTrailer ending).run t = ((), t) := by
  simp only [noteTrailer, run_perform, Readable.perform, Resident.noteTrailer, standing.unrecorded,
    Option.map_none]
  rw [← standing.unrecorded]

theorem skipFrom_run (fuel : Nat) (state : Option Marker) (standing : t.HasAhead ahead)
    (enough : ahead.length ≤ fuel) :
    (skipFrom fuel state).run t = ((), t.move (Lexis.skipped state.isSome ahead)) := by
  induction ahead generalizing t fuel state with
  | nil =>
    cases fuel with
    | zero => simp [skipFrom, Lexis.skipped]
    | succ fuel => simp [skipFrom, next_run_nil standing, Lexis.skipped]
  | cons b ahead ih =>
    cases fuel with
    | zero => simp at enough
    | succ fuel =>
      have later (state : Option Marker) := ih fuel state standing.cons (by simpa using enough)
      cases state with
      | none =>
        by_cases blank : Byte.isWhitespace b = true
        · simp [skipFrom, next_run standing, Lexis.skipped, blank, later, Nat.add_comm]
        · by_cases percent : b = Byte.percent
          · subst percent
            simp [skipFrom, next_run standing, Lexis.skipped, blank, later, Nat.add_comm]
          · simp [skipFrom, next_run standing, Lexis.skipped, blank, percent, unread_run standing]
      | some marker =>
        by_cases ending : Byte.isLineEnding b = true
        · by_cases complete : marker.isComplete = true
          · simp [skipFrom, next_run standing, Lexis.skipped, ending, complete,
              noteTrailer_run standing.cons, later, Nat.add_comm]
          · simp [skipFrom, next_run standing, Lexis.skipped, ending, complete, later, Nat.add_comm]
        · simp [skipFrom, next_run standing, Lexis.skipped, ending, later, Nat.add_comm]

theorem skipBlanks_run (standing : t.HasAhead ahead) :
    skipBlanks.run t = ((), t.move (Lexis.skipped false ahead)) := by
  simp only [skipBlanks, run_bind, remaining_run standing]
  exact skipFrom_run _ none standing (Nat.le_refl _)

/-- A run goes up to the first byte that ends it, and leaves that in place. -/
theorem consume_run (taken : Bytes) (ahead : Bytes) :
    Lexis.consume (fun taken b =>
        if Byte.isDelimiter b || Byte.isWhitespace b then Verdict.before taken.reverse
        else .more (b :: taken)) List.reverse taken ahead =
      (taken.reverse ++ ahead.takeWhile Lexis.isInner, (ahead.takeWhile Lexis.isInner).length) := by
  induction ahead generalizing taken with
  | nil => simp [Lexis.consume]
  | cons b ahead ih =>
    cases ends : Byte.isDelimiter b || Byte.isWhitespace b with
    | true => simp [Lexis.consume, Lexis.isInner, ends]
    | false =>
      simp only [Lexis.consume, ends, Bool.false_eq_true, ↓reduceIte, ih]
      simp [Lexis.isInner, ends]

theorem restOfRun_run (taken : Bytes) (standing : t.HasAhead ahead) :
    (restOfRun taken).run t =
      (taken.reverse ++ ahead.takeWhile Lexis.isInner, t.move (ahead.takeWhile Lexis.isInner).length) := by
  rw [restOfRun, take_run _ _ _ standing, consume_run]

theorem lexeme_run (standing : t.HasAhead ahead) :
    lexeme.run t = (Lexis.lexeme ahead, t.move (Lexis.lexeme ahead).length) := by
  cases ahead with
  | nil => simp [lexeme, next_run_nil standing, Lexis.lexeme]
  | cons b ahead =>
    simp only [lexeme, run_bind, next_run standing, Lexis.lexeme]
    split
    · rw [restOfRun_run _ standing.cons]
      simp [Nat.add_comm]
    · cases angle : b = Byte.less || b = Byte.greater with
      | false => simp
      | true =>
        cases ahead with
        | nil => simp [next_run_nil standing.cons]
        | cons c ahead =>
          by_cases same : c = b
          · subst same
            simp [next_run standing.cons]
          · have back : unread.run (t.move 2) = ((), t.move 1) := by
              simpa using unread_run standing.cons
            simp [next_run standing.cons, same, back]

/-- Reading a word, whose bytes and place follow from the bytes ahead. -/
theorem rawWord_run (standing : t.HasAhead ahead) :
    rawWord.run t = (Lexis.word t.limits.wordLength ahead,
      (t.move (Lexis.reach ahead)).keep (Lexis.word t.limits.wordLength ahead).bytes) := by
  have skip := skipBlanks_run standing
  have stands : (t.move (Lexis.skipped false ahead)).HasAhead
      (ahead.drop (Lexis.skipped false ahead)) := standing.drop _
  simp only [rawWord, run_bind, skip, settings_run, lexeme_run stands, keepWord_run, Resident.move_move,
    Resident.move_limits]
  rfl

theorem word_run (standing : t.HasAhead ahead) :
    word.run t = (Lexis.word t.limits.wordLength ahead,
      (t.move (Lexis.reach ahead)).keep (Lexis.word t.limits.wordLength ahead).bytes) := by
  have raw := rawWord_run standing
  change ((rawWord.run t).1, (rawWord.run t).2) = _
  rw [raw]

end Scan
end PdfObjects
