import PdfObjects.Proofs.Cursor
import PdfObjects.Proofs.Lexing
import PdfObjects.Proofs.Loading
import PdfObjects.Proofs.Sticky

/-! Words of a document that is still arriving, and numbers made of them. Reading stops at the first byte
that cannot be had, and what has been read so far is the word that the text up to there has. Whoever asks for
a word is not given such a part of one. Whoever asks for a number is: the part is taken for the whole, and its
value does not tell. -/
namespace PdfObjects
open Scan (Verdict)

/-- The unsigned number that a word stands for; zero if it is none. -/
def Word.unsigned (word : Word) : Nat := if word.isNumber then Numeral.saturating word.bytes else 0

/-- The empty word has no digits, so it need not be told from other words that are no numbers. -/
theorem Word.unsigned_eq (word : Word) :
    word.unsigned = if word.numeric then Numeral.saturating word.bytes else 0 := by
  obtain ⟨bytes, numeric⟩ := word
  cases bytes with
  | nil => cases numeric <;> rfl
  | cons b rest => cases numeric <;> rfl

theorem Word.unsigned_empty {word : Word} (empty : word.isEmpty = true) : word.unsigned = 0 := by
  rw [unsigned, isNumber, empty]
  simp

namespace Reader

variable {document ahead : Bytes} {b : UInt8} {r t u : Reader}

/-- A reader of a document that has exactly these bytes ahead, whether they have arrived or not. -/
structure StandsBefore (document : Bytes) (r : Reader) (ahead : Bytes) : Prop where
  faithful : r.Faithful document
  ahead : (document.drop r.origin).drop r.position = ahead

/-- The byte at the cursor cannot be had: the window does not show it, and may not be filled from there. -/
structure Barred (r : Reader) : Prop where
  inside : r.position + r.origin < r.gate.size
  hidden : r.window.byte? (r.position + r.origin) = none
  missing : r.gate.isAvailable (r.position + r.origin)
    (min r.options.effectiveWindow (r.gate.size - (r.position + r.origin))) = false

/-- A later state of a reader, with these bytes ahead and no problem met in between. -/
structure Clear (document : Bytes) (r t : Reader) (ahead : Bytes) : Prop where
  standing : t.StandsBefore document ahead
  quiet : t.gate.problems = r.gate.problems

/-- A reader that has failed to read the byte at the cursor. -/
structure Stopped (document : Bytes) (t : Reader) (ahead : Bytes) : Prop where
  standing : t.StandsBefore document ahead
  barred : t.Barred
  raised : t.gate.problems.any = true

/-- What a run over the bytes ahead comes to, if `made` tells what is made of a text, and how much of it is
taken. Either nothing was missed, or the run was stopped and made what it makes of the text up to there. -/
inductive Reads (document : Bytes) (r : Reader) (ahead : Bytes) (made : Bytes → α × Nat)
    (result : α × Reader) : Prop where
  | whole (answer : result.1 = (made ahead).1)
    (after : r.Clear document result.2 (ahead.drop (made ahead).2))
  | cut (seen : Nat) (short : seen < ahead.length) (answer : result.1 = (made (ahead.take seen)).1)
    (all : (made (ahead.take seen)).2 = seen) (after : result.2.Stopped document (ahead.drop seen))

theorem StandsBefore.clear (standing : r.StandsBefore document ahead) :
    r.Clear document r ahead := ⟨standing, rfl⟩

theorem Clear.after {u : Reader} (clear : r.Clear document t ahead) {rest : Bytes}
    (later : t.Clear document u rest) : r.Clear document u rest :=
  ⟨later.standing, later.quiet.trans clear.quiet⟩

/-- What a reader has noted on its way does not tell what is ahead of it. -/
theorem StandsBefore.note (standing : t.StandsBefore document ahead) (ends : Option (List Nat)) (word : Bytes) :
    StandsBefore document { t with trailerEnds := ends, lastWord := word } ahead :=
  ⟨⟨standing.faithful.gate, standing.faithful.origin, standing.faithful.window⟩, standing.ahead⟩

theorem Clear.note (clear : r.Clear document t ahead) (ends : Option (List Nat)) (word : Bytes) :
    r.Clear document { t with trailerEnds := ends, lastWord := word } ahead :=
  ⟨clear.standing.note ends word, clear.quiet⟩

theorem Stopped.note (stopped : t.Stopped document ahead) (ends : Option (List Nat)) (word : Bytes) :
    Stopped document { t with trailerEnds := ends, lastWord := word } ahead :=
  ⟨stopped.standing.note ends word, ⟨stopped.barred.inside, stopped.barred.hidden, stopped.barred.missing⟩,
    stopped.raised⟩

/-- The bytes ahead are those up to the end of the document. -/
theorem StandsBefore.length (standing : r.StandsBefore document ahead) :
    r.size - r.position = ahead.length := by
  rw [← standing.ahead, standing.faithful.size, ← List.length_drop]

theorem StandsBefore.inside (standing : r.StandsBefore document (b :: ahead)) : r.position < r.size := by
  have length := standing.length
  rw [List.length_cons] at length
  omega

theorem StandsBefore.byte (standing : r.StandsBefore document (b :: ahead)) :
    document[r.position + r.origin]? = some b := by
  rw [Nat.add_comm, ← List.getElem?_drop, ← List.head?_drop, standing.ahead, List.head?_cons]

theorem StandsBefore.tail (standing : r.StandsBefore document (b :: ahead)) :
    (document.drop r.origin).drop (r.position + 1) = ahead := by
  rw [← List.drop_drop, standing.ahead, List.drop_one, List.tail_cons]

/-- Of a reader that is stopped there are bytes ahead. -/
theorem Stopped.nonempty (stopped : r.Stopped document ahead) : 0 < ahead.length := by
  have length := stopped.standing.length
  have inside := stopped.barred.inside
  unfold size at length
  omega

/-- At the end of the document nothing is read. -/
theorem StandsBefore.byteAt_nil (standing : r.StandsBefore document []) :
    r.byteAt r.position = (none, r) := by
  have length : r.gate.size - r.origin - r.position = 0 := standing.length
  have behind : r.gate.size ≤ r.position + r.origin := by omega
  rw [byteAt, fetch, if_pos behind]

/-- The byte at the cursor is read, or cannot be had. -/
theorem StandsBefore.byteAt_cons (standing : r.StandsBefore document (b :: ahead)) :
    (∃ gate window, r.byteAt r.position = (some b, { r with gate, window }) ∧
      r.Clear document { r with gate, window } (b :: ahead)) ∨ r.Barred := by
  have room := standing.inside
  have inside : r.position + r.origin < r.gate.size := by
    unfold size at room
    omega
  have size := standing.faithful.gate.size
  have positive := r.options.effectiveWindow_pos
  unfold byteAt fetch
  rw [if_neg (Nat.not_le_of_lt inside)]
  cases seen : r.window.byte? (r.position + r.origin) with
  | some c =>
    have same := (standing.faithful.window.byte? seen).symm.trans standing.byte
    cases same
    exact .inl ⟨r.gate, r.window, rfl, standing, rfl⟩
  | none =>
    rcases standing.faithful.gate.read_cases (r.position + r.origin)
        (min r.options.effectiveWindow (r.gate.size - (r.position + r.origin))) with
      ⟨outside, _⟩ | ⟨_, missing, _⟩ | ⟨_, _, source, kept, delivered⟩
    · omega
    · exact .inr ⟨inside, seen, missing⟩
    · have shown : Window.byte? ⟨r.position + r.origin, ((document.drop (r.position + r.origin)).take
          (min r.options.effectiveWindow (r.gate.size - (r.position + r.origin)))).toArray⟩
          (r.position + r.origin) = document[r.position + r.origin]? :=
        Window.byte?_range (Nat.le_refl _) (by omega)
      simp only [refill, delivered, shown, standing.byte]
      exact .inl ⟨_, _, rfl, ⟨⟨kept, standing.faithful.origin, Window.shows_range _ _⟩, standing.ahead⟩, rfl⟩

/-- A byte that cannot be had cannot be had the next time either. -/
theorem StandsBefore.byteAt_barred (standing : r.StandsBefore document ahead) (barred : r.Barred) :
    ∃ gate window, r.byteAt r.position = (none, { r with gate, window }) ∧
      { r with gate, window }.Stopped document ahead := by
  have inside := barred.inside
  have within : ¬ r.gate.size < r.position + r.origin +
      min r.options.effectiveWindow (r.gate.size - (r.position + r.origin)) := by omega
  unfold byteAt fetch
  rw [if_neg (Nat.not_le_of_lt inside), barred.hidden]
  simp only [refill, Gate.read, if_neg within, barred.missing]
  have empty : Window.byte? { r.window with bytes := #[] } (r.position + r.origin) = none := by
    unfold Window.byte?
    split <;> rfl
  refine ⟨_, _, Prod.ext empty rfl, ⟨⟨standing.faithful.gate, standing.faithful.origin, Window.shows_empty _⟩,
    standing.ahead⟩, ⟨inside, empty, barred.missing⟩, r.gate.request_unavailable _ _⟩

end Reader

namespace Scan
open Reader (StandsBefore Barred Clear Stopped Reads)

variable {document ahead : Bytes} {b : UInt8} {r t : Reader} {α σ : Type}

theorem next_standsBefore_nil (standing : r.StandsBefore document []) : next.run r = (none, r) := by
  change r.next = _
  rw [Reader.next, standing.byteAt_nil]

/-- A byte is taken, and can be put back; or it cannot be had. -/
theorem next_standsBefore_cons (standing : r.StandsBefore document (b :: ahead)) :
    (∃ t, next.run r = (some b, t) ∧ r.Clear document t ahead ∧
      r.Clear document (unread.run t).2 (b :: ahead)) ∨ r.Barred := by
  rcases standing.byteAt_cons with ⟨gate, window, found, clear⟩ | barred
  · refine .inl ⟨{ r with gate, window, position := r.position + 1 }, ?_, ?_, ?_⟩
    · change r.next = _
      rw [Reader.next, found]
    · have faithful := clear.standing.faithful
      exact ⟨⟨⟨faithful.gate, faithful.origin, faithful.window⟩, standing.tail⟩, clear.quiet⟩
    · have faithful := clear.standing.faithful
      have back : min (r.position + 1 - 1) (gate.size - r.origin) = r.position := by
        have same := faithful.size
        have length := clear.standing.inside
        unfold Reader.size at length
        dsimp only at length
        omega
      refine ⟨⟨⟨faithful.gate, faithful.origin, faithful.window⟩, ?_⟩, clear.quiet⟩
      change (document.drop r.origin).drop (min (r.position + 1 - 1) (gate.size - r.origin)) = _
      rw [back, standing.ahead]
  · exact .inr barred

theorem next_barred (standing : r.StandsBefore document ahead) (barred : r.Barred) :
    ∃ t, next.run r = (none, t) ∧ t.Stopped document ahead := by
  obtain ⟨gate, window, failed, stopped⟩ := standing.byteAt_barred barred
  refine ⟨{ r with gate, window }, ?_, stopped⟩
  change r.next = _
  rw [Reader.next, failed]

/-- Noting a trailer may look at a byte that cannot be had, but moves nothing. -/
theorem noteTrailer_standsBefore (standing : r.StandsBefore document ahead) (ending : UInt8) :
    r.Clear document ((noteTrailer ending).run r).2 ahead ∨
      ((noteTrailer ending).run r).2.Stopped document ahead := by
  change r.Clear document (r.noteTrailer ending) ahead ∨ (r.noteTrailer ending).Stopped document ahead
  unfold Reader.noteTrailer
  cases r.trailerEnds with
  | none => exact .inl standing.clear
  | some ends =>
    dsimp only
    split
    · cases ahead with
      | nil =>
        rw [standing.byteAt_nil]
        exact .inl (standing.clear.note _ r.lastWord)
      | cons b ahead =>
        rcases standing.byteAt_cons with ⟨gate, window, found, clear⟩ | barred
        · rw [found]
          exact .inl (clear.note _ r.lastWord)
        · obtain ⟨gate, window, failed, stopped⟩ := standing.byteAt_barred barred
          rw [failed]
          exact .inr (stopped.note _ r.lastWord)
    · exact .inl (standing.clear.note _ r.lastWord)

theorem remaining_standsBefore (standing : r.StandsBefore document ahead) :
    remaining.run r = (ahead.length, r) := by
  change (r.size - r.position, r) = _
  rw [standing.length]

/-- A run that misses nothing has made what is made of all there is. -/
theorem reads_whole {made : Bytes → α × Nat} {result : α × Reader} {count : Nat}
    (all : made ahead = (result.1, count)) (after : r.Clear document result.2 (ahead.drop count)) :
    Reads document r ahead made result :=
  .whole (congrArg Prod.fst all).symm (by rwa [all])

/-- A run that is stopped at once has made what is made of nothing. -/
theorem reads_stopped {made : Bytes → α × Nat} {result : α × Reader} (nothing : made [] = (result.1, 0))
    (stopped : result.2.Stopped document ahead) : Reads document r ahead made result :=
  .cut 0 stopped.nonempty (congrArg Prod.fst nothing).symm (congrArg Prod.snd nothing) stopped

/-- A run that takes a byte first makes of a text what the rest of it makes of the text behind. -/
theorem reads_cons {made later : Bytes → α × Nat} {result : α × Reader}
    (first : ∀ text, made (b :: text) = ((later text).1, (later text).2 + 1))
    (clear : r.Clear document t ahead) (reads : Reads document t ahead later result) :
    Reads document r (b :: ahead) made result := by
  cases reads with
  | whole answer after =>
    refine .whole ?_ ?_
    · rw [answer, first]
    · rw [first]
      exact clear.after after
  | cut seen short answer all after =>
    refine .cut (seen + 1) (Nat.succ_lt_succ short) ?_ ?_ after
    · rw [List.take_succ_cons, first, answer]
    · rw [List.take_succ_cons, first, all]

/-- Taking bytes one by one, with fuel for all that are there. -/
theorem takeFrom_reads (step : σ → UInt8 → Verdict σ α) (finish : σ → α) (fuel : Nat) (state : σ)
    (standing : r.StandsBefore document ahead) (enough : ahead.length ≤ fuel) :
    Reads document r ahead (Lexis.consume step finish state) ((takeFrom step finish fuel state).run r) := by
  induction ahead generalizing r fuel state with
  | nil =>
    cases fuel with
    | zero => exact .whole rfl standing.clear
    | succ fuel =>
      simp only [takeFrom, run_bind, next_standsBefore_nil standing]
      exact .whole rfl standing.clear
  | cons b ahead ih =>
    cases fuel with
    | zero => simp at enough
    | succ fuel =>
      rcases next_standsBefore_cons standing with ⟨t, found, clear, back⟩ | barred
      · simp only [takeFrom, run_bind, found]
        cases verdict : step state b with
        | more state' =>
          have later := ih fuel state' clear.standing (Nat.le_of_succ_le_succ enough)
          refine reads_cons (fun text => ?_) clear later
          simp only [Lexis.consume, verdict]
        | before answer =>
          have made : Lexis.consume step finish state (b :: ahead) = (answer, 0) := by
            simp only [Lexis.consume, verdict]
          exact reads_whole made back
        | through answer =>
          have made : Lexis.consume step finish state (b :: ahead) = (answer, 1) := by
            simp only [Lexis.consume, verdict]
          exact reads_whole made clear
      · obtain ⟨t, failed, stopped⟩ := next_barred standing barred
        simp only [takeFrom, run_bind, failed]
        exact reads_stopped rfl stopped

/-- Nothing is skipped where reading is stopped. -/
theorem skipFrom_barred (fuel : Nat) (state : Option Marker) (standing : t.StandsBefore document ahead)
    (barred : t.Barred) : Reads document r ahead (fun text => ((), Lexis.skipped state.isSome text))
      ((skipFrom (fuel + 1) state).run t) := by
  obtain ⟨u, failed, stopped⟩ := next_barred standing barred
  simp only [skipFrom, run_bind, failed]
  exact reads_stopped (by cases state <;> rfl) stopped

/-- Skipping. A trailer whose line ending is cut is noted all the same; the next byte then ends it. -/
theorem skipFrom_reads (fuel : Nat) (state : Option Marker) (standing : r.StandsBefore document ahead)
    (enough : ahead.length ≤ fuel) :
    Reads document r ahead (fun text => ((), Lexis.skipped state.isSome text))
      ((skipFrom fuel state).run r) := by
  induction ahead generalizing r fuel state with
  | nil =>
    cases fuel with
    | zero => exact .whole rfl standing.clear
    | succ fuel =>
      simp only [skipFrom, run_bind, next_standsBefore_nil standing]
      exact .whole rfl standing.clear
  | cons b ahead ih =>
    cases fuel with
    | zero => simp at enough
    | succ fuel =>
      have fits : ahead.length ≤ fuel := Nat.le_of_succ_le_succ enough
      rcases next_standsBefore_cons standing with ⟨t, found, clear, back⟩ | barred
      · simp only [skipFrom, run_bind, found]
        cases state with
        | none =>
          by_cases blank : Byte.isWhitespace b = true
          · simp only [if_pos blank]
            exact reads_cons (fun text => by simp [Lexis.skipped, blank]) clear
              (ih fuel none clear.standing fits)
          · by_cases percent : b = Byte.percent
            · simp only [if_neg blank, if_pos percent]
              refine reads_cons (fun text => ?_) clear (ih fuel (some .percents) clear.standing fits)
              simp only [Lexis.skipped, Option.isSome_none, Option.isSome_some, if_neg blank, if_pos percent]
            · simp only [if_neg blank, if_neg percent]
              refine .whole rfl ?_
              simp only [Lexis.skipped, Option.isSome_none, blank, percent]
              exact back
        | some marker =>
          by_cases ending : Byte.isLineEnding b = true
          · have first (text : Bytes) : Lexis.skipped true (b :: text) = Lexis.skipped false text + 1 := by
              simp [Lexis.skipped, ending]
            simp only [if_pos ending]
            by_cases complete : marker.isComplete = true
            · simp only [if_pos complete, run_bind]
              rcases noteTrailer_standsBefore clear.standing b with noted | stopped
              · exact reads_cons (fun text => by simp [first]) (clear.after noted)
                  (ih fuel none noted.standing fits)
              · have some : 0 < fuel := Nat.lt_of_lt_of_le stopped.nonempty fits
                obtain ⟨left, rfl⟩ := Nat.exists_eq_succ_of_ne_zero (Nat.ne_of_gt some)
                exact reads_cons (fun text => by simp [first]) clear
                  (skipFrom_barred left none stopped.standing stopped.barred)
            · simp only [if_neg complete]
              exact reads_cons (fun text => by simp [first]) clear (ih fuel none clear.standing fits)
          · simp only [if_neg ending]
            exact reads_cons (fun text => by simp [Lexis.skipped, ending]) clear
              (ih fuel (some (marker.step b)) clear.standing fits)
      · exact skipFrom_barred fuel state standing barred

theorem skipBlanks_reads (standing : r.StandsBefore document ahead) :
    Reads document r ahead (fun text => ((), Lexis.skipped false text)) (skipBlanks.run r) := by
  simp only [skipBlanks, run_bind, remaining_standsBefore standing]
  exact skipFrom_reads ahead.length none standing (Nat.le_refl _)

theorem restOfRun_reads (taken : Bytes) (standing : r.StandsBefore document ahead) :
    Reads document r ahead (fun text => (taken.reverse ++ text.takeWhile Lexis.isInner,
      (text.takeWhile Lexis.isInner).length)) ((restOfRun taken).run r) := by
  have reads := takeFrom_reads (fun taken b =>
      if Byte.isDelimiter b || Byte.isWhitespace b then .before taken.reverse else .more (b :: taken))
    List.reverse ahead.length taken standing (Nat.le_refl _)
  simp only [funext (consume_run taken)] at reads
  simp only [restOfRun, take, run_bind, remaining_standsBefore standing]
  exact reads

theorem reads_lexeme {word : Bytes} (made : Lexis.lexeme ahead = word)
    (after : r.Clear document t (ahead.drop word.length)) :
    Reads document r ahead (fun text => (Lexis.lexeme text, (Lexis.lexeme text).length)) (word, t) :=
  reads_whole (congrArg (fun word => (word, word.length)) made) after

/-- All bytes of a word. -/
theorem lexeme_reads (standing : r.StandsBefore document ahead) :
    Reads document r ahead (fun text => (Lexis.lexeme text, (Lexis.lexeme text).length))
      (lexeme.run r) := by
  cases ahead with
  | nil =>
    simp only [lexeme, run_bind, next_standsBefore_nil standing]
    exact .whole rfl standing.clear
  | cons b ahead =>
    rcases next_standsBefore_cons standing with ⟨t, found, clear, _⟩ | barred
    · simp only [lexeme, run_bind, found]
      by_cases run : (b = Byte.slash || !Byte.isDelimiter b) = true
      · rw [if_pos run]
        refine reads_cons (fun text => ?_) clear (restOfRun_reads [b] clear.standing)
        simp [Lexis.lexeme, run]
      · rw [if_neg run]
        cases angle : (b = Byte.less || b = Byte.greater) with
        | false =>
          have made : Lexis.lexeme (b :: ahead) = [b] := by simp [Lexis.lexeme, run, angle]
          exact reads_lexeme made clear
        | true =>
          simp only [if_true]
          cases ahead with
          | nil =>
            have made : Lexis.lexeme [b] = [b] := by simp [Lexis.lexeme, run, angle]
            simp only [run_bind, next_standsBefore_nil clear.standing]
            exact reads_lexeme made clear
          | cons c ahead =>
            rcases next_standsBefore_cons clear.standing with ⟨u, next, on, back⟩ | barred
            · simp only [run_bind, next]
              by_cases same : c = b
              · have made : Lexis.lexeme (b :: c :: ahead) = [b, c] := by
                  simp [Lexis.lexeme, run, angle, same]
                rw [if_pos same]
                exact reads_lexeme made (clear.after on)
              · have made : Lexis.lexeme (b :: c :: ahead) = [b] := by
                  simp [Lexis.lexeme, run, angle, same]
                rw [if_neg same]
                exact reads_lexeme made (clear.after back)
            · obtain ⟨u, failed, stopped⟩ := next_barred clear.standing barred
              have made : Lexis.lexeme ((b :: c :: ahead).take 1) = [b] := by
                simp [Lexis.lexeme, run, angle]
              simp only [run_bind, failed]
              exact .cut 1 (by simp) made.symm (by rw [made]; rfl) stopped
    · obtain ⟨t, failed, stopped⟩ := next_barred standing barred
      simp only [lexeme, run_bind, failed]
      exact reads_stopped rfl stopped

end Scan

/-- What is skipped of a text is skipped of each part that holds it. -/
theorem Lexis.skipped_take (comment : Bool) (text : Bytes) (count : Nat) :
    skipped comment (text.take (skipped comment text + count)) = skipped comment text := by
  induction text generalizing comment with
  | nil => simp [skipped]
  | cons b rest ih =>
    cases comment with
    | false =>
      simp only [skipped]
      split
      · rename_i blank
        rw [Nat.add_right_comm, List.take_succ_cons, skipped, if_pos blank, ih]
      · rename_i other
        split
        · rename_i percent
          rw [Nat.add_right_comm, List.take_succ_cons, skipped, if_neg other, if_pos percent, ih]
        · rename_i neither
          cases count with
          | zero => rfl
          | succ count =>
            rw [Nat.zero_add, List.take_succ_cons, skipped, if_neg other, if_neg neither]
    | true =>
      simp only [skipped]
      rw [Nat.add_right_comm, List.take_succ_cons, skipped, ih]

/-- The word of a text that is cut behind what is skipped. -/
theorem Lexis.word_take (limit : Nat) (text : Bytes) (count : Nat) :
    word limit (text.take (skipped false text + count)) =
        Word.ofLexeme limit (lexeme ((text.drop (skipped false text)).take count)) ∧
      reach (text.take (skipped false text + count)) =
        skipped false text + (lexeme ((text.drop (skipped false text)).take count)).length := by
  have rest : (text.take (skipped false text + count)).drop (skipped false text) =
      (text.drop (skipped false text)).take count := by
    rw [List.drop_take, Nat.add_sub_cancel_left]
  rw [word, reach, skipped_take, rest]
  exact ⟨rfl, rfl⟩

namespace Scan
open Reader (StandsBefore Reads Stopped)

variable {document ahead : Bytes} {r : Reader}

/-- Of a word at which reading is stopped there is nothing. -/
theorem lexeme_stopped (stopped : r.Stopped document ahead) :
    ∃ t, lexeme.run r = ([], t) ∧ t.Stopped document ahead := by
  obtain ⟨t, failed, later⟩ := next_barred stopped.standing stopped.barred
  exact ⟨t, by simp only [lexeme, run_bind, failed]; rfl, later⟩

/-- A word as far as it can be read. -/
theorem rawWord_reads (standing : r.StandsBefore document ahead) :
    Reads document r ahead (fun text => (Lexis.word r.limits.wordLength text, Lexis.reach text))
      (rawWord.run r) := by
  have skipped := skipBlanks_reads standing
  have raw : rawWord.run r =
      (Word.ofLexeme (skipBlanks.run r).2.limits.wordLength (lexeme.run (skipBlanks.run r).2).1,
        { (lexeme.run (skipBlanks.run r).2).2 with
          lastWord := (Word.ofLexeme (skipBlanks.run r).2.limits.wordLength
            (lexeme.run (skipBlanks.run r).2).1).bytes }) := rfl
  have same : (skipBlanks.run r).2.limits.wordLength = r.limits.wordLength := by
    simp only [Reader.limits, (Reader.continues.run skipBlanks r).options]
  rw [raw, same]
  cases skipped with
  | whole _ skip =>
    dsimp only at skip
    cases lexeme_reads skip.standing with
    | whole answer after =>
      dsimp only at answer after
      rw [List.drop_drop] at after
      refine .whole ?_ ((skip.after after).note _ _)
      rw [answer]
      rfl
    | cut seen short answer all after =>
      dsimp only at answer all after
      have part := Lexis.word_take r.limits.wordLength ahead seen
      rw [List.length_drop] at short
      rw [List.drop_drop] at after
      refine .cut (Lexis.skipped false ahead + seen) (by omega) ?_ ?_ (after.note _ _)
      · rw [part.1, answer]
      · rw [part.2, all]
  | cut seen short _ all stopped =>
    dsimp only at all
    obtain ⟨t, nothing, later⟩ := lexeme_stopped stopped
    have rest : (ahead.take seen).drop seen = [] := List.drop_eq_nil_of_le (List.length_take_le seen ahead)
    have word : Lexis.word r.limits.wordLength (ahead.take seen) =
        Word.ofLexeme r.limits.wordLength [] := by
      rw [Lexis.word, all, rest]
      rfl
    have reach : Lexis.reach (ahead.take seen) = seen := by
      rw [Lexis.reach, all, rest]
      rfl
    rw [nothing]
    exact .cut seen short word.symm reach (later.note _ _)

/-- A number is what the word gives that is read without regard to problems. The reader goes where it goes
for a word, and meets the same problems. -/
theorem directNumber_run (r : Reader) :
    directNumber.run r = (((session rawWord).run r).1.1.unsigned, (word.run r).2) := by
  have kept : r = (r.flagged {}).remember r.gate.problems [] := r.flagged_eq_remember r.gate.problems
  have raw : rawWord.run r = ((rawWord.run (r.flagged {})).1,
      (rawWord.run (r.flagged {})).2.remember r.gate.problems []) :=
    (congrArg rawWord.run kept).trans (Reader.remember_run rawWord _ _ _)
  have number : directNumber.run r = ((rawWord.run r).1.unsigned, (rawWord.run r).2) := by
    rw [Word.unsigned_eq]
    rfl
  rw [number, raw]
  exact Prod.ext rfl rfl

end Scan

namespace Reader
open Scan (rawWord)

variable {document : Bytes} {r : Reader}

/-- Where a reader is stopped, from where it began: the window it lacks is not available. -/
theorem Stopped.missing {t : Reader} {ahead : Bytes} {seen : Nat} (standing : r.StandsBefore document ahead)
    (stopped : t.Stopped document (ahead.drop seen)) (continues : r.Continues t)
    (stays : r.gate.Stays t.gate) (size : t.gate.size = r.gate.size) :
    r.gate.isAvailable (r.position + seen + r.origin)
      (min r.options.effectiveWindow (r.gate.size - (r.position + seen + r.origin))) = false := by
  have position : t.position = r.position + seen := by
    have whole := standing.length
    have rest := stopped.standing.length
    have inside := stopped.barred.inside
    rw [List.length_drop] at rest
    unfold Reader.size at whole rest
    rw [continues.origin] at rest inside
    omega
  have missing := stopped.barred.missing
  unfold Gate.isAvailable at missing ⊢
  rwa [position, continues.origin, continues.options, stays.availability, stays.complete, size] at missing

/-- The session around a word meets no problem and reads the word; or it is stopped, and reads the word of
the text that is cut there. -/
theorem Faithful.word_session (faithful : r.Faithful document) :
    let ahead := (document.drop r.origin).drop r.position
    let result := ((Scan.session rawWord).run r).1
    (result.2 = false ∧ result.1 = Lexis.word r.limits.wordLength ahead) ∨
    (result.2 = true ∧ ∃ seen < ahead.length,
      r.gate.isAvailable (r.position + seen + r.origin)
        (min r.options.effectiveWindow (r.gate.size - (r.position + seen + r.origin))) = false ∧
      result.1 = Lexis.word r.limits.wordLength (ahead.take seen)) := by
  intro ahead result
  have standing : StandsBefore document (Readable.openSession r) ahead :=
    ⟨⟨faithful.gate, faithful.origin, faithful.window⟩, rfl⟩
  cases Scan.rawWord_reads standing with
  | whole answer after => exact .inl ⟨congrArg Problems.any after.quiet, answer⟩
  | cut seen short answer _ after =>
    have missing := after.missing standing (continues.run rawWord _) (Gate.stays_evolution.reader.run rawWord _)
      (Gate.size_evolution.reader.run rawWord _)
    exact .inr ⟨after.raised, seen, short, missing, answer⟩

/-- Numbers may be parts of numbers. Over a document of which anything has arrived, with any window and any
bytes in it, asking for a number moves the reader as asking for a word does, with the same requests and
flags. If the word can be read to its end, the number is its value. If not, reading has stopped in front of a
byte from which no window is available. Asking for the word then gives the empty one, while the number is that
of the word cut there; so it is zero, as it has to be, only if that part comes to nothing. -/
theorem Faithful.reads_number (faithful : r.Faithful document) :
    let ahead := (document.drop r.origin).drop r.position
    let problems := ((Scan.session rawWord).run r).1.2
    (Scan.directNumber.run r).2 = (Scan.word.run r).2 ∧
    (problems = false → (Scan.word.run r).1 = Lexis.word r.limits.wordLength ahead ∧
      (Scan.directNumber.run r).1 = (Scan.word.run r).1.unsigned) ∧
    (problems = true → (Scan.word.run r).1.isEmpty = true ∧
      ∃ seen < ahead.length,
        r.gate.isAvailable (r.position + seen + r.origin)
          (min r.options.effectiveWindow (r.gate.size - (r.position + seen + r.origin))) = false ∧
        (Scan.directNumber.run r).1 = (Lexis.word r.limits.wordLength (ahead.take seen)).unsigned) ∧
    ((Scan.directNumber.run r).1 = (Scan.word.run r).1.unsigned ↔
      problems = false ∨ (Scan.directNumber.run r).1 = 0) := by
  intro ahead problems
  rw [Scan.directNumber_run, word_run]
  refine ⟨rfl, ?_⟩
  rcases faithful.word_session with ⟨clear, whole⟩ | ⟨raised, seen, short, missing, part⟩
  · have told : problems = false := clear
    rw [told, if_neg (Bool.eq_false_iff.mp clear)]
    refine ⟨fun _ => ⟨whole, rfl⟩, fun raised => ?_, iff_of_true rfl (.inl rfl)⟩
    cases raised
  · have told : problems = true := raised
    have empty : Word.isEmpty { ((Scan.session rawWord).run r).1.1 with bytes := [] } = true := rfl
    rw [told, if_pos raised, Word.unsigned_empty empty]
    refine ⟨fun clear => ?_, fun _ => ⟨rfl, seen, short, missing, congrArg Word.unsigned part⟩, by simp⟩
    cases clear

/-- Five digits of which two have arrived, and a reader that sees one byte at a time. -/
def cutDigits : Reader :=
  ofGate
    { source := .memory (Bytes.ofAscii ['1', '2', '3', '4', '5', ' ']).toArray
      availability := some (.ofRanges [⟨0, 2⟩]) } 0 { windowSize := 1 }

/-- The two digits are taken for a number, where a word is refused. -/
theorem cutDigits_reads_part :
    cutDigits.Faithful (Bytes.ofAscii ['1', '2', '3', '4', '5', ' ']) ∧
      (Scan.word.run cutDigits).1.isEmpty = true ∧ (Scan.directNumber.run cutDigits).1 = 12 ∧
      (Scan.directNumber.run cutDigits).1 ≠ (Scan.word.run cutDigits).1.unsigned ∧
      (Scan.directNumber.run cutDigits).2 = (Scan.word.run cutDigits).2 := by
  have faithful : cutDigits.Faithful (Bytes.ofAscii ['1', '2', '3', '4', '5', ' ']) :=
    ⟨⟨_, rfl, rfl, fun _ _ _ _ => rfl⟩, Nat.zero_le _, Window.shows_empty 0⟩
  have number : (Scan.directNumber.run cutDigits).1 = 12 := by decide +kernel
  have troubled : ((Scan.session rawWord).run cutDigits).1.2 = true := by decide +kernel
  obtain ⟨alike, _, cut, condition⟩ := faithful.reads_number
  have differs : (Scan.directNumber.run cutDigits).1 ≠ (Scan.word.run cutDigits).1.unsigned := by
    intro same
    rcases condition.mp same with clear | zero
    · exact absurd (troubled.symm.trans clear) (by decide)
    · exact absurd (number.symm.trans zero) (by decide)
  exact ⟨faithful, (cut troubled).1, number, differs, alike⟩

end Reader
end PdfObjects
