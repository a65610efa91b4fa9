import PdfObjects.Proofs.Occurrences
import PdfObjects.Scan.Loop

/-! The grammar of words. A text is cut into words with blanks and comments between them. A comment ends
with its line, or with the text, and a word ends where it cannot go on, so there is one cut only, and
reading word by word follows it to the end of the text. -/
namespace PdfObjects

namespace Lexis

/-- Blanks and comments in front of some text. -/
inductive Separates : (gap after : Bytes) → Prop where
  | nil {after : Bytes} : Separates [] after
  | blank {b : UInt8} {gap after : Bytes} (blank : Byte.isWhitespace b = true)
    (rest : Separates gap after) : Separates (b :: gap) after
  | comment {line gap after : Bytes} {b : UInt8} (unbroken : Unbroken line)
    (ending : Byte.isLineEnding b = true) (rest : Separates gap after) :
    Separates (Byte.percent :: line ++ b :: gap) after
  | lastComment {line : Bytes} (unbroken : Unbroken line) : Separates (Byte.percent :: line) []

/-- A word in front of some text, into which it could not go on. -/
inductive Lexeme : (word after : Bytes) → Prop where
  | name {name after : Bytes} (bytes : ∀ b ∈ name, (Byte.isRegular b || Byte.isNumeric b) = true)
    (ends : ∀ b ∈ after.head?, (Byte.isRegular b || Byte.isNumeric b) = false) :
    Lexeme (Byte.slash :: name) after
  | pair {b : UInt8} {after : Bytes} (angle : b = Byte.less ∨ b = Byte.greater) : Lexeme [b, b] after
  | angle {b : UInt8} {after : Bytes} (angle : b = Byte.less ∨ b = Byte.greater)
    (alone : after.head? ≠ some b) : Lexeme [b] after
  | delimiter {b : UInt8} {after : Bytes} (delimiter : Byte.isDelimiter b = true)
    (other : b ∉ [Byte.slash, Byte.less, Byte.greater, Byte.percent]) : Lexeme [b] after
  | run {run after : Bytes} (nonempty : run ≠ [])
    (bytes : ∀ b ∈ run, (Byte.isWhitespace b || Byte.isDelimiter b) = false)
    (ends : ∀ b ∈ after.head?, (Byte.isWhitespace b || Byte.isDelimiter b) = true) : Lexeme run after

/-- What stands in front of the first word of a text, the word, and what stands behind it. There is no
word at the end of the text only. -/
structure Cuts (text gap word after : Bytes) : Prop where
  split : text = gap ++ word ++ after
  separates : Separates gap (word ++ after)
  lexeme : Lexeme word after ∨ word = [] ∧ after = []

/-- All words of a text. Nothing stands between them but blanks and comments. -/
inductive Splits : (text : Bytes) → (words : List Bytes) → Prop where
  | last {gap : Bytes} (separates : Separates gap []) : Splits gap []
  | word {gap word after : Bytes} {words : List Bytes} (separates : Separates gap (word ++ after))
    (lexeme : Lexeme word after) (rest : Splits after words) :
    Splits (gap ++ word ++ after) (word :: words)

variable {text gap line word after : Bytes} {b : UInt8}

theorem isInner_outer (b : UInt8) : isInner b = !(Byte.isWhitespace b || Byte.isDelimiter b) := by
  rw [isInner, Bool.or_comm]

/-- A word of the grammar is read as a word. -/
theorem Lexeme.isWord (lexeme : Lexeme word after) : IsWord word after := by
  cases lexeme with
  | name bytes ends =>
    refine isWord_name (fun b member => (isInner_class b).trans (bytes b member)) fun b next => ?_
    exact (isInner_class b).trans (ends b next)
  | pair angle => exact isWord_pair angle
  | angle angle alone =>
    refine isWord_delimiter ?_ fun _ => alone
    rcases angle with rfl | rfl <;> rfl
  | delimiter delimiter other =>
    simp only [List.mem_cons, List.not_mem_nil, or_false, not_or] at other
    obtain ⟨slash, less, greater, percent⟩ := other
    refine isWord_delimiter ?_ fun angle => absurd angle (not_or.mpr ⟨less, greater⟩)
    simp [isMark, delimiter, slash, percent]
  | run nonempty bytes ends =>
    refine isWord_run nonempty (List.all_eq_true.mpr fun b member => ?_) fun b next => ?_
    · rw [isInner_outer, bytes b member, Bool.not_false]
    · rw [isInner_outer, ends b next, Bool.not_true]

theorem skipped_line (unbroken : Unbroken line) (text : Bytes) :
    skipped true (line ++ text) = line.length + skipped true text := by
  induction line with
  | nil => simp
  | cons c line ih =>
    have inside : Byte.isLineEnding c = false := unbroken c List.mem_cons_self
    have later := ih fun d member => unbroken d (List.mem_cons_of_mem c member)
    simp only [List.cons_append, skipped, inside, Bool.not_false, later, List.length_cons]
    omega

/-- Blanks and comments are skipped as a whole. -/
theorem Separates.skipped (separates : Separates gap after) :
    skipped false (gap ++ after) = gap.length + Lexis.skipped false after := by
  induction separates with
  | nil => simp
  | @blank b gap after blank rest ih =>
    simp only [List.cons_append, Lexis.skipped, blank, ↓reduceIte, ih, List.length_cons]
    omega
  | @comment line gap after b unbroken ending rest ih =>
    have percent : Byte.isWhitespace Byte.percent = false := rfl
    simp only [List.cons_append, List.append_assoc, Lexis.skipped, percent, Bool.false_eq_true,
      ↓reduceIte, skipped_line unbroken, ending, Bool.not_true, ih, List.length_cons, List.length_append]
    omega
  | @lastComment line unbroken =>
    have percent : Byte.isWhitespace Byte.percent = false := rfl
    simp only [List.cons_append, Lexis.skipped, percent, Bool.false_eq_true, ↓reduceIte,
      skipped_line unbroken, List.length_cons]

/-- The cut is the one that reading makes. -/
theorem Cuts.skipped (cuts : Cuts text gap word after) : skipped false text = gap.length := by
  obtain ⟨rfl, separates, lexeme⟩ := cuts
  rw [List.append_assoc, separates.skipped]
  rcases lexeme with lexeme | ⟨rfl, rfl⟩
  · rw [lexeme.isWord.starts, Nat.add_zero]
  · rfl

theorem Cuts.whole (cuts : Cuts text gap word after) :
    Lexis.lexeme (text.drop (Lexis.skipped false text)) = word := by
  rw [cuts.skipped, cuts.split, List.append_assoc, List.drop_left]
  rcases cuts.lexeme with lexeme | ⟨rfl, rfl⟩
  · exact lexeme.isWord.whole
  · rfl

/-- A word is there as soon as there is a byte that is neither blank nor the start of a comment. -/
theorem exists_lexeme (blank : Byte.isWhitespace b = false) (percent : b ≠ Byte.percent) (rest : Bytes) :
    ∃ word after, b :: rest = word ++ after ∧ Lexeme word after := by
  have bytes (c : UInt8) (member : c ∈ rest.takeWhile isInner) : isInner c = true :=
    List.mem_takeWhile_imp member
  have ends (c : UInt8) (next : c ∈ (rest.dropWhile isInner).head?) : isInner c = false := by
    have stops := List.head?_dropWhile_not isInner rest
    rw [next] at stops
    simpa using stops
  by_cases slash : b = Byte.slash
  · refine ⟨Byte.slash :: rest.takeWhile isInner, rest.dropWhile isInner, ?_, .name ?_ ?_⟩
    · rw [slash, List.cons_append, List.takeWhile_append_dropWhile]
    · exact fun c member => (isInner_class c).symm.trans (bytes c member)
    · exact fun c next => (isInner_class c).symm.trans (ends c next)
  by_cases angle : b = Byte.less ∨ b = Byte.greater
  · by_cases paired : rest.head? = some b
    · obtain ⟨after, rfl⟩ := List.head?_eq_some_iff.mp paired
      exact ⟨[b, b], after, rfl, .pair angle⟩
    · exact ⟨[b], rest, rfl, .angle angle paired⟩
  by_cases delimiter : Byte.isDelimiter b = true
  · refine ⟨[b], rest, rfl, .delimiter delimiter ?_⟩
    obtain ⟨less, greater⟩ := not_or.mp angle
    simp [slash, less, greater, percent]
  · refine ⟨b :: rest.takeWhile isInner, rest.dropWhile isInner, ?_, .run nofun ?_ ?_⟩
    · rw [List.cons_append, List.takeWhile_append_dropWhile]
    · intro c member
      rcases List.mem_cons.mp member with rfl | later
      · simp [blank, delimiter]
      · simpa [isInner_outer] using bytes c later
    · intro c next
      simpa only [isInner_outer, Bool.not_eq_false'] using ends c next

/-- A text starts with blanks and comments, up to its end or to a byte that is neither blank nor the start
of a comment. In a comment, the part of its line that is already passed counts. -/
theorem exists_separates (text : Bytes) :
    (∃ gap after, text = gap ++ after ∧ Separates gap after ∧
      ∀ b ∈ after.head?, Byte.isWhitespace b = false ∧ b ≠ Byte.percent) ∧
    ∀ line, Unbroken line → ∃ gap after, text = gap ++ after ∧
      Separates (Byte.percent :: line ++ gap) after ∧
      ∀ b ∈ after.head?, Byte.isWhitespace b = false ∧ b ≠ Byte.percent := by
  induction text with
  | nil =>
    refine ⟨⟨[], [], rfl, .nil, nofun⟩, fun line unbroken => ⟨[], [], rfl, ?_, nofun⟩⟩
    rw [List.append_nil]
    exact .lastComment unbroken
  | cons b text ih =>
    obtain ⟨⟨gap, after, split, separates, stops⟩, inside⟩ := ih
    constructor
    · by_cases blank : Byte.isWhitespace b = true
      · exact ⟨b :: gap, after, congrArg (b :: ·) split, .blank blank separates, stops⟩
      · by_cases percent : b = Byte.percent
        · obtain ⟨gap, after, split, separates, stops⟩ := inside [] nofun
          exact ⟨b :: gap, after, congrArg (b :: ·) split, percent ▸ separates, stops⟩
        · refine ⟨[], b :: text, rfl, .nil, ?_⟩
          rintro _ ⟨⟩
          exact ⟨Bool.eq_false_iff.mpr blank, percent⟩
    · intro line unbroken
      by_cases ending : Byte.isLineEnding b = true
      · exact ⟨b :: gap, after, congrArg (b :: ·) split, .comment unbroken ending separates, stops⟩
      · have longer : Unbroken (line ++ [b]) := by
          intro c member
          rcases List.mem_append.mp member with before | here
          · exact unbroken c before
          · exact List.mem_singleton.mp here ▸ Bool.eq_false_iff.mpr ending
        obtain ⟨gap, after, split, separates, stops⟩ := inside (line ++ [b]) longer
        rw [← List.cons_append, List.append_assoc] at separates
        exact ⟨b :: gap, after, congrArg (b :: ·) split, separates, stops⟩

theorem exists_cuts (text : Bytes) : ∃ gap word after, Cuts text gap word after := by
  obtain ⟨gap, ahead, split, separates, stops⟩ := (exists_separates text).1
  cases ahead with
  | nil => exact ⟨gap, [], [], by simpa using split, separates, .inr ⟨rfl, rfl⟩⟩
  | cons b ahead =>
    obtain ⟨blank, percent⟩ := stops b rfl
    obtain ⟨word, after, same, lexeme⟩ := exists_lexeme blank percent ahead
    exact ⟨gap, word, after, by rw [split, same, List.append_assoc], same ▸ separates, .inl lexeme⟩

/-- Every text can be split into words. -/
theorem exists_splits (text : Bytes) : ∃ words, Splits text words := by
  induction bytes : text.length using Nat.strongRecOn generalizing text with
  | ind count ih =>
    obtain ⟨gap, word, after, rfl, separates, lexeme | ⟨rfl, rfl⟩⟩ := exists_cuts text
    · have positive := List.length_pos_iff.mpr lexeme.isWord.nonempty
      have shorter : after.length < count := by
        rw [← bytes, List.length_append, List.length_append]
        omega
      obtain ⟨words, rest⟩ := ih after.length shorter after rfl
      exact ⟨word :: words, .word separates lexeme rest⟩
    · rw [List.append_nil, List.append_nil]
      exact ⟨[], .last separates⟩

end Lexis

namespace Scan
open Lexis (Splits)

/-- A round of reading word by word up to the end of the data, with the words so far, last one first. -/
def collectRound (taken : List Word) : Scan (Round (List Word) (List Word)) := do
  let word ← word
  pure (if word.isEmpty then .done taken.reverse else .again (word :: taken))

end Scan

namespace Reader
open Lexis (Cuts Lexeme Separates Splits)

variable {document text gap word after : Bytes} {words : List Bytes} {r : Reader}

/-- The word that is read is the one of the cut, as far as words are kept, and the cursor is behind all of
it. -/
theorem Whole.reads_cut (whole : r.Whole document)
    (cuts : Cuts ((document.drop r.origin).drop r.position) gap word after) :
    (Scan.word.run r).1 = Word.ofLexeme r.limits.wordLength word ∧
      (Scan.word.run r).2.position = r.position + (gap.length + word.length) := by
  obtain ⟨same, place⟩ := whole.resident_run Scan.word
  obtain ⟨first, second⟩ := Scan.word_place (r.mirror document).unrecorded
  change _ = Lexis.word r.limits.wordLength ((document.drop r.origin).drop r.position) at first
  change _ = r.position + Lexis.reach ((document.drop r.origin).drop r.position) at second
  rw [Lexis.word, cuts.whole] at first
  rw [Lexis.reach, cuts.whole, cuts.skipped] at second
  exact ⟨same.symm.trans first, place.symm.trans second⟩

/-- In front of a word, a round takes it, and the reader stands in front of the rest. -/
theorem Whole.collects (whole : r.Whole document)
    (cuts : Cuts ((document.drop r.origin).drop r.position) gap word after) (lexeme : Lexeme word after)
    (taken : List Word) :
    (Scan.collectRound taken).run r =
        (.again (Word.ofLexeme r.limits.wordLength word :: taken), (Scan.word.run r).2) ∧
      (document.drop (Scan.word.run r).2.origin).drop (Scan.word.run r).2.position = after := by
  obtain ⟨same, place⟩ := whole.reads_cut cuts
  have wide : 16 ≤ r.limits.wordLength := Nat.le_max_right _ _
  have some : (Word.ofLexeme r.limits.wordLength word).isEmpty = false := by
    have nonempty := lexeme.isWord.nonempty
    simp [Word.isEmpty, Word.ofLexeme, nonempty]
    omega
  constructor
  · rw [Scan.collectRound, Scan.run_bind, same, some]
    rfl
  · rw [(continues.run Scan.word r).origin, place, ← List.drop_drop, cuts.split, List.append_assoc,
      ← List.drop_drop, List.drop_left, List.drop_left]

/-- At the end of the data, the round is the last one. -/
theorem Whole.collects_end (whole : r.Whole document)
    (cuts : Cuts ((document.drop r.origin).drop r.position) gap [] []) (taken : List Word) :
    (Scan.collectRound taken).run r = (.done taken.reverse, (Scan.word.run r).2) := by
  have none : (Word.ofLexeme r.limits.wordLength []).isEmpty = true := by
    simp [Word.isEmpty, Word.ofLexeme]
  rw [Scan.collectRound, Scan.run_bind, (whole.reads_cut cuts).1, none]
  rfl

/-- Reading goes through the words of a text one by one. -/
theorem Whole.reads_splits (whole : r.Whole document) (splits : Splits text words) (taken : List Word)
    (stands : (document.drop r.origin).drop r.position = text) :
    ∃ s, Scan.Finishes Scan.collectRound taken r
        (taken.reverse ++ words.map (Word.ofLexeme r.limits.wordLength)) s ∧
      s.position = r.position + text.length := by
  induction splits generalizing r taken with
  | @last gap separates =>
    have cuts : Cuts ((document.drop r.origin).drop r.position) gap [] [] :=
      ⟨by simpa using stands, separates, .inr ⟨rfl, rfl⟩⟩
    rw [List.map_nil, List.append_nil]
    exact ⟨_, .done (whole.collects_end cuts taken), (whole.reads_cut cuts).2⟩
  | @word gap word after words separates lexeme rest ih =>
    have cuts : Cuts ((document.drop r.origin).drop r.position) gap word after :=
      ⟨stands, separates, .inl lexeme⟩
    obtain ⟨ran, ahead⟩ := whole.collects cuts lexeme taken
    obtain ⟨s, finishes, stops⟩ := ih (whole.run Scan.word) _ ahead
    have limits := (continues.run Scan.word r).limits
    refine ⟨s, .again ran ?_, ?_⟩
    · rw [limits, List.reverse_cons, List.append_assoc] at finishes
      exact finishes
    · rw [stops, (whole.reads_cut cuts).2, List.length_append, List.length_append, Nat.add_assoc]

/-- Words are read as the grammar has them. Take any reader of a whole document, wherever its cursor is.
The bytes ahead are cut into blanks and comments, a word, if there is one, and the rest; the first bytes of
the word are read, it counts as numeric if all its bytes are, and the cursor is behind all of it. All bytes
ahead are split into words with blanks and comments between them, and just these words are read one by one,
up to the end of the document. -/
theorem Whole.reads_words (whole : r.Whole document) :
    let ahead := (document.drop r.origin).drop r.position
    let limit := max r.options.maxWordLength 16
    (∃ gap word after, Cuts ahead gap word after) ∧
    (∀ gap word after, Cuts ahead gap word after →
      (Scan.word.run r).1 = ⟨word.take limit, word.all Byte.isNumeric⟩ ∧
        (Scan.word.run r).2.position = r.position + (gap.length + word.length)) ∧
    (∃ words, Splits ahead words) ∧
    ∀ words, Splits ahead words → ∃ s, Scan.Finishes Scan.collectRound [] r
        (words.map fun word => ⟨word.take limit, word.all Byte.isNumeric⟩) s ∧
      s.position = r.position + ahead.length :=
  ⟨Lexis.exists_cuts _, fun _ _ _ cuts => whole.reads_cut cuts, Lexis.exists_splits _,
    fun _ splits => whole.reads_splits splits [] rfl⟩

/-- A comment in front of a name, brackets side by side, a run that is longer than words are kept, and a
comment behind it without a line ending. -/
def grammarText : Bytes := Bytes.ofAscii
  ['%', '<', '\r', '/', 'N', '1', '<', '<', '>', '1', '2', '3', '4', '5', '6', '7', '8', '9', '0', '1', '2', '3',
    '4', '5', '6', 'x', '%', 'y']

/-- The words of that text. -/
def grammarWords : List Bytes := [Bytes.ofAscii ['/', 'N', '1'], [Byte.less, Byte.less], [Byte.greater],
  Bytes.ofAscii ['1', '2', '3', '4', '5', '6', '7', '8', '9', '0', '1', '2', '3', '4', '5', '6', 'x']]

/-- A reader of that text, two bytes into its source, with a narrow window and short words. -/
def grammarReader : Reader :=
  ofGate { source := .memory (Bytes.ofAscii ['x', 'y'] ++ grammarText).toArray } 2
    { windowSize := 3, maxWordLength := 4 }

theorem grammarText_splits : Splits grammarText grammarWords := by
  have comment : Separates (Bytes.ofAscii ['%', '<', '\r']) (grammarText.drop 3) :=
    @Separates.comment (Bytes.ofAscii ['<']) [] _ _ (List.forall_mem_singleton.mpr rfl) rfl .nil
  have last : Separates (Bytes.ofAscii ['%', 'y']) [] :=
    @Separates.lastComment (Bytes.ofAscii ['y']) (List.forall_mem_singleton.mpr rfl)
  have rest : Splits (grammarText.drop 6) grammarWords.tail := by
    refine @Splits.word [] [Byte.less, Byte.less] (grammarText.drop 8) _ .nil (.pair (.inl rfl)) ?_
    refine @Splits.word [] [Byte.greater] (grammarText.drop 9) _ .nil (.angle (.inr rfl) (by decide)) ?_
    refine @Splits.word [] (grammarWords.getLast nofun) (Bytes.ofAscii ['%', 'y']) _ .nil ?_ (.last last)
    have solid : (grammarWords.getLast nofun).any
        (fun b => Byte.isWhitespace b || Byte.isDelimiter b) = false := rfl
    exact .run nofun (fun b listed => Bool.eq_false_iff.mpr (List.any_eq_false.mp solid b listed))
      fun _ next => by cases next; rfl
  refine @Splits.word _ (Bytes.ofAscii ['/', 'N', '1']) (grammarText.drop 6) _ comment ?_ rest
  exact @Lexeme.name (Bytes.ofAscii ['N', '1']) _ (List.all_eq_true.mp rfl)
    fun _ next => by cases next; rfl

/-- The four words are read, of the last one its first sixteen bytes, and it does not count as numeric. -/
theorem grammarReader_reads : ∃ s, Scan.Finishes Scan.collectRound [] grammarReader
      [⟨Bytes.ofAscii ['/', 'N', '1'], false⟩, ⟨[Byte.less, Byte.less], false⟩, ⟨[Byte.greater], false⟩,
        ⟨Bytes.ofAscii ['1', '2', '3', '4', '5', '6', '7', '8', '9', '0', '1', '2', '3', '4', '5', '6'],
          false⟩] s ∧
    s.position = 28 := by
  have holds : (Source.memory (Bytes.ofAscii ['x', 'y'] ++ grammarText).toArray).Holds
    (Bytes.ofAscii ['x', 'y'] ++ grammarText) := rfl
  have whole : grammarReader.Whole (Bytes.ofAscii ['x', 'y'] ++ grammarText) := ofGate_whole holds 2 _
  obtain ⟨_, _, _, read⟩ := whole.reads_words
  exact read grammarWords grammarText_splits

end Reader
end PdfObjects
