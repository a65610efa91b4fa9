import PdfObjects.Body
import PdfObjects.Proofs.AtHand

/-! Words in a context. Whether a piece of text is read as one word depends on its own bytes and on the
byte behind it; whether a number is taken for the start of a reference, or a dictionary for that of a
stream, on the words behind. A text that is closed to all of this leaves what stands before it alone. -/
namespace PdfObjects

namespace Lexis

/-- A text that does not go on with a word that has ended before it. -/
def Ends (rest : Bytes) : Prop := ∀ b, rest.head? = some b → isInner b = false

/-- The first byte of the next word. -/
def lead (text : Bytes) : Option UInt8 := (text.drop (skipped false text)).head?

/-- A text in front of which an object is complete: no word goes on in it, and no word with which it
starts makes a reference or a stream of what stands before. -/
structure Closed (rest : Bytes) : Prop where
  ends : Ends rest
  notLetter : lead rest ≠ some 'R'.toUInt8
  notStream : lead rest ≠ some 's'.toUInt8
  noReference : ∀ b, lead rest = some b → Byte.isNumeric b = true →
    lead (Lexis.rest rest) ≠ some 'R'.toUInt8

/-- Whether a byte starts neither a number nor a word that changes what stands before it. -/
def isNeutral (b : UInt8) : Bool :=
  !Byte.isNumeric b && b != 'R'.toUInt8 && b != 's'.toUInt8

/-- Whether a byte is a delimiter that starts neither a name nor a comment. -/
def isMark (b : UInt8) : Bool := Byte.isDelimiter b && b != Byte.slash && b != Byte.percent

/-- A piece of text that is read as a word of its own. -/
structure IsWord (word rest : Bytes) : Prop where
  nonempty : word ≠ []
  starts : skipped false (word ++ rest) = 0
  whole : lexeme (word ++ rest) = word

variable {gap word rest : Bytes} {b : UInt8}

/-- Blanks in front of a text are skipped. -/
theorem skipped_gap (blank : gap.all Byte.isWhitespace = true) (text : Bytes) :
    skipped false (gap ++ text) = gap.length + skipped false text := by
  induction gap with
  | nil => simp
  | cons b gap ih =>
    obtain ⟨first, later⟩ := Bool.and_eq_true_iff.mp (List.all_cons ▸ blank)
    simp only [List.cons_append, skipped, first, ↓reduceIte, ih later, List.length_cons]
    omega

theorem lexeme_head (text : Bytes) : (lexeme text).head? = text.head? := by
  cases text with
  | nil => rfl
  | cons b text =>
    simp only [lexeme]
    split
    · rfl
    · split <;> rfl

theorem IsWord.drop (isWord : IsWord word rest) (blank : gap.all Byte.isWhitespace = true) :
    (gap ++ (word ++ rest)).drop (skipped false (gap ++ (word ++ rest))) = word ++ rest := by
  rw [skipped_gap blank, isWord.starts, Nat.add_zero, List.drop_left]

theorem IsWord.isEmpty (isWord : IsWord word rest) (numeric : Bool) :
    Word.isEmpty ⟨word, numeric⟩ = false := by
  simp [Word.isEmpty, isWord.nonempty]

/-- The word read is the piece of text, as far as it is kept. -/
theorem IsWord.word_eq (isWord : IsWord word rest) (blank : gap.all Byte.isWhitespace = true)
    (limit : Nat) : Lexis.word limit (gap ++ (word ++ rest)) = Word.ofLexeme limit word := by
  rw [Lexis.word, isWord.drop blank, isWord.whole]

theorem IsWord.reach_eq (isWord : IsWord word rest) (blank : gap.all Byte.isWhitespace = true) :
    Lexis.reach (gap ++ (word ++ rest)) = gap.length + word.length := by
  rw [Lexis.reach, isWord.drop blank, isWord.whole, skipped_gap blank, isWord.starts, Nat.add_zero]

theorem IsWord.rest_eq (isWord : IsWord word rest) (blank : gap.all Byte.isWhitespace = true) :
    Lexis.rest (gap ++ (word ++ rest)) = rest := by
  rw [Lexis.rest, isWord.reach_eq blank, ← List.drop_drop, List.drop_left, List.drop_left]

theorem IsWord.lead_eq (isWord : IsWord word rest) (blank : gap.all Byte.isWhitespace = true) :
    Lexis.lead (gap ++ (word ++ rest)) = word.head? := by
  rw [Lexis.lead, isWord.drop blank]
  cases same : word with
  | nil => exact absurd same isWord.nonempty
  | cons b word => rfl

theorem takeWhile_inner {run : Bytes} (inner : ∀ b ∈ run, isInner b = true) (ends : Ends rest) :
    (run ++ rest).takeWhile isInner = run := by
  induction run with
  | nil =>
    cases rest with
    | nil => rfl
    | cons b rest => simp [ends b rfl]
  | cons b run ih =>
    have later := ih fun c member => inner c (List.mem_cons_of_mem b member)
    simp [inner b List.mem_cons_self, later]

theorem inner_class (inner : isInner b = true) : Byte.isDelimiter b = false ∧
    Byte.isWhitespace b = false ∧ b ≠ Byte.percent := by
  simp only [isInner, Bool.not_eq_true', Bool.or_eq_false_iff] at inner
  refine ⟨inner.1, inner.2, ?_⟩
  rintro rfl
  cases inner.1

theorem delimiter_class (delimiter : Byte.isDelimiter b = true) : Byte.isWhitespace b = false := by
  simp only [Byte.isDelimiter, Bool.or_eq_true, beq_iff_eq] at delimiter
  rcases delimiter with
    ((((((((rfl | rfl) | rfl) | rfl) | rfl) | rfl) | rfl) | rfl) | rfl) | rfl <;> rfl

theorem skipped_start (blank : Byte.isWhitespace b = false) (comment : b ≠ Byte.percent)
    (text : Bytes) : skipped false (b :: text) = 0 := by simp [skipped, blank, comment]

/-- A run of bytes that neither separate nor delimit words. -/
theorem isWord_run (nonempty : word ≠ []) (inner : word.all isInner = true) (ends : Ends rest) :
    IsWord word rest := by
  cases word with
  | nil => exact absurd rfl nonempty
  | cons b word =>
    have each := List.all_eq_true.mp inner
    obtain ⟨delimiter, blank, comment⟩ := inner_class (each b List.mem_cons_self)
    have later := takeWhile_inner (fun c member => each c (List.mem_cons_of_mem b member)) ends
    refine ⟨nonempty, skipped_start blank comment _, ?_⟩
    simp [lexeme, delimiter, later]

/-- A name. -/
theorem isWord_name {name : Bytes} (inner : ∀ b ∈ name, isInner b = true) (ends : Ends rest) :
    IsWord (Byte.slash :: name) rest := by
  refine ⟨by simp, skipped_start (by decide) (by decide) _, ?_⟩
  simp [lexeme, takeWhile_inner inner ends]

/-- A delimiter that stands alone. Only a slash goes on, and an angle bracket may if it is repeated. -/
theorem isWord_delimiter (mark : isMark b = true)
    (alone : b = Byte.less ∨ b = Byte.greater → rest.head? ≠ some b) : IsWord [b] rest := by
  simp only [isMark, Bool.and_eq_true, bne_iff_ne] at mark
  obtain ⟨⟨delimiter, slash⟩, comment⟩ := mark
  refine ⟨by simp, skipped_start (delimiter_class delimiter) comment _, ?_⟩
  have single : ¬ ((b = Byte.less ∨ b = Byte.greater) ∧ rest.head? = some b) :=
    fun both => alone both.1 both.2
  simp [lexeme, delimiter, slash, single]

/-- A pair of angle brackets. -/
theorem isWord_pair (angle : b = Byte.less ∨ b = Byte.greater) : IsWord [b, b] rest := by
  rcases angle with same | same <;>
  · subst same
    exact ⟨by simp, rfl, rfl⟩

theorem ends_nil : Ends [] := by
  intro b same
  cases same

theorem ends_cons (outer : isInner b = false) (rest : Bytes) : Ends (b :: rest) := by
  rintro _ ⟨⟩
  exact outer

/-- Blanks end a word. -/
theorem ends_gap (some : gap ≠ []) (blank : gap.all Byte.isWhitespace = true) (rest : Bytes) :
    Ends (gap ++ rest) := by
  cases gap with
  | nil => exact absurd rfl some
  | cons b gap =>
    obtain ⟨first, _⟩ := Bool.and_eq_true_iff.mp (List.all_cons ▸ blank)
    exact ends_cons (by simp [isInner, first]) _

theorem space_blank : [Byte.space].all Byte.isWhitespace = true := rfl

theorem ends_space (rest : Bytes) : Ends ([Byte.space] ++ rest) := ends_gap (by simp) space_blank rest

theorem closed_nil : Closed [] :=
  ⟨ends_nil, by decide, by decide, fun b same => by cases same⟩

/-- It is enough to know the first byte of the next word, unless that is a number. -/
theorem closed_of_lead {text : Bytes} (ends : Ends text) (found : lead text = some b)
    (neutral : isNeutral b = true) : Closed text := by
  simp only [isNeutral, Bool.and_eq_true, Bool.not_eq_true', bne_iff_ne] at neutral
  obtain ⟨⟨word, letter⟩, stream⟩ := neutral
  refine ⟨ends, ?_, ?_, ?_⟩
  · intro same
    exact letter (Option.some.inj (found.symm.trans same))
  · intro same
    exact stream (Option.some.inj (found.symm.trans same))
  · intro c same numeric
    obtain rfl : b = c := Option.some.inj (found.symm.trans same)
    rw [word] at numeric
    cases numeric

theorem closed_of_word (isWord : IsWord word rest) (starts : word.head? = some b)
    (neutral : isNeutral b = true) : Closed ([Byte.space] ++ (word ++ rest)) :=
  closed_of_lead (ends_space _) ((isWord.lead_eq space_blank).trans starts) neutral

/-- A word starts with its first byte, however little is kept of it. -/
theorem word_ne {keyword text : Bytes} (starts : keyword.head? = some b) (other : lead text ≠ some b)
    (limit : Nat) : (Lexis.word limit text).bytes ≠ keyword := by
  intro same
  refine other ?_
  rw [← same] at starts
  simp only [Lexis.word, Word.ofLexeme, List.head?_take] at starts
  split at starts
  · cases starts
  · rwa [lexeme_head] at starts

/-- A number starts with a byte of a number. -/
theorem lead_number {text : Bytes} {limit : Nat} (number : (Lexis.word limit text).isNumber = true) :
    ∃ b, lead text = some b ∧ Byte.isNumeric b = true := by
  simp only [Word.isNumber, Word.isEmpty, Lexis.word, Word.ofLexeme, Bool.and_eq_true,
    Bool.not_eq_true', List.all_eq_true] at number
  obtain ⟨numeric, some⟩ := number
  have starts := lexeme_head (text.drop (skipped false text))
  cases read : lexeme (text.drop (skipped false text)) with
  | nil => simp [read] at some
  | cons b word =>
    rw [read, List.head?_cons] at starts
    exact ⟨b, starts.symm, numeric b (read ▸ List.mem_cons_self)⟩

end Lexis

namespace Resident

/-- A reader without a record that stands inside its document, with exactly these bytes ahead. -/
structure Stands (t : Resident) (ahead : Bytes) : Prop extends HasAhead t ahead where
  within : t.position ≤ t.bytes.length

variable {t : Resident} {text ahead : Bytes}

theorem Stands.append (stands : t.Stands (text ++ ahead)) : (t.move text.length).Stands ahead := by
  refine ⟨stands.toHasAhead.append, ?_⟩
  have length := stands.toHasAhead.length
  have within := stands.within
  rw [List.length_append] at length
  change t.position + text.length ≤ t.bytes.length
  omega

theorem Stands.keep (stands : t.Stands ahead) (word : Bytes) : (t.keep word).Stands ahead :=
  ⟨stands.toHasAhead.keep word, stands.within⟩

end Resident

namespace Scan
open Lexis

variable {t : Resident} {gap rest : Bytes}

/-- Reading a piece of text that is a word of its own, and is kept as a whole. -/
theorem word_run_piece {piece : Bytes} (stands : t.Stands (gap ++ (piece ++ rest)))
    (blank : gap.all Byte.isWhitespace = true) (isWord : IsWord piece rest)
    (fits : piece.length ≤ t.limits.wordLength) :
    word.run t = (⟨piece, piece.all Byte.isNumeric⟩,
        (t.move (gap.length + piece.length)).keep piece) ∧
      ((t.move (gap.length + piece.length)).keep piece).Stands rest := by
  have later := stands.append.append.keep piece
  rw [Resident.move_move] at later
  refine ⟨?_, later⟩
  rw [word_run stands.toHasAhead, isWord.word_eq blank, isWord.reach_eq blank, Word.ofLexeme,
    List.take_of_length_le fits]

/-- What does not apply leaves nothing behind but the last word. -/
theorem attempt_none {body : Scan (Option α)} {kept : Bytes} (count : Nat)
    (within : t.position ≤ t.bytes.length)
    (ran : body.run t = (none, (t.move count).keep kept)) :
    (attempt body).run t = (none, t.keep kept) := by
  have back : (seek t.position).run ((t.move count).keep kept) = ((), t.keep kept) := seek_run within
  simp only [attempt, run_bind, position_run, ran, back]
  rfl

/-- No reference is seen where the text is closed. -/
theorem referenceTail_run (stands : t.Stands rest) (closed : Closed rest) :
    ∃ kept, referenceTail.run t = (none, t.keep kept) := by
  have first := word_run stands.toHasAhead
  cases number : (Lexis.word t.limits.wordLength rest).isNumber with
  | false =>
    refine ⟨(Lexis.word t.limits.wordLength rest).bytes,
      attempt_none (Lexis.reach rest) stands.within ?_⟩
    simp only [run_bind, first, number, Bool.not_false, ↓reduceIte]
    rfl
  | true =>
    obtain ⟨b, found, numeric⟩ := lead_number number
    have after : ((t.move (Lexis.reach rest)).keep (Lexis.word t.limits.wordLength rest).bytes).HasAhead
        (Lexis.rest rest) := (stands.toHasAhead.drop (Lexis.reach rest)).keep _
    have second : word.run ((t.move (Lexis.reach rest)).keep
          (Lexis.word t.limits.wordLength rest).bytes) =
        (Lexis.word t.limits.wordLength (Lexis.rest rest),
          (t.move (Lexis.reach rest + Lexis.reach (Lexis.rest rest))).keep
            (Lexis.word t.limits.wordLength (Lexis.rest rest)).bytes) := by
      rw [word_run after]
      simp only [Resident.keep_limits, Resident.move_limits, Resident.keep_move,
        Resident.keep_keep, Resident.move_move]
    have other := @word_ne _ (Bytes.ofAscii ['R']) _ rfl (closed.noReference b found numeric)
      t.limits.wordLength
    refine ⟨(Lexis.word t.limits.wordLength (Lexis.rest rest)).bytes,
      attempt_none (Lexis.reach rest + Lexis.reach (Lexis.rest rest)) stands.within ?_⟩
    simp only [run_bind, first, number, Bool.not_true, Bool.false_eq_true, ↓reduceIte, second,
      if_neg other]
    rfl

/-- A keyword that does not follow is not accepted. -/
theorem accept_run {keyword : Bytes} {b : UInt8} (stands : t.Stands rest)
    (starts : keyword.head? = some b) (other : lead rest ≠ some b) :
    ∃ kept, (accept keyword).run t = (false, t.keep kept) := by
  refine ⟨(Lexis.word t.limits.wordLength rest).bytes, ?_⟩
  have tried : (attempt do
      let word ← word
      pure (if word.bytes = keyword then some () else none)).run t =
        (none, t.keep (Lexis.word t.limits.wordLength rest).bytes) := by
    refine attempt_none (Lexis.reach rest) stands.within ?_
    simp only [run_bind, word_run stands.toHasAhead, if_neg (word_ne starts other _)]
    rfl
  simp only [accept, run_bind, tried]
  rfl

end Scan
end PdfObjects
