import PdfObjects.Object.Printer
import PdfObjects.Proofs.Context
import PdfObjects.Proofs.Literals
import PdfObjects.Proofs.Numbers

/-! Objects without parts, read back from their written form. What is read depends on the first word;
a number is read as itself where the text behind it is closed. -/
namespace PdfObjects

open Lexis (IsWord Ends Closed)

namespace Parse

/-- A program that reads a value and goes on by so many bytes, with whatever word was the last. -/
def Reads (program : Parse α) (t : Resident) (length : Nat) (value : α) : Prop :=
  ∃ kept, program.run.run t = (.ok value, (t.move length).keep kept)

variable {resolve : Resolver} {levels : Nat} {mode : Mode} {t : Resident} {gap piece rest : Bytes}

/-- What is made of the first word of an object. -/
theorem body_run_piece (stands : t.Stands (gap ++ (piece ++ rest)))
    (blank : gap.all Byte.isWhitespace = true) (isWord : IsWord piece rest)
    (fits : piece.length ≤ t.limits.wordLength) :
    (body resolve (levels + 1) mode).run.run t =
      (if piece.all Byte.isNumeric then numberOrReference piece
        else
          match Lead.ofWord piece with
          | .whole object => pure object
          | .literalString => do pure (.string (← Scan.literalString) false)
          | .hexString => do pure (.string (← Scan.hexString) true)
          | .array => rewinding t.position (array (body resolve levels .loose) mode)
          | .dictionary =>
            rewinding t.position (dictionary (body resolve levels .loose) resolve mode)
          | .dictionaryEnd => do
            Scan.seek t.position
            throw (.unexpectedWord t.position piece)
          | .nothing => throw (.unexpectedWord t.position piece)).run.run
        ((t.move (gap.length + piece.length)).keep piece) := by
  have read := (Scan.word_run_piece stands blank isWord fits).1
  have some := ne_true_of_eq_false (isWord.isEmpty (piece.all Byte.isNumeric))
  simp only [body, announced, run_bind_lift, Scan.position_run, read]
  exact congrArg (fun program : Parse Object => program.run.run _) (if_neg some)

/-- A word that is a whole object. -/
theorem body_run_whole {object : Object} (stands : t.Stands (gap ++ (piece ++ rest)))
    (blank : gap.all Byte.isWhitespace = true) (isWord : IsWord piece rest)
    (fits : piece.length ≤ t.limits.wordLength) (word : piece.all Byte.isNumeric = false)
    (lead : Lead.ofWord piece = .whole object) :
    Reads (body resolve (levels + 1) mode) t (gap.length + piece.length) object := by
  refine ⟨piece, ?_⟩
  rw [body_run_piece stands blank isWord fits, word, lead]
  rfl

/-- A number in front of a closed text. -/
theorem body_run_number (stands : t.Stands (gap ++ (piece ++ rest)))
    (blank : gap.all Byte.isWhitespace = true) (isWord : IsWord piece rest) (closed : Closed rest)
    (fits : piece.length ≤ t.limits.wordLength) (number : piece.all Byte.isNumeric = true) :
    Reads (body resolve (levels + 1) mode) t (gap.length + piece.length) (.ofNumeral piece) := by
  have later := (Scan.word_run_piece stands blank isWord fits).2
  obtain ⟨last, tail⟩ := Scan.referenceTail_run later closed
  refine ⟨last, ?_⟩
  rw [body_run_piece stands blank isWord fits, number]
  simp only [↓reduceIte, numberOrReference, run_bind_lift, Scan.position_run, tail]
  rfl

end Parse

namespace Object

variable {resolve : Resolver} {levels : Nat} {mode : Mode} {t : Resident} {gap rest : Bytes}
open Parse (Reads body)

theorem null_word (ends : Ends rest) : IsWord (render .null) rest :=
  Lexis.isWord_run (by decide) rfl ends

theorem boolean_word (value : Bool) (ends : Ends rest) : IsWord (render (.boolean value)) rest := by
  cases value with
  | true => exact Lexis.isWord_run (by decide) rfl ends
  | false => exact Lexis.isWord_run (by decide) rfl ends

theorem decimal_word (n : Nat) (ends : Ends rest) : IsWord (Bytes.decimal n) rest :=
  Lexis.isWord_run (Bytes.decimal_ne_nil n) (List.all_eq_true.mpr fun b member =>
    (Bytes.digit_inner b (Bytes.decimal_digits n b member)).1) ends

theorem signedDecimal_word (n : Int) (ends : Ends rest) : IsWord (Bytes.signedDecimal n) rest := by
  refine Lexis.isWord_run ?_ (List.all_eq_true.mpr fun b member =>
    (Bytes.signedDecimal_bytes n b member).1) ends
  cases n with
  | ofNat n => exact Bytes.decimal_ne_nil n
  | negSucc n => simp [Bytes.signedDecimal]

theorem signedDecimal_numeric (n : Int) : (Bytes.signedDecimal n).all Byte.isNumeric = true :=
  List.all_eq_true.mpr fun b member => (Bytes.signedDecimal_bytes n b member).2.1

theorem name_word (name : Bytes) (ends : Ends rest) : IsWord (Name.render name) rest :=
  Lexis.isWord_name (Name.encode_inner name) ends

/-- Any mark but an angle bracket. -/
theorem mark_word {mark : UInt8} (single : Lexis.isMark mark = true)
    (other : mark ≠ Byte.less ∧ mark ≠ Byte.greater) (rest : Bytes) : IsWord [mark] rest :=
  Lexis.isWord_delimiter single fun angle => (angle.elim other.1 other.2).elim

theorem parenthesis_word (rest : Bytes) : IsWord [Byte.openParen] rest :=
  mark_word rfl (by decide) rest

theorem bracket_word (rest : Bytes) : IsWord [Byte.openBracket] rest :=
  mark_word rfl (by decide) rest

theorem closeBracket_word (rest : Bytes) : IsWord [Byte.closeBracket] rest :=
  mark_word rfl (by decide) rest

/-- The bracket of a hexadecimal string is not that of a dictionary. -/
theorem angle_word (string rest : Bytes) :
    IsWord [Byte.less] (string.flatMap Bytes.hexPair ++ Byte.greater :: rest) := by
  refine Lexis.isWord_delimiter rfl fun _ => ?_
  cases string with
  | nil => exact fun same => absurd (Option.some.inj same) (by decide)
  | cons b string => simpa [Bytes.hexPair] using (@Name.hexPair_ne Byte.less rfl b).1

/-- A keyword. -/
theorem reads_keyword {o : Object} (stands : t.Stands (gap ++ (o.render ++ rest)))
    (blank : gap.all Byte.isWhitespace = true) (isWord : IsWord o.render rest)
    (fits : o.render.length ≤ t.limits.wordLength) (word : o.render.all Byte.isNumeric = false)
    (lead : Lead.ofWord o.render = .whole o) :
    Reads (body resolve (levels + 1) mode) t (gap.length + o.render.length) o :=
  Parse.body_run_whole stands blank isWord fits word lead

theorem reads_name {name : Bytes} (stands : t.Stands (gap ++ (render (.name name) ++ rest)))
    (blank : gap.all Byte.isWhitespace = true) (ends : Ends rest)
    (fits : Name.Fits t.limits.wordLength name) :
    Reads (body resolve (levels + 1) mode) t (gap.length + (render (.name name)).length)
      (.name name) := by
  obtain ⟨clean, length⟩ := fits
  refine Parse.body_run_whole stands blank (name_word name ends) length ?_ ?_
  · exact List.all_eq_false.mpr ⟨Byte.slash, by simp [render_name, Name.render], by decide⟩
  · simp [render_name, Name.render, Lead.ofWord, Name.decode_encode clean]

theorem reads_integer {n : Int} (stands : t.Stands (gap ++ (render (.integer n) ++ rest)))
    (blank : gap.all Byte.isWhitespace = true) (closed : Closed rest)
    (wide : 16 ≤ t.limits.wordLength) (fits : Numeral.Fits n) :
    Reads (body resolve (levels + 1) mode) t (gap.length + (render (.integer n)).length)
      (.integer n) := by
  have length := Bytes.signedDecimal_length fits
  have read := @Parse.body_run_number resolve levels mode t gap (Bytes.signedDecimal n) rest stands
    blank (signedDecimal_word n closed.ends) closed (by omega)
    (signedDecimal_numeric n)
  rwa [ofNumeral_signedDecimal fits] at read

theorem literalString_text (string rest : Bytes) : render (.string string false) ++ rest =
    [Byte.openParen] ++ (string.flatMap renderStringByte ++ Byte.closeParen :: rest) := by
  simp [render_string, renderString]

theorem hexString_text (string rest : Bytes) : render (.string string true) ++ rest =
    [Byte.less] ++ (string.flatMap Bytes.hexPair ++ Byte.greater :: rest) := by
  simp [render_string, renderString]

theorem literalString_run {string : Bytes}
    (stands : t.Stands (string.flatMap renderStringByte ++ Byte.closeParen :: rest)) :
    Scan.literalString.run t = (string, t.move ((string.flatMap renderStringByte).length + 1)) := by
  rw [Scan.literalString, Scan.take_run _ _ _ stands.toHasAhead,
    PartialString.consume_renderString string rest rfl rfl]
  rfl

theorem hexString_run {string : Bytes}
    (stands : t.Stands (string.flatMap Bytes.hexPair ++ Byte.greater :: rest)) :
    Scan.hexString.run t = (string, t.move ((string.flatMap Bytes.hexPair).length + 1)) := by
  rw [Scan.hexString, Scan.take_run _ _ _ stands.toHasAhead,
    PartialHex.consume_renderHex string rest rfl]
  rfl

theorem reads_literalString {string : Bytes}
    (stands : t.Stands (gap ++ (render (.string string false) ++ rest)))
    (blank : gap.all Byte.isWhitespace = true) (wide : 16 ≤ t.limits.wordLength) :
    Reads (body resolve (levels + 1) mode) t (gap.length + (render (.string string false)).length)
      (.string string false) := by
  have fits : [Byte.openParen].length ≤ t.limits.wordLength := Nat.le_trans (by decide) wide
  have isWord := parenthesis_word (string.flatMap renderStringByte ++ Byte.closeParen :: rest)
  rw [literalString_text] at stands
  have later := (Scan.word_run_piece stands blank isWord fits).2
  refine ⟨[Byte.openParen], ?_⟩
  rw [Parse.body_run_piece stands blank isWord fits]
  change (liftM Scan.literalString >>= fun string => pure (.string string false) :
    Parse Object).run.run _ = _
  rw [Parse.run_bind_lift, literalString_run later]
  simp [render_string, renderString, Nat.add_assoc, Nat.add_comm 1]

theorem reads_hexString {string : Bytes}
    (stands : t.Stands (gap ++ (render (.string string true) ++ rest)))
    (blank : gap.all Byte.isWhitespace = true) (wide : 16 ≤ t.limits.wordLength) :
    Reads (body resolve (levels + 1) mode) t (gap.length + (render (.string string true)).length)
      (.string string true) := by
  have fits : [Byte.less].length ≤ t.limits.wordLength := Nat.le_trans (by decide) wide
  have isWord := angle_word string rest
  rw [hexString_text] at stands
  have later := (Scan.word_run_piece stands blank isWord fits).2
  refine ⟨[Byte.less], ?_⟩
  rw [Parse.body_run_piece stands blank isWord fits]
  change (liftM Scan.hexString >>= fun string => pure (.string string true) :
    Parse Object).run.run _ = _
  rw [Parse.run_bind_lift, hexString_run later]
  simp [render_string, renderString, Nat.add_assoc, Nat.add_comm 1]

theorem decimal_numeric (n : Nat) : (Bytes.decimal n).all Byte.isNumeric = true :=
  List.all_eq_true.mpr fun b member => (Bytes.digit_inner b (Bytes.decimal_digits n b member)).2.1

/-- A written number within the limit is kept as a whole, and is taken for a number. -/
theorem decimal_fits {n limit : Nat} (fits : n ≤ Numeral.maxUnsigned) (wide : 16 ≤ limit) :
    (Bytes.decimal n).length ≤ limit :=
  Nat.le_trans (Bytes.decimal_length fits) (Nat.le_trans (by omega) wide)

theorem decimal_isNumber (n : Nat) : Word.isNumber ⟨Bytes.decimal n, true⟩ = true := by
  simp [Word.isNumber, Word.isEmpty, Bytes.decimal_ne_nil]

theorem reference_text (number generation : Nat) (rest : Bytes) :
    render (.reference number generation) ++ rest = Bytes.decimal number ++ ([Byte.space] ++
      (Bytes.decimal generation ++ ([Byte.space] ++ (['R'.toUInt8] ++ rest)))) := by
  simp [render_reference, renderReference, Bytes.ofAscii]
  rfl

/-- The letter of a reference. -/
theorem letter_word (ends : Ends rest) : IsWord ['R'.toUInt8] rest :=
  Lexis.isWord_run (by decide) rfl ends

/-- The rest of a reference that was written. -/
theorem referenceTail_found {generation : Nat}
    (stands : t.Stands ([Byte.space] ++ (Bytes.decimal generation ++
      ([Byte.space] ++ (['R'.toUInt8] ++ rest)))))
    (ends : Ends rest) (wide : 16 ≤ t.limits.wordLength) (fits : generation ≤ Numeral.maxUnsigned) :
    Scan.referenceTail.run t = (some generation,
      (t.move ((Bytes.decimal generation).length + 3)).keep ['R'.toUInt8]) := by
  obtain ⟨first, after⟩ := Scan.word_run_piece stands Lexis.space_blank
    (decimal_word generation (Lexis.ends_space _)) (decimal_fits fits wide)
  obtain ⟨second, _⟩ := Scan.word_run_piece after Lexis.space_blank (letter_word ends)
    (Nat.le_trans (by decide) wide)
  rw [decimal_numeric] at first
  simp only [Resident.keep_move, Resident.move_move, Resident.keep_keep] at second
  have letter : ['R'.toUInt8] = Bytes.ofAscii ['R'] := rfl
  have total : [Byte.space].length + (Bytes.decimal generation).length +
      ([Byte.space].length + ['R'.toUInt8].length) = (Bytes.decimal generation).length + 3 := by
    simp only [List.length_singleton]
    omega
  simp only [Scan.referenceTail, Scan.attempt, Scan.run_bind, Scan.position_run, first,
    decimal_isNumber, Bool.not_true, Bool.false_eq_true, ↓reduceIte, second, if_pos letter,
    Numeral.saturating_decimal fits, total]
  rfl

theorem reads_reference {number generation : Nat}
    (stands : t.Stands (gap ++ (render (.reference number generation) ++ rest)))
    (blank : gap.all Byte.isWhitespace = true) (ends : Ends rest) (wide : 16 ≤ t.limits.wordLength)
    (present : 0 < number) (below : number < Numeral.maxUnsigned) (small : generation ≤ 0xFFFF) :
    Reads (body resolve (levels + 1) mode) t
      (gap.length + (render (.reference number generation)).length)
      (.reference number generation) := by
  have fits := decimal_fits (Nat.le_of_lt below) wide
  rw [reference_text] at stands
  have isWord := decimal_word number (Lexis.ends_space
    (Bytes.decimal generation ++ ([Byte.space] ++ (['R'.toUInt8] ++ rest))))
  have later := (Scan.word_run_piece stands blank isWord fits).2
  have tail := referenceTail_found later ends wide
    (by simp only [Numeral.maxUnsigned]; omega)
  have valid : ¬ (number = 0 ∨ number = Numeral.maxUnsigned) := by omega
  have capped : min generation Parse.maxGeneration = generation := by
    simp only [Parse.maxGeneration]
    omega
  refine ⟨['R'.toUInt8], ?_⟩
  rw [Parse.body_run_piece stands blank isWord fits, decimal_numeric]
  simp only [↓reduceIte, Parse.numberOrReference, Parse.run_bind_lift, Scan.position_run, tail,
    Numeral.saturating_decimal (Nat.le_of_lt below), if_neg valid, capped]
  simp [render_reference, renderReference, Bytes.ofAscii, Nat.add_assoc]

end Object
end PdfObjects
