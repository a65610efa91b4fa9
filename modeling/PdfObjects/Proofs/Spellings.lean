import PdfObjects.Proofs.Lexing
import PdfObjects.Proofs.Literals
import PdfObjects.Proofs.Payloads

/-! What readers of strings make of the text ahead. They start behind the opening delimiter, so the text is
the spelling of a string, the delimiter that closes it, and anything else. -/
namespace PdfObjects.Reader
open Lexis (Escapes Spells Terminates pairs)

variable {document : Bytes} {r : Reader}

/-- Bytes are taken one by one from what is ahead in the document. -/
theorem Whole.takes {σ α : Type} (whole : r.Whole document) (step : σ → UInt8 → Scan.Verdict σ α)
    (finish : σ → α) (state : σ) {ahead : Bytes}
    (stands : (document.drop r.origin).drop r.position = ahead) :
    ((Scan.take step finish state).run r).1 = (Lexis.consume step finish state ahead).1 ∧
      ((Scan.take step finish state).run r).2.position =
        r.position + (Lexis.consume step finish state ahead).2 := by
  have standing : (r.mirror document).unrecorded.HasAhead ahead := ⟨stands, rfl⟩
  obtain ⟨same, place⟩ := whole.resident_run (Scan.take step finish state)
  rw [Scan.take_run step finish state standing] at same place
  exact ⟨same.symm, place.symm⟩

/-- Strings are read however they are spelled. Take any reader of a whole document. If ahead of it stand a
spelling of a literal string, a closing parenthesis and anything else, the string is read, and the cursor
is behind the parenthesis; unless groups nest so deep in the spelling that a word cannot count them, for
then the cursor does not get so far. If ahead of it stand bytes without a closing bracket, the bracket and
anything else, the hexadecimal digits among the bytes are read in pairs, and the cursor is behind the
bracket. -/
theorem Whole.reads_spellings (whole : r.Whole document) :
    (∀ nesting body value rest, Spells nesting body value (Byte.closeParen :: rest) →
      (document.drop r.origin).drop r.position = body ++ Byte.closeParen :: rest →
      (nesting < UInt32.size → (Scan.literalString.run r).1 = value ∧
        (Scan.literalString.run r).2.position = r.position + (body.length + 1)) ∧
      (UInt32.size ≤ nesting → (Scan.literalString.run r).2.position ≤ r.position + body.length)) ∧
    (∀ body rest, Byte.greater ∉ body →
      (document.drop r.origin).drop r.position = body ++ Byte.greater :: rest →
      (Scan.hexString.run r).1 = pairs (body.filterMap Byte.hexValue?) ∧
        (Scan.hexString.run r).2.position = r.position + (body.length + 1)) := by
  constructor
  · intro nesting body value rest spells stands
    have taken := whole.takes PartialString.step PartialString.bytes {} stands
    constructor
    · intro fits
      rw [PartialString.consume_spelling spells rfl rfl fits] at taken
      exact taken
    · intro deep
      have stops := PartialString.consume_tooDeep spells (s := {}) rfl
        (by rwa [UInt32.toNat_zero, Nat.zero_add]) nofun
      exact Nat.le_trans (Nat.le_of_eq taken.2) (Nat.add_le_add_left stops _)
  · intro body rest inside stands
    have taken := whole.takes PartialHex.step PartialHex.bytes {} stands
    rw [PartialHex.consume_pairs inside rest] at taken
    exact taken

/-- An escaped parenthesis and one in octal digits inside a group, a single octal digit, and two lines that
go on, the second behind a lone carriage return. -/
def spelling : Bytes := Bytes.ofAscii
  ['(', '\\', '(', '\\', '5', '1', ')', '\\', '5', 'z', '\\', '\r', '\n', '\\', '\r', 'y']

/-- Digits of both cases, other bytes between them, and a digit without a partner. -/
def digits : Bytes := Bytes.ofAscii ['4', 'a', ')', 'B', ' ', 'x', '7', '\n', 'c']

/-- Both, each behind its opening delimiter and in front of the closing one. -/
def spellingsText : Bytes :=
  Byte.openParen :: spelling ++ Byte.closeParen :: Byte.less :: digits ++ [Byte.greater]

theorem spelling_spells (rest : Bytes) :
    Spells 1 spelling (Bytes.ofAscii ['(', '(', ')', ')', '\x05', 'z', 'y']) (Byte.closeParen :: rest) := by
  have alone : Terminates [Byte.carriageReturn] ('y'.toUInt8 :: Byte.closeParen :: rest) :=
    .lone fun feed => by cases feed
  have lines : Spells 0 (Bytes.ofAscii ['z', '\\', '\r', '\n', '\\', '\r', 'y']) (Bytes.ofAscii ['z', 'y'])
      (Byte.closeParen :: rest) := by
    refine .plain (by decide) (by decide) (by decide) ?_
    refine @Spells.escape 0 (Bytes.ofAscii ['\r', '\n']) [] _ _ _ (.line (.pair _)) ?_
    refine @Spells.escape 0 (Bytes.ofAscii ['\r']) [] _ _ _ (.line alone) ?_
    exact .plain (by decide) (by decide) (by decide) .nil
  have inside (after : Bytes) : Spells 0 (Bytes.ofAscii ['\\', '(', '\\', '5', '1']) (Bytes.ofAscii ['(', ')'])
      (Byte.closeParen :: after) := by
    refine @Spells.escape 0 (Bytes.ofAscii ['(']) (Bytes.ofAscii ['(']) _ _ _ (.other (by decide) rfl rfl) ?_
    refine @Spells.escape 0 (Bytes.ofAscii ['5', '1']) (Bytes.ofAscii [')']) [] [] _ ?_ .nil
    exact .octal nofun (by decide) (List.all_eq_true.mp rfl) fun _ _ next => by cases next; rfl
  refine @Spells.group 0 0 _ _ (Bytes.ofAscii ['\\', '5', 'z', '\\', '\r', '\n', '\\', '\r', 'y']) _ _ (inside _) ?_
  refine @Spells.escape 0 (Bytes.ofAscii ['5']) (Bytes.ofAscii ['\x05']) _ _ _ ?_ lines
  exact .octal nofun (by decide) (List.all_eq_true.mp rfl) fun _ _ next => by cases next; rfl

/-- A reader of that text, two bytes into its source and with a narrow window, behind the first
parenthesis. -/
def spellingsReader : Reader :=
  (ofGate { source := .memory (Bytes.ofAscii ['x', 'y'] ++ spellingsText).toArray } 2 { windowSize := 3 }).seek 1

/-- Parentheses that open, and as many that close. -/
def nestedParens (n : Nat) : Bytes := List.replicate n Byte.openParen ++ List.replicate n Byte.closeParen

/-- They nest as deep as there are parentheses, and spell themselves. -/
theorem nestedParens_spells (n : Nat) (after : Bytes) : Spells n (nestedParens n) (nestedParens n) after := by
  induction n generalizing after with
  | zero => exact .nil
  | succ n ih =>
    have group := Spells.group (ih (Byte.closeParen :: after)) .nil
    have split : nestedParens (n + 1) = Byte.openParen :: nestedParens n ++ [Byte.closeParen] := by
      rw [nestedParens, List.replicate_succ, List.replicate_succ', ← List.append_assoc]
      rfl
    rwa [Nat.max_zero, ← split] at group

/-- A reader of nested parentheses and the one that closes the string. -/
def nestedReader (n : Nat) : Reader :=
  ofGate { source := .memory (nestedParens n ++ [Byte.closeParen]).toArray } 0 {}

/-- Both strings are read, and the cursor is behind each of them. Where more parentheses nest than a word
can count, the cursor is not behind them. -/
theorem spellingsReader_reads :
    (Scan.literalString.run spellingsReader).1 = Bytes.ofAscii ['(', '(', ')', ')', '\x05', 'z', 'y'] ∧
      (Scan.literalString.run spellingsReader).2.position = 18 ∧
      (Scan.hexString.run (spellingsReader.seek 19)).1 = [0x4A, 0xB7, 0xC0] ∧
      (Scan.hexString.run (spellingsReader.seek 19)).2.position = 29 ∧
      (Scan.literalString.run (nestedReader UInt32.size)).2.position ≤
        (nestedParens UInt32.size).length := by
  have holds : (Source.memory (Bytes.ofAscii ['x', 'y'] ++ spellingsText).toArray).Holds
    (Bytes.ofAscii ['x', 'y'] ++ spellingsText) := rfl
  have first : spellingsReader.Whole (Bytes.ofAscii ['x', 'y'] ++ spellingsText) :=
    (ofGate_whole holds 2 _).seek 1
  have second := first.seek 19
  have nested (n : Nat) (deep : UInt32.size ≤ n) :
      (Scan.literalString.run (nestedReader n)).2.position ≤ (nestedParens n).length := by
    have holds : (Source.memory (nestedParens n ++ [Byte.closeParen]).toArray).Holds
      (nestedParens n ++ [Byte.closeParen]) := rfl
    have whole : (nestedReader n).Whole (nestedParens n ++ [Byte.closeParen]) := ofGate_whole holds 0 _
    have stops := (whole.reads_spellings.1 n _ _ [] (nestedParens_spells n _) rfl).2 deep
    exact stops.trans (Nat.le_of_eq (Nat.zero_add _))
  obtain ⟨string, behind⟩ := (first.reads_spellings.1 1 spelling _
    (Byte.less :: digits ++ [Byte.greater]) (spelling_spells _) (by decide)).1 (by decide)
  obtain ⟨bytes, last⟩ := second.reads_spellings.2 digits [] (by decide) (by decide)
  exact ⟨string, behind, bytes.trans (by decide), last, nested UInt32.size (Nat.le_refl _)⟩

end PdfObjects.Reader
