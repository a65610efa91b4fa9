import PdfObjects.ByteClass
import PdfObjects.Numeral
import PdfObjects.Scan

/-! Cutting a document into words. Blanks and comments separate words; a word is a delimiter, a pair of
angle brackets, a name, or a run of other bytes up to the next blank or delimiter. Reading a word never
fails: where the data run out, the word ends. Comments are watched for trailer markers in passing. -/
namespace PdfObjects

/-- A word as it stands in the document. -/
structure Word where
  /-- The bytes of the word, as far as words are kept. -/
  bytes : Bytes
  /-- All bytes of the word, those not kept included, are digits, signs or points. -/
  numeric : Bool
  deriving DecidableEq, Repr

namespace Word

/-- A word from all its bytes. What passes the limit is dropped, but still decides what the word is. -/
def ofLexeme (limit : Nat) (lexeme : Bytes) : Word := ⟨lexeme.take limit, lexeme.all Byte.isNumeric⟩

def isEmpty (w : Word) : Bool := w.bytes.isEmpty

/-- Whether the word is a number. At the end of the data there is none. -/
def isNumber (w : Word) : Bool := w.numeric && !w.isEmpty

end Word

/-- How far a comment agrees with a trailer marker, which is one or more percent signs and the letters
of the marker, with nothing else up to the end of the line. -/
inductive Marker where
  | percents
  | letters (missing : Bytes)
  | other
  deriving DecidableEq, Repr

namespace Marker

/-- The letters after the first one. -/
def laterLetters : Bytes := Bytes.ofAscii ['O', 'F']

def step : Marker → UInt8 → Marker
  | .percents, b =>
    if b = 'E'.toUInt8 then .letters laterLetters else if b = Byte.percent then .percents else .other
  | .letters (c :: missing), b => if b = c then .letters missing else .other
  | .letters [], _ => .other
  | .other, _ => .other

def isComplete : Marker → Bool
  | .letters [] => true
  | _ => false

end Marker

namespace Scan

/-- Skips blanks and comments. The state tells whether the cursor is in a comment, and how far that
agrees with a trailer marker. -/
def skipFrom : Nat → Option Marker → Scan Unit
  | 0, _ => pure ()
  | fuel + 1, state => do
    match ← next with
    | none => pure ()
    | some b =>
      match state with
      | none =>
        if Byte.isWhitespace b then skipFrom fuel none
        else if b = Byte.percent then skipFrom fuel (some .percents)
        else unread
      | some marker =>
        if Byte.isLineEnding b then
          if marker.isComplete then noteTrailer b
          skipFrom fuel none
        else skipFrom fuel (some (marker.step b))

/-- Moves to the next byte that is neither blank nor part of a comment. -/
def skipBlanks : Scan Unit := do skipFrom (← remaining) none

/-- Goes on to the next delimiter or blank; `taken` holds the bytes so far, last one first. -/
def restOfRun (taken : Bytes) : Scan Bytes :=
  take (fun taken b =>
      if Byte.isDelimiter b || Byte.isWhitespace b then .before taken.reverse else .more (b :: taken))
    List.reverse taken

/-- All bytes of the word at the cursor, which is on none of the bytes skipped between words. The
slash of a name is its first byte, and other delimiters stand alone, except that two equal angle
brackets make one word. -/
def lexeme : Scan Bytes := do
  match ← next with
  | none => pure []
  | some b =>
    if b = Byte.slash || !Byte.isDelimiter b then restOfRun [b]
    else if b = Byte.less || b = Byte.greater then
      match ← next with
      | none => pure [b]
      | some c =>
        if c = b then pure [b, c]
        else
          unread
          pure [b]
    else pure [b]

/-- Reads the next word, whatever happens to the reads it needs, and keeps it as the last word. At the
end of the data the word is empty. -/
def rawWord : Scan Word := do
  skipBlanks
  let word := Word.ofLexeme (← settings).wordLength (← lexeme)
  keepWord word.bytes
  pure word

/-- Reads the next word. A word that could not be read to its end counts as empty. -/
def word : Scan Word := do
  let (word, problems) ← session rawWord
  pure (if problems then { word with bytes := [] } else word)

/-- The next word, with the cursor left where it is. -/
def peekWord : Scan Word := lookahead word

/-- The next word taken as an unsigned number; zero if it is none. -/
def directNumber : Scan Nat := do
  let word ← rawWord
  pure (if word.numeric then Numeral.saturating word.bytes else 0)

/-- Moves behind the next line ending; a carriage return and a line feed are one line ending. -/
def nextLine : Scan Unit :=
  take (fun afterReturn b =>
      if afterReturn then if b = Byte.lineFeed then .through () else .before ()
      else if b = Byte.lineFeed then .through ()
      else .more (b == Byte.carriageReturn))
    (fun _ => ()) false

end Scan
end PdfObjects
