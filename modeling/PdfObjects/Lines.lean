import PdfObjects.Word

/-! The lines of a text, and those that mark the end of a trailer. Apart from how it is read, a text is cut
into lines by terminators; what is behind the last one is no closed line. A marker is a comment, so what
stands in front of the first percent sign of its line does not matter. -/
namespace PdfObjects.Lexis

/-- A text without a line ending. -/
def Unbroken (text : Bytes) : Prop := ∀ b ∈ text, Byte.isLineEnding b = false

/-- What ends a line in front of some text. A carriage return and a line feed are one terminator. -/
inductive Terminates : (ending after : Bytes) → Prop where
  | pair (after : Bytes) : Terminates [Byte.carriageReturn, Byte.lineFeed] after
  | feed (after : Bytes) : Terminates [Byte.lineFeed] after
  | lone {after : Bytes} (alone : after.head? ≠ some Byte.lineFeed) :
    Terminates [Byte.carriageReturn] after

/-- The closed lines of a text, each with the place just behind its terminator. -/
inductive ClosedLine : (text line : Bytes) → (stop : Nat) → Prop where
  | first {line ending after : Bytes} (unbroken : Unbroken line) (ends : Terminates ending after) :
    ClosedLine (line ++ ending ++ after) line (line.length + ending.length)
  | later {line ending after other : Bytes} {stop : Nat} (unbroken : Unbroken line)
    (ends : Terminates ending after) (closed : ClosedLine after other stop) :
    ClosedLine (line ++ ending ++ after) other (line.length + ending.length + stop)

/-- The letters of a marker. -/
def markerLetters : Bytes := Bytes.ofAscii ['E', 'O', 'F']

/-- A line of which the part from the first percent sign on is one or more percent signs and the letters. -/
def IsMarker (line : Bytes) : Prop :=
  ∃ start more, Byte.percent ∉ start ∧
    line = start ++ List.replicate (more + 1) Byte.percent ++ markerLetters

/-- The ends of the marker lines of a text that stands at a position, found byte by byte. The state tells
whether a percent sign has been seen in the line so far, and how far the rest agrees with a marker. -/
def trailerEnds : (state : Option Marker) → (position : Nat) → (text : Bytes) → List Nat
  | _, _, [] => []
  | none, position, b :: rest =>
    trailerEnds (if b = Byte.percent then some .percents else none) (position + 1) rest
  | some marker, position, b :: rest =>
    if Byte.isLineEnding b then
      let stop :=
        if b = Byte.carriageReturn ∧ rest.head? = some Byte.lineFeed then position + 2 else position + 1
      if marker.isComplete then stop :: trailerEnds none (position + 1) rest
      else trailerEnds none (position + 1) rest
    else trailerEnds (some (marker.step b)) (position + 1) rest

end PdfObjects.Lexis
