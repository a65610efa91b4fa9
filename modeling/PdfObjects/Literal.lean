import PdfObjects.Word

/-! Reading strings. Both readers start behind the opening delimiter and go on to the closing one.
Neither can fail: bytes that make no sense are taken for themselves or skipped, and where the data run
out, the string ends. -/
namespace PdfObjects

/-- What the next byte of a literal string is read as. -/
inductive StringMode where
  | plain
  /-- The byte after a backslash. -/
  | escaped
  /-- The byte after the first digit of an octal escape. -/
  | octal (value : UInt8)
  /-- The byte after the second digit of an octal escape. -/
  | lastOctal (value : UInt8)
  /-- The byte after a backslash and a carriage return. -/
  | continued
  deriving DecidableEq, Repr

/-- A literal string in the course of being read. -/
structure PartialString where
  mode : StringMode := .plain
  /-- The parentheses open inside the string, counted in a word: past the largest one counting starts
  over. -/
  depth : UInt32 := 0
  /-- The bytes read so far, last one first. -/
  taken : Bytes := []
  deriving DecidableEq, Repr

namespace PartialString
open Scan (Verdict)

/-- The bytes of the string. An octal escape that the end of the data cuts off is dropped. -/
def bytes (s : PartialString) : Bytes := s.taken.reverse

def push (s : PartialString) (b : UInt8) : PartialString := { s with mode := .plain, taken := b :: s.taken }

def octalDigit (b : UInt8) : UInt8 := b - 0x30

/-- A byte that is not part of an escape. Balanced parentheses belong to the string. -/
def stepPlain (s : PartialString) (b : UInt8) : Verdict PartialString Bytes :=
  if b = Byte.closeParen then
    if s.depth = 0 then .through s.bytes else .more { s.push b with depth := s.depth - 1 }
  else if b = Byte.openParen then .more { s.push b with depth := s.depth + 1 }
  else if b = Byte.backslash then .more { s with mode := .escaped }
  else .more (s.push b)

/-- The byte that names an escape. A line feed is left out, and a byte that names no escape stands for
itself. -/
def stepEscaped (s : PartialString) (b : UInt8) : PartialString :=
  if Byte.isOctalDigit b then { s with mode := .octal (octalDigit b) }
  else if b = Byte.carriageReturn then { s with mode := .continued }
  else if b = Byte.lineFeed then { s with mode := .plain }
  else if b = 'n'.toUInt8 then s.push Byte.lineFeed
  else if b = 'r'.toUInt8 then s.push Byte.carriageReturn
  else if b = 't'.toUInt8 then s.push Byte.tab
  else if b = 'b'.toUInt8 then s.push Byte.backspace
  else if b = 'f'.toUInt8 then s.push Byte.formFeed
  else s.push b

/-- Takes one more byte. What ends an escape early is a plain byte; octal values lose what does not
fit into a byte. -/
def step (s : PartialString) (b : UInt8) : Verdict PartialString Bytes :=
  match s.mode with
  | .plain => s.stepPlain b
  | .escaped => .more (s.stepEscaped b)
  | .octal value =>
    if Byte.isOctalDigit b then .more { s with mode := .lastOctal (value * 8 + octalDigit b) }
    else (s.push value).stepPlain b
  | .lastOctal value =>
    if Byte.isOctalDigit b then .more (s.push (value * 8 + octalDigit b))
    else (s.push value).stepPlain b
  | .continued =>
    let s := { s with mode := .plain }
    if b = Byte.lineFeed then .more s else s.stepPlain b

end PartialString

/-- A hexadecimal string in the course of being read. -/
structure PartialHex where
  /-- The first digit of a pair. -/
  high : Option UInt8 := none
  /-- The bytes read so far, last one first. -/
  taken : Bytes := []
  deriving DecidableEq, Repr

namespace PartialHex
open Scan (Verdict)

/-- The bytes of the string. A digit without a partner counts as followed by zero. -/
def bytes (s : PartialHex) : Bytes :=
  match s.high with
  | some high => (high * 16 :: s.taken).reverse
  | none => s.taken.reverse

/-- Takes one more byte. What is no digit is skipped. -/
def step (s : PartialHex) (b : UInt8) : Verdict PartialHex Bytes :=
  if b = Byte.greater then .through s.bytes
  else
    match Byte.hexValue? b, s.high with
    | none, _ => .more s
    | some value, none => .more { s with high := some value }
    | some value, some high => .more { high := none, taken := (high * 16 + value) :: s.taken }

end PartialHex

namespace Scan

/-- Reads a literal string up to the parenthesis that closes it. -/
def literalString : Scan Bytes := take PartialString.step PartialString.bytes {}

/-- Reads a hexadecimal string up to its closing bracket. -/
def hexString : Scan Bytes := take PartialHex.step PartialHex.bytes {}

end Scan
end PdfObjects
