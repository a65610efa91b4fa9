import PdfObjects.Bytes

/-! The lexical classes of bytes. Every byte has exactly one class, so words, names and blanks can be
told apart by looking at one byte at a time; line endings are a part of the whitespace class. -/
namespace PdfObjects

/-- The lexical class of a byte. -/
inductive ByteClass where
  | whitespace
  | delimiter
  | numeric
  | regular
  deriving DecidableEq, Repr

namespace Byte

/-- Carriage return and line feed end a line. -/
def isLineEnding (b : UInt8) : Bool := b == carriageReturn || b == lineFeed

/-- NUL, tab, line feed, form feed, carriage return and space separate words. -/
def isWhitespace (b : UInt8) : Bool :=
  b == 0x00 || b == tab || b == lineFeed || b == formFeed || b == carriageReturn || b == space

/-- A delimiter ends the word before it and starts one of its own. -/
def isDelimiter (b : UInt8) : Bool :=
  b == openParen || b == closeParen || b == less || b == greater || b == openBracket ||
    b == closeBracket || b == openBrace || b == closeBrace || b == slash || b == percent

def isDigit (b : UInt8) : Bool := 0x30 ≤ b && b ≤ 0x39

/-- Digits, signs and the decimal point, the bytes of a number. -/
def isNumeric (b : UInt8) : Bool := isDigit b || b == plus || b == minus || b == point

/-- The class of a byte; what has no other class is regular. -/
def byteClass (b : UInt8) : ByteClass :=
  if isWhitespace b then .whitespace
  else if isDelimiter b then .delimiter
  else if isNumeric b then .numeric
  else .regular

/-- Regular bytes, letters among them, make up names and keywords. -/
def isRegular (b : UInt8) : Bool := byteClass b == .regular

def isOctalDigit (b : UInt8) : Bool := 0x30 ≤ b && b ≤ 0x37

/-- The value of a hexadecimal digit of either case. -/
def hexValue? (b : UInt8) : Option UInt8 :=
  if 0x30 ≤ b && b ≤ 0x39 then some (b - 0x30)
  else if 0x61 ≤ b && b ≤ 0x66 then some (b - 0x61 + 10)
  else if 0x41 ≤ b && b ≤ 0x46 then some (b - 0x41 + 10)
  else none

end Byte
end PdfObjects
