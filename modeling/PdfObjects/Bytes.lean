/-! Byte strings and their spellings. Everything a document holds, and everything printed about it,
is bytes first; digits come from one place so that what is written can be read back. -/
namespace PdfObjects

/-- A finite run of bytes: a word, a name, a string, a payload. -/
abbrev Bytes := List UInt8

namespace Byte

/-- What holds of all bytes can be found out by trying them. -/
instance (priority := low) decidableForall {p : UInt8 → Prop} [DecidablePred p] : Decidable (∀ b, p b) :=
  decidable_of_iff (∀ n : Fin 256, p (UInt8.ofFin n))
    ⟨fun all b => by simpa using all b.toFin, fun all _ => all _⟩

abbrev backspace : UInt8 := 0x08
abbrev tab : UInt8 := 0x09
abbrev lineFeed : UInt8 := 0x0A
abbrev formFeed : UInt8 := 0x0C
abbrev carriageReturn : UInt8 := 0x0D
abbrev space : UInt8 := 0x20
abbrev hash : UInt8 := 0x23
abbrev percent : UInt8 := 0x25
abbrev openParen : UInt8 := 0x28
abbrev closeParen : UInt8 := 0x29
abbrev plus : UInt8 := 0x2B
abbrev minus : UInt8 := 0x2D
abbrev point : UInt8 := 0x2E
abbrev slash : UInt8 := 0x2F
abbrev zero : UInt8 := 0x30
abbrev less : UInt8 := 0x3C
abbrev greater : UInt8 := 0x3E
abbrev openBracket : UInt8 := 0x5B
abbrev backslash : UInt8 := 0x5C
abbrev closeBracket : UInt8 := 0x5D
abbrev openBrace : UInt8 := 0x7B
abbrev closeBrace : UInt8 := 0x7D

end Byte

namespace Bytes

/-- The bytes of ASCII characters. -/
def ofAscii (text : List Char) : Bytes := text.map Char.toUInt8

/-- Text with one character for each byte. On ASCII bytes this is the text they spell. -/
def toText (bytes : Bytes) : String := String.ofList (bytes.map fun b => Char.ofNat b.toNat)

/-- A number in decimal digits, without leading zeros. -/
def decimal (n : Nat) : Bytes := (Nat.toDigits 10 n).map Char.toUInt8

/-- An integer in decimal, with a sign only in front of a negative one. -/
def signedDecimal : Int → Bytes
  | .ofNat n => decimal n
  | .negSucc n => Byte.minus :: decimal (n + 1)

/-- The digit of a value below sixteen, letters in upper case. -/
def hexDigit (n : UInt8) : UInt8 := if n < 10 then 0x30 + n else 0x37 + n

/-- A byte as two hexadecimal digits. -/
def hexPair (b : UInt8) : Bytes := [hexDigit (b / 16), hexDigit (b % 16)]

/-- A byte as three octal digits. -/
def octalTriple (b : UInt8) : Bytes := [0x30 + b / 64, 0x30 + b / 8 % 8, 0x30 + b % 8]

end Bytes
end PdfObjects
