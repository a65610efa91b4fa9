import PdfObjects.ByteClass
import PdfObjects.Double

/-! Reading numbers from words. A numeric word is read as far as it makes sense and the rest is
ignored, so every word has a value. Digits are read one at a time against a limit, and reading stops
at the digit that passes it; no intermediate value is ever larger than ten times the limit. -/
namespace PdfObjects.Numeral

/-- The largest unsigned 32-bit number. -/
def maxUnsigned : Nat := 4294967295

/-- The largest positive signed 32-bit number. -/
def maxSigned : Nat := 2147483647

/-- The number that a digit byte writes. -/
def digitValue (b : UInt8) : Nat := b.toNat - 0x30

/-- The number written by a run of digits, without any limit. -/
def value (digits : Bytes) : Nat := digits.foldl (fun n b => 10 * n + digitValue b) 0

/-- Reads the leading digits of a word onto `acc` and gives up once the number passes `limit`. -/
def boundedFrom (limit : Nat) : Nat → Bytes → Option Nat
  | acc, [] => some acc
  | acc, b :: rest =>
    if Byte.isDigit b then
      let next := 10 * acc + digitValue b
      if next ≤ limit then boundedFrom limit next rest else none
    else some acc

/-- The number written by the leading digits of a word, if it is at most `limit`. -/
def bounded (limit : Nat) (word : Bytes) : Option Nat := boundedFrom limit 0 word

/-- A word without its sign, if it starts with one. -/
def unsigned (word : Bytes) : Bytes :=
  match word with
  | b :: rest => if b = Byte.plus ∨ b = Byte.minus then rest else word
  | [] => []

/-- The unsigned reading: the sign is dropped, and what is too large becomes the largest number. -/
def saturating (word : Bytes) : Nat := (bounded maxUnsigned (unsigned word)).getD maxUnsigned

/-- The signed reading: a sign halves the range, and what is out of range becomes zero. -/
def integer (word : Bytes) : Int :=
  match word with
  | b :: rest =>
    if b = Byte.plus then ((bounded maxSigned rest).getD 0 : Nat)
    else if b = Byte.minus then -((bounded (maxSigned + 1) rest).getD 0 : Nat)
    else ((bounded maxUnsigned word).getD 0 : Nat)
  | [] => 0

/-- The reading of a word with a decimal point: an optional sign, digits, a point and more digits,
as far as they go. The nearest double is taken; no digits at all give positive zero. -/
def real (word : Bytes) : Double :=
  let whole := (unsigned word).takeWhile Byte.isDigit
  let fraction :=
    match (unsigned word).drop whole.length with
    | b :: rest => if b = Byte.point then rest.takeWhile Byte.isDigit else []
    | [] => []
  Double.ofFloat <|
    if whole.isEmpty && fraction.isEmpty then 0
    else
      let magnitude := Float.ofScientific (value (whole ++ fraction)) true fraction.length
      if word.head? = some Byte.minus then -magnitude else magnitude

end PdfObjects.Numeral
