import PdfObjects.Decimal.Shortest

/-! Binary floating-point numbers of 64 bits, held as their bits. So a number is exactly what was read
or given, also among the bit patterns that are not numbers, and two of them are the same exactly when
their bits are. -/
namespace PdfObjects

/-- A double by its bits. -/
structure Double where
  bits : UInt64
  deriving DecidableEq, Repr, Inhabited

/-- The fields of a double: its sign, its biased exponent and its fraction. -/
structure Double.Fields where
  negative : Bool
  exponent : Nat
  fraction : Nat
  deriving DecidableEq, Repr

namespace Double

def ofFloat (x : Float) : Double := ⟨x.toBits⟩

def toFloat (x : Double) : Float := Float.ofBits x.bits

/-- The double nearest to an integer. -/
def ofInt (n : Int) : Double := ofFloat (Float.ofInt n)

def fields (x : Double) : Fields :=
  let n := x.bits.toNat
  { negative := n >>> 63 = 1, exponent := (n >>> 52) % 2048, fraction := n % (1 <<< 52) }

/-- Equality as numbers: what is not a number equals nothing, and the two zeros are equal. -/
def sameNumber (x y : Double) : Bool := x.toFloat == y.toFloat

/-- The integer part, cut to the range of signed 64-bit numbers; zero if there is no number. It is taken
from the exact value of the double, which the compiled conversion does not show. -/
def truncate (x : Double) : Int := x.toFloat.toModel.toInt64.toInt

/-- The interval of a finite double that is not zero. A zero exponent field stands for the smallest
exponent without the implicit leading bit. -/
def Fields.rounding (f : Fields) : Decimal.Rounding :=
  if f.exponent = 0 then Decimal.Rounding.of f.fraction (-1074) false
  else
    let narrow := f.fraction = 0 && 1 < f.exponent
    Decimal.Rounding.of ((1 <<< 52) + f.fraction) ((f.exponent : Int) - 1075) narrow

/-- The text of a double: the fewest digits that read back, in positional notation. -/
def text (x : Double) : Bytes :=
  let f := x.fields
  let sign : Bytes := if f.negative then [Byte.minus] else []
  if f.exponent = 2047 then
    if f.fraction = 0 then sign ++ Bytes.ofAscii ['i', 'n', 'f'] else Bytes.ofAscii ['N', 'a', 'N']
  else if f.exponent = 0 ∧ f.fraction = 0 then sign ++ [Byte.zero]
  else sign ++ f.rounding.shortest.positional

end Double
end PdfObjects
