import PdfObjects.Bytes

/-! The shortest decimal that reads back as a given binary number. A finite double is a fraction, and
so are the two ends of the interval of reals that round to it. The grids of one, two, three and more
significant digits are tried in turn; on each, only the two neighbours of the value can be the nearest
hit, so the first grid on which one of them falls into the interval gives the fewest digits. Of two
hits the nearer wins, and an exact tie goes up. All arithmetic is on natural numbers. -/
namespace PdfObjects.Decimal

/-- A positive double as `value / unit`, with the ends of the interval that rounds to it. The ends
belong to the interval exactly when `closed` holds. -/
structure Rounding where
  value : Nat
  low : Nat
  high : Nat
  unit : Nat
  closed : Bool

/-- The interval of `mantissa * 2 ^ exponent`. Everything is counted in quarters of the spacing, since
below a power of two the spacing halves (`narrow`) and the lower end comes nearer. -/
def Rounding.of (mantissa : Nat) (exponent : Int) (narrow : Bool) : Rounding :=
  let scale := Nat.pow 2 (exponent - 2).toNat
  { value := 4 * mantissa * scale
    low := (4 * mantissa - if narrow then 1 else 2) * scale
    high := (4 * mantissa + 2) * scale
    unit := Nat.pow 2 (2 - exponent).toNat
    closed := mantissa % 2 = 0 }

/-- Whether the fraction `num / den` lies in the interval. -/
def Rounding.contains (r : Rounding) (num den : Nat) : Bool :=
  let x := num * r.unit
  if r.closed then r.low * den ≤ x && x ≤ r.high * den else r.low * den < x && x < r.high * den

/-- The number `coefficient * 10 ^ exponent`. -/
structure Scaled where
  coefficient : Nat
  exponent : Int
  deriving DecidableEq, Repr

/-- The least `j` up to the bound with `10 ^ j * num ≥ den`, which counts the zeros after the point. -/
def leadingZeros : Nat → Nat → Nat → Nat
  | 0, _, _ => 0
  | bound + 1, num, den => if den ≤ num then 0 else leadingZeros bound (10 * num) den + 1

/-- The number of digits before the point, or minus the number of zeros after it. -/
def Rounding.magnitude (r : Rounding) : Int :=
  if r.unit ≤ r.value then (Nat.toDigits 10 (r.value / r.unit)).length
  else 1 - (leadingZeros 400 r.value r.unit : Int)

/-- The hit on the grid of `10 ^ exponent`, if one of the two neighbours of the value is in the
interval. -/
def Rounding.hit? (r : Rounding) (exponent : Int) : Option Nat :=
  let up := Nat.pow 10 exponent.toNat
  let down := Nat.pow 10 (-exponent).toNat
  let below := r.value * down / (r.unit * up)
  let belowIn := r.contains (below * up) down
  let aboveIn := r.contains ((below + 1) * up) down
  if belowIn && aboveIn then
    if 2 * (r.value * down) < (2 * below + 1) * (r.unit * up) then some below else some (below + 1)
  else if belowIn then some below
  else if aboveIn then some (below + 1)
  else none

/-- Tries the grids with `digits` digits and more, at most `fuel` of them. -/
def Rounding.search (r : Rounding) : (fuel digits : Nat) → Scaled
  | 0, _ => ⟨0, 0⟩
  | fuel + 1, digits =>
    let exponent := r.magnitude - digits
    match r.hit? exponent with
    | some c => if c = Nat.pow 10 digits then ⟨1, exponent + digits⟩ else ⟨c, exponent⟩
    | none => r.search fuel (digits + 1)

/-- The shortest decimal of the interval. Seventeen digits always hold one. -/
def Rounding.shortest (r : Rounding) : Scaled := r.search 17 1

/-- Positional notation: zeros are written out and there is never an exponent. -/
def Scaled.positional (s : Scaled) : Bytes :=
  let digits := Bytes.decimal s.coefficient
  if 0 ≤ s.exponent then digits ++ List.replicate s.exponent.toNat Byte.zero
  else
    let places := (-s.exponent).toNat
    let padded := List.replicate (places + 1 - digits.length) Byte.zero ++ digits
    padded.take (padded.length - places) ++ Byte.point :: padded.drop (padded.length - places)

end PdfObjects.Decimal
