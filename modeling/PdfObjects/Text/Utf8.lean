import PdfObjects.Bytes

/-! Reading bytes as UTF-8. A character is a lead byte and the continuation bytes it announces; the
first continuation of some leads lies in a narrower range, which keeps out overlong forms, surrogates
and values past U+10FFFF. Malformed input is cut into maximal subparts, each of which stands for one
replacement character. -/
namespace PdfObjects.Utf8

/-- A character that has begun: the value read so far and the range of each byte still to come. -/
structure Pending where
  value : Nat
  expected : UInt8 × UInt8
  later : Nat
  deriving Repr

/-- A complete character, or `none` for a malformed subpart. -/
abbrev Piece := Option Char

/-- The range of an ordinary continuation byte. -/
def continuation : UInt8 × UInt8 := (0x80, 0xBF)

/-- What a byte at the start of a character yields. -/
def start (b : UInt8) : List Piece × Option Pending :=
  let n := b.toNat
  if b < 0x80 then ([some (Char.ofNat n)], none)
  else if b < 0xC2 then ([none], none)
  else if b < 0xE0 then ([], some ⟨n - 0xC0, continuation, 0⟩)
  else if b = 0xE0 then ([], some ⟨0, (0xA0, 0xBF), 1⟩)
  else if b = 0xED then ([], some ⟨0xD, (0x80, 0x9F), 1⟩)
  else if b < 0xF0 then ([], some ⟨n - 0xE0, continuation, 1⟩)
  else if b = 0xF0 then ([], some ⟨0, (0x90, 0xBF), 2⟩)
  else if b < 0xF4 then ([], some ⟨n - 0xF0, continuation, 2⟩)
  else if b = 0xF4 then ([], some ⟨4, (0x80, 0x8F), 2⟩)
  else ([none], none)

/-- Takes one more byte. A byte that does not continue the character begins the next one, and what
was read of the broken character is one malformed subpart. -/
def step : Option Pending → UInt8 → List Piece × Option Pending
  | none, b => start b
  | some p, b =>
    if p.expected.1 ≤ b ∧ b ≤ p.expected.2 then
      let value := p.value * 64 + (b.toNat - 0x80)
      match p.later with
      | 0 => ([some (Char.ofNat value)], none)
      | n + 1 => ([], some ⟨value, continuation, n⟩)
    else
      let (pieces, next) := start b
      (none :: pieces, next)

/-- The characters and malformed subparts of the bytes that follow a pending character. -/
def piecesFrom : Option Pending → Bytes → List Piece
  | none, [] => []
  | some _, [] => [none]
  | p, b :: rest => (step p b).1 ++ piecesFrom (step p b).2 rest

/-- The characters and malformed subparts of a byte string. -/
def pieces (bytes : Bytes) : List Piece := piecesFrom none bytes

/-- The text, with U+FFFD for each malformed subpart. -/
def decodeLossy (bytes : Bytes) : String :=
  String.ofList ((pieces bytes).map fun p => p.getD '\uFFFD')

/-- The text, if no part is malformed. -/
def decode? (bytes : Bytes) : Option String := ((pieces bytes).mapM id).map String.ofList

end PdfObjects.Utf8
