/-! Reading a compressed stream bit by bit. Bits are taken from each byte starting with the lowest, and
numbers of several bits come lowest bit first. Every reader fails at the end of the data, so a
truncated stream is never mistaken for a short one. -/
namespace PdfObjects.Flate

/-- Compressed data and how many of its bits have been read. -/
structure Bits where
  bytes : Array UInt8
  position : Nat := 0

/-- A reader of compressed data, which fails on data that are not well formed. -/
abbrev Decoder := StateT Bits Option

namespace Decoder

/-- The next bit. -/
def bit : Decoder Nat := fun s => do
  let b ← s.bytes[s.position / 8]?
  pure ((b.toNat >>> (s.position % 8)) % 2, { s with position := s.position + 1 })

/-- A number of the given count of bits, lowest bit first. -/
def bits : Nat → Decoder Nat
  | 0 => pure 0
  | n + 1 => do
    let low ← bit
    let high ← bits n
    pure (low + 2 * high)

/-- Skips to the next byte boundary. -/
def align : Decoder Unit := modify fun s => { s with position := (s.position + 7) / 8 * 8 }

/-- A number of two bytes, low byte first. -/
def word : Decoder Nat := bits 16

/-- How many bits are left. -/
def remaining : Decoder Nat := do
  let s ← get
  pure (8 * s.bytes.size - s.position)

end Decoder
end PdfObjects.Flate
