import PdfObjects.Bytes
import PdfObjects.Flate.Inflate

/-! The zlib wrapping of a deflate stream: two bytes that name the method and check themselves, the
stream, and a checksum of the expanded data. -/
namespace PdfObjects.Flate

/-- The two sums of the Adler checksum, kept below its modulus. -/
structure Adler where
  low : Nat := 1
  high : Nat := 0

def Adler.modulus : Nat := 65521

def Adler.add (a : Adler) (b : UInt8) : Adler :=
  let low := (a.low + b.toNat) % modulus
  { low, high := (a.high + low) % modulus }

/-- The Adler checksum of data. -/
def adler (data : Array UInt8) : Nat :=
  let sums := data.foldl Adler.add {}
  sums.high * 65536 + sums.low

/-- The two header bytes: method eight, a window of at most 32768 bytes, no preset dictionary, and
together a multiple of 31. -/
def header : Decoder Unit := do
  let method ← Decoder.bits 8
  let flags ← Decoder.bits 8
  let wellFormed := (256 * method + flags) % 31 = 0
  if method % 16 = 8 ∧ method / 16 ≤ 7 ∧ flags / 32 % 2 = 0 ∧ wellFormed then pure () else failure

/-- A number of four bytes, high byte first. -/
def checksum : Decoder Nat := do
  Decoder.align
  let a ← Decoder.bits 8
  let b ← Decoder.bits 8
  let c ← Decoder.bits 8
  let d ← Decoder.bits 8
  pure (((a * 256 + b) * 256 + c) * 256 + d)

/-- The expanded data of a zlib stream. Bytes after its end are ignored. -/
def zlib : Decoder (Array UInt8) := do
  header
  let data ← inflate
  let sum ← checksum
  if sum = adler data then pure data else failure

/-- Expands zlib data; `none` if they are damaged or end early. Nothing expands to nothing. -/
def expand? (data : Bytes) : Option Bytes :=
  if data.isEmpty then some []
  else (zlib.run { bytes := data.toArray }).map fun r => r.1.toList

end PdfObjects.Flate
