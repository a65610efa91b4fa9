import PdfObjects.Bytes

/-! Sources of bytes. A source knows its size and delivers any range that lies within it, whole or not
at all. Bytes can lie in memory or behind a stream with a position of its own, and a window shows a
part of another source. A window may be wider than what it looks at; then the source behind it is the
one that refuses. -/
namespace PdfObjects

/-- A read that goes past the end of a source. -/
structure RangeError where
  length : Nat
  offset : Nat
  size : Nat
  deriving DecidableEq, Repr

def RangeError.message (e : RangeError) : String :=
  s!"read of {e.length} bytes at offset {e.offset} exceeds source size {e.size}"

/-- A provider of bytes. -/
inductive Source where
  | memory (bytes : Array UInt8)
  | stream (bytes : Array UInt8) (position : Nat)
  | window (inner : Source) (offset length : Nat)
  deriving Repr

namespace Source

/-- How many bytes the source claims to have. -/
def size : Source → Nat
  | .memory bytes => bytes.size
  | .stream bytes _ => bytes.size
  | .window _ _ length => length

/-- Reads exactly `length` bytes from `offset` on. A stream is left behind the last byte read; a
failed read leaves every source as it was. -/
def read : Source → (offset length : Nat) → Except RangeError (Array UInt8) × Source
  | .memory bytes, offset, length =>
    if offset + length ≤ bytes.size then (.ok (bytes.extract offset (offset + length)), .memory bytes)
    else (.error ⟨length, offset, bytes.size⟩, .memory bytes)
  | .stream bytes position, offset, length =>
    if offset + length ≤ bytes.size then
      (.ok (bytes.extract offset (offset + length)), .stream bytes (offset + length))
    else (.error ⟨length, offset, bytes.size⟩, .stream bytes position)
  | .window inner start size, offset, length =>
    if offset + length ≤ size then
      let (result, inner) := inner.read (start + offset) length
      (result, .window inner start size)
    else (.error ⟨length, offset, size⟩, .window inner start size)

/-- All bytes behind the source, whether a window shows them or not. -/
def content : Source → Array UInt8
  | .memory bytes => bytes
  | .stream bytes _ => bytes
  | .window inner _ _ => inner.content

end Source
end PdfObjects
