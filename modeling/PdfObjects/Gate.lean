import PdfObjects.Source

/-! Guarded reading of a document that may still be arriving. A gate stands between a reader and its
source. A read of bytes that are not there yet fails softly: it raises a flag and asks for the missing
blocks, and whoever needs to know looks at the flags once per session instead of after every read. -/
namespace PdfObjects

/-- A range of bytes. -/
structure Extent where
  offset : Nat
  length : Nat
  deriving DecidableEq, Repr

/-- Answers whether all bytes of a range, given by offset and length, have arrived. -/
abbrev Availability := Nat → Nat → Bool

namespace Availability

/-- A range is available when each of its bytes is. -/
def ofBytes (arrived : Nat → Bool) : Availability := fun offset length =>
  (List.range' offset length).all arrived

/-- Whether a range holds a byte. -/
def holds (byte : Nat) (r : Extent) : Bool := r.offset ≤ byte && byte < r.offset + r.length

/-- Whether the ranges cover everything from an offset on. Each step goes on at the end of a range
that holds the byte at hand, so no range is used twice and `fuel` need not exceed their number. -/
def covers (ranges : List Extent) : (fuel offset length : Nat) → Bool
  | _, _, 0 => true
  | 0, _, _ => false
  | fuel + 1, offset, length =>
    match ranges.find? (holds offset) with
    | some r => covers ranges fuel (r.offset + r.length) (length - (r.offset + r.length - offset))
    | none => false

/-- The availability of what lies in some ranges that have arrived. -/
def ofRanges (ranges : List Extent) : Availability := covers ranges ranges.length

end Availability

/-- The problems met while reading. -/
structure Problems where
  /-- The source failed to deliver bytes it should have. -/
  readError : Bool := false
  /-- Bytes were needed that have not arrived. -/
  unavailable : Bool := false
  deriving DecidableEq, Repr

namespace Problems

def any (p : Problems) : Bool := p.readError || p.unavailable

def merge (p q : Problems) : Problems := ⟨p.readError || q.readError, p.unavailable || q.unavailable⟩

theorem any_merge (p q : Problems) : (p.merge q).any = (p.any || q.any) := by
  simp only [any, merge]
  ac_rfl

end Problems

/-- A source, what is known to have arrived of it, and the problems and requests so far. -/
structure Gate where
  source : Source
  /-- What has arrived; `none` if everything has been there from the start. -/
  availability : Option Availability := none
  problems : Problems := {}
  /-- Everything has arrived, so availability is no longer consulted. -/
  complete : Bool := false
  /-- The ranges asked for, oldest first. -/
  requests : List Extent := []

namespace Gate

/-- Requests start and end at multiples of the block size, or at the end of the document. -/
def blockSize : Nat := 512

/-- How much more than a payload should be there before it is read, so that the words after it do not
run into missing bytes at once. -/
def padding : Nat := 256

def size (g : Gate) : Nat := g.source.size

/-- Whether a range can be read right now. -/
def isAvailable (g : Gate) (offset length : Nat) : Bool :=
  g.complete ||
    match g.availability with
    | some arrived => arrived offset length
    | none => true

/-- The blocks that cover a range, cut at the end of the document. -/
def blocks (size offset length : Nat) : Option Extent :=
  let first := offset / blockSize * blockSize
  let last := min ((offset + length + (blockSize - 1)) / blockSize * blockSize) size
  if 0 < length ∧ first < last then some ⟨first, last - first⟩ else none

/-- Notes that a range was missing, and asks for it if somebody listens. -/
def request (g : Gate) (offset length : Nat) : Gate :=
  let asked :=
    match g.availability, blocks g.size offset length with
    | some _, some extent => [extent]
    | _, _ => []
  { g with problems := { g.problems with unavailable := true }, requests := g.requests ++ asked }

/-- Reads a range. Outside the document this fails without a trace; a range that has not arrived, or
that the source cannot deliver, is asked for and raises a flag. -/
def read (g : Gate) (offset length : Nat) : Option (Array UInt8) × Gate :=
  if g.size < offset + length then (none, g)
  else if !g.isAvailable offset length then (none, g.request offset length)
  else
    match g.source.read offset length with
    | (.ok bytes, source) => (some bytes, { g with source })
    | (.error _, source) =>
      let failed := { g with source, problems := { g.problems with readError := true } }
      (none, failed.request offset length)

/-- Whether a range and some padding after it have arrived; if not, the range is asked for. Nothing is
missing past the end of the document. -/
def check (g : Gate) (offset length : Nat) : Bool × Gate :=
  if g.size < offset then (true, g)
  else
    let stop := min (offset + length + padding) g.size
    if g.isAvailable offset (stop - offset) then (true, g) else (false, g.request offset length)

/-- Whether the whole document has arrived, which is then remembered; if not, all of it is asked
for. -/
def checkComplete (g : Gate) : Bool × Gate :=
  match g.availability with
  | none => (true, g)
  | some arrived =>
    if g.complete then (true, g)
    else if arrived 0 g.size then (true, { g with complete := true })
    else (false, g.request 0 g.size)

/-- Takes everything as having arrived. -/
def setComplete (g : Gate) : Gate := { g with complete := true }

/-- Forgets the problems so far. -/
def reset (g : Gate) : Gate := { g with problems := {} }

/-- Adds problems met earlier. -/
def restore (g : Gate) (earlier : Problems) : Gate := { g with problems := g.problems.merge earlier }

/-- The state of a gate in one line. -/
def summary (g : Gate) : String :=
  s!"ReadValidator \x7b file_size: {g.size}, has_availability: {g.availability.isSome}, " ++
  s!"read_error: {g.problems.readError}, has_unavailable_data: {g.problems.unavailable}, " ++
  s!"whole_file_already_available: {g.complete} \x7d"

end Gate
end PdfObjects
