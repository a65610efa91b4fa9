import PdfObjects.Gate
import PdfObjects.Scan

/-! The reader of a document behind a gate. It sees the source through a window that is filled anew
when the cursor leaves it: from the cursor on when reading forward, up to the cursor when reading
backward. The document proper may start some way into the source, behind other bytes. -/
namespace PdfObjects

/-- A run of consecutive bytes of the source. -/
structure Window where
  start : Nat := 0
  bytes : Array UInt8 := #[]
  deriving DecidableEq, Repr

/-- The byte at an offset of the source, if the window shows it. -/
def Window.byte? (w : Window) (offset : Nat) : Option UInt8 :=
  if w.start ≤ offset then w.bytes[offset - w.start]? else none

structure Reader where
  gate : Gate
  /-- Where in the source the document starts. -/
  origin : Nat
  options : Options
  /-- The cursor, counted from the start of the document. -/
  position : Nat := 0
  window : Window := {}
  lastWord : Bytes := []
  depth : Nat := 0
  /-- The ends of the trailers passed so far, if they are recorded. -/
  trailerEnds : Option (List Nat)

namespace Reader

/-- A reader at the start of a document that begins at `origin`, or at the end of the source if that
comes first. -/
def ofGate (gate : Gate) (origin : Nat) (options : Options) : Reader :=
  { gate
    origin := min origin gate.size
    options
    trailerEnds := if options.recordTrailers then some [] else none }

/-- The size of the document proper. -/
def size (r : Reader) : Nat := r.gate.size - r.origin

def seek (r : Reader) (position : Nat) : Reader := { r with position := min position r.size }

/-- Fills the window from an offset of the source on. If that fails the window is empty, but stays
where it was. -/
def refill (r : Reader) (start : Nat) : Reader :=
  match r.gate.read start (min r.options.effectiveWindow (r.gate.size - start)) with
  | (some bytes, gate) => { r with gate, window := ⟨start, bytes⟩ }
  | (none, gate) => { r with gate, window := { r.window with bytes := #[] } }

/-- The byte at an offset of the source. If the window does not show it, the window is filled from
`start` on. -/
def fetch (r : Reader) (offset start : Nat) : Option UInt8 × Reader :=
  if r.gate.size ≤ offset then (none, r)
  else
    match r.window.byte? offset with
    | some b => (some b, r)
    | none =>
      let r := r.refill start
      (r.window.byte? offset, r)

/-- The byte at a position. The sum with the origin is exact here, as it is in machine words for every
position in the document; what they make of the others is `machineByteAt`. -/
def byteAt (r : Reader) (position : Nat) : Option UInt8 × Reader :=
  r.fetch (position + r.origin) (position + r.origin)

/-- As `byteAt`, but a new window ends at the position, or starts with the source if that is nearer. -/
def byteBehind (r : Reader) (position : Nat) : Option UInt8 × Reader :=
  let offset := position + r.origin
  let width := r.options.effectiveWindow
  r.fetch offset (if width ≤ offset then offset - width + 1 else 0)

def next (r : Reader) : Option UInt8 × Reader :=
  match r.byteAt r.position with
  | (some b, r) => (some b, { r with position := r.position + 1 })
  | (none, r) => (none, r)

def block (r : Reader) (position length : Nat) : Option Bytes × Reader :=
  let (bytes, gate) := r.gate.read (position + r.origin) length
  (bytes.map Array.toList, { r with gate })

def check (r : Reader) (position length : Nat) : Bool × Reader :=
  if length = 0 then (true, r)
  else
    let (arrived, gate) := r.gate.check (position + r.origin) length
    (arrived, { r with gate })

/-- Records the end of a trailer line, whose line ending has begun with the byte before the cursor. A
carriage return and a line feed are one line ending. -/
def noteTrailer (r : Reader) (ending : UInt8) : Reader :=
  match r.trailerEnds with
  | none => r
  | some ends =>
    if ending = Byte.carriageReturn then
      let (following, r) := r.byteAt r.position
      let stop := if following = some Byte.lineFeed then r.position + 1 else r.position
      { r with trailerEnds := some (ends ++ [stop]) }
    else { r with trailerEnds := some (ends ++ [r.position]) }

/-- Hands out the recorded ends of trailers and starts a new record. -/
def takeTrailerEnds (r : Reader) : List Nat × Reader :=
  match r.trailerEnds with
  | some ends => (ends, { r with trailerEnds := some [] })
  | none => ([], r)

def limits (r : Reader) : Limits :=
  { wordLength := r.options.effectiveWordLength
    nesting := r.options.maxDepth
    mode := r.options.mode
    depth := r.depth }

/-- Takes one level of nesting, if one is left. -/
def enter (r : Reader) : Except Error Reader :=
  if r.depth < r.options.maxDepth then .ok { r with depth := r.depth + 1 }
  else .error (.nestingLimit r.options.maxDepth)

/-- Gives a level of nesting back. -/
def leave (r : Reader) : Reader := { r with depth := r.depth - 1 }

instance : Readable Reader where
  perform
    | .next, r => r.next
    | .byteAt position, r => r.byteAt position
    | .byteBehind position, r => r.byteBehind position
    | .position, r => (r.position, r)
    | .seek position, r => ((), r.seek position)
    | .documentSize, r => (r.size, r)
    | .settings, r => (r.limits.toSettings, r)
    | .block position length, r => r.block position length
    | .check position length, r => r.check position length
    | .keepWord word, r => ((), { r with lastWord := word })
    | .lastWord, r => (r.lastWord, r)
    | .noteTrailer ending, r => ((), r.noteTrailer ending)
  openSession r := { r with gate := r.gate.reset }
  closeSession before after :=
    (after.gate.problems.any, { after with gate := after.gate.restore before.gate.problems })
  enter r := r.enter.toOption
  leave := leave

/-- The state of a reader in one line. -/
def summary (r : Reader) : String :=
  s!"SyntaxParser \x7b pos: {r.position}, header_offset: {r.origin}, file_len: {r.gate.size}, " ++
  s!"buf_offset: {r.window.start}, buffered: {r.window.bytes.size}, depth: {r.depth} \x7d"

end Reader
end PdfObjects
