import PdfObjects.Scan

/-! A document that is wholly at hand. This reader has no window, no source and no problems: every
command is answered from the bytes themselves. It says what reading means, apart from how bytes are
fetched. -/
namespace PdfObjects

/-- A document at hand and a cursor in it. -/
structure Resident where
  bytes : Bytes
  limits : Limits
  position : Nat := 0
  lastWord : Bytes := []
  /-- The ends of the trailers passed so far, if they are recorded. -/
  trailerEnds : Option (List Nat) := none
  deriving DecidableEq, Repr

namespace Resident

/-- A reader at the start of a document, with the limits of some settings. -/
def ofBytes (bytes : Bytes) (options : Options) : Resident :=
  { bytes
    limits :=
      { wordLength := options.effectiveWordLength
        nesting := options.maxDepth
        mode := options.mode
        depth := 0 }
    trailerEnds := if options.recordTrailers then some [] else none }

def seek (r : Resident) (position : Nat) : Resident :=
  { r with position := min position r.bytes.length }

def next (r : Resident) : Option UInt8 × Resident :=
  match r.bytes[r.position]? with
  | some b => (some b, { r with position := r.position + 1 })
  | none => (none, r)

def block (r : Resident) (position length : Nat) : Option Bytes :=
  if position + length ≤ r.bytes.length then some ((r.bytes.drop position).take length) else none

/-- Records the end of a trailer line. A carriage return and a line feed are one line ending. -/
def noteTrailer (r : Resident) (ending : UInt8) : Resident :=
  let stop :=
    if ending = Byte.carriageReturn ∧ r.bytes[r.position]? = some Byte.lineFeed then r.position + 1
    else r.position
  { r with trailerEnds := r.trailerEnds.map (· ++ [stop]) }

/-- Hands out the recorded ends of trailers and starts a new record. -/
def takeTrailerEnds (r : Resident) : List Nat × Resident :=
  match r.trailerEnds with
  | some ends => (ends, { r with trailerEnds := some [] })
  | none => ([], r)

/-- Takes one level of nesting, if one is left. -/
def enter (r : Resident) : Option Resident :=
  if r.limits.depth < r.limits.nesting then
    some { r with limits := { r.limits with depth := r.limits.depth + 1 } }
  else none

/-- Gives a level of nesting back. -/
def leave (r : Resident) : Resident :=
  { r with limits := { r.limits with depth := r.limits.depth - 1 } }

instance : Readable Resident where
  perform
    | .next, r => r.next
    | .byteAt position, r => (r.bytes[position]?, r)
    | .byteBehind position, r => (r.bytes[position]?, r)
    | .position, r => (r.position, r)
    | .seek position, r => ((), r.seek position)
    | .documentSize, r => (r.bytes.length, r)
    | .settings, r => (r.limits.toSettings, r)
    | .block position length, r => (r.block position length, r)
    | .check _ _, r => (true, r)
    | .keepWord word, r => ((), { r with lastWord := word })
    | .lastWord, r => (r.lastWord, r)
    | .noteTrailer ending, r => ((), r.noteTrailer ending)
  openSession r := r
  closeSession _ after := (false, after)
  enter := enter
  leave := leave

end Resident
end PdfObjects
