import PdfObjects.Object.Table
import PdfObjects.Search

/-! The payload of a stream. Its declared length is trusted only if the keyword that ends a stream
follows, behind a line ending at most. Otherwise the payload goes up to the nearest keyword that ends a
stream or an object, without the line ending in front of that. -/
namespace PdfObjects

namespace Payload

def endStream : Bytes := Bytes.ofAscii ['e', 'n', 'd', 's', 't', 'r', 'e', 'a', 'm']

def endObject : Bytes := Bytes.ofAscii ['e', 'n', 'd', 'o', 'b', 'j']

/-- The length that a dictionary declares, directly or through a reference that can be resolved. What
is no number, or negative, declares nothing. -/
def declaredLength (dict : Dictionary) (resolve : Resolver) : Option Nat := do
  let value ← dict.get? (Bytes.ofAscii ['L', 'e', 'n', 'g', 't', 'h'])
  let value ←
    match value with
    | .reference number _ => resolve number
    | direct => some direct
  let length ← value.asInteger
  if 0 ≤ length then some length.toNat else none

/-- Whether a declared length leaves room for a keyword behind the payload. Nothing always does. -/
def fits (start size length : Nat) : Bool := length = 0 || start + length < size

end Payload

namespace Scan

/-- How many bytes of one line ending stand at a position: two, one or none. -/
def lineEndingAt (position : Nat) : Scan Nat := do
  let first ← byteAt position
  let second ← byteAt (position + 1)
  pure <|
    if first = some Byte.carriageReturn ∧ second = some Byte.lineFeed then 2
    else if first = some Byte.carriageReturn ∨ first = some Byte.lineFeed then 1
    else 0

/-- Where a payload ends whose length is not known: in front of the nearest keyword, and of the line
ending before that. There is no end if the line ending belongs to the start of the payload. -/
def payloadEnd : Scan (Option Nat) := do
  let stream ← findWord Payload.endStream
  let object ← findWord Payload.endObject
  match stream, object with
  | none, none => pure none
  | some stop, none | none, some stop => trim stop
  | some a, some b => trim (min a b)
where
  /-- Steps back over the line ending before a position, unless that is in front of the cursor. -/
  trim (stop : Nat) : Scan (Option Nat) := do
    let pair ← if 2 ≤ stop then lineEndingAt (stop - 2) else pure 0
    let single ← if pair ≠ 2 ∧ 1 ≤ stop then lineEndingAt (stop - 1) else pure 0
    let stop := if pair = 2 then stop - 2 else if single = 1 then stop - 1 else stop
    pure (if (← position) ≤ stop then some stop else none)

/-- Whether the keyword that ends a stream follows, behind a line ending at most; and whether this
could be told. -/
def endStreamFollows : Scan (Bool × Bool) := session do
  let here ← position
  seek (here + (← lineEndingAt here))
  let word ← rawWord
  pure (Payload.endStream.isPrefixOf word.bytes)

end Scan

namespace Parse
open Scan

/-- Goes past a payload of known length, which must have arrived. -/
def skipPayload (start length : Nat) : Parse Unit := do
  if 0 < length then
    seek start
    if ← check start length then seek (start + length)
    else throw .dataUnavailable

/-- The length of a payload that has to be found by its end. -/
def searchedLength (start : Nat) : Parse Nat := do
  match ← payloadEnd with
  | none => throw (.streamEndNotFound start)
  | some stop =>
    skipPayload start (stop - start)
    pure (stop - start)

/-- The length of a payload. The cursor ends up behind the payload, or behind the keyword that ends it
if that was looked at. -/
def payloadLength (start : Nat) (declared : Option Nat) : Parse Nat := do
  match declared with
  | none => searchedLength start
  | some length =>
    skipPayload start length
    let (found, problems) ← endStreamFollows
    if problems then throw .dataUnavailable
    if found then pure length
    else
      seek start
      searchedLength start

/-- The bytes of a payload. -/
def payloadBytes (start length : Nat) : Parse Bytes := do
  if length = 0 then pure []
  else
    match ← block start length with
    | some bytes => pure bytes
    | none => throw .dataUnavailable

/-- Goes past the keyword that ends a stream and the blanks behind it, but back in front of a keyword
that ends the object. -/
def skipEndStream : Scan Unit := do
  let behindPayload ← position
  let word ← rawWord
  take (fun _ b => if Byte.isWhitespace b && !Byte.isLineEnding b then .more () else .through ())
    (fun _ => ()) ()
  unread
  let ending ← lineEndingAt (← position)
  if word.bytes = Payload.endObject ∧ ending ≠ 0 then seek behindPayload

/-- Reads the payload of a stream, from behind the keyword that opens it. -/
def payload (dict : Dictionary) (resolve : Resolver) : Parse Bytes := do
  nextLine
  let start ← position
  let size ← documentSize
  let declared := (Payload.declaredLength dict resolve).filter (Payload.fits start size)
  let length ← payloadLength start declared
  let bytes ← payloadBytes start length
  skipEndStream
  pure bytes

end Parse
end PdfObjects
