import PdfObjects.Body
import PdfObjects.Reader
import PdfObjects.Resident

/-! What can be asked of a reader from outside, one call after the other. Nearly every call is a reading
program; only the record of trailers is handed out without reading anything. What shows of a call is
its answer, the cursor that it leaves, and the record. -/
namespace PdfObjects

/-- What a call answers. -/
inductive Answer where
  | done
  | word (word : Word)
  | number (value : Nat)
  | byte (found : Option UInt8)
  | bytes (found : Option Bytes)
  | place (found : Option Nat)
  | truth (value : Bool)
  | object (outcome : Except Error Object)
  | indirect (outcome : Except Error Indirect)
  | ends (recorded : Option (List Nat))

/-- The calls that read. -/
inductive Call where
  | word
  | peekWord
  /-- The next word without its kind. -/
  | keyword
  | directNumber
  | next
  | byteAt (position : Nat)
  | takeBlock (length : Nat)
  | nextLine
  | seek (position : Nat)
  | literalString
  | hexString
  | findTag (tag : Bytes)
  | findWord (tag : Bytes)
  | isWholeWord (start limit : Nat) (tag : Bytes) (proper : Bool)
  | searchBack (tag : Bytes) (limit : Nat)
  | object (resolve : Resolver)
  | indirect (resolve : Resolver) (mode : Mode)
  | indirectAt (position : Nat) (resolve : Resolver)

/-- The program that carries out a call. -/
def Call.program : Call → Scan Answer
  | .word => do pure (.word (← Scan.word))
  | .peekWord => do pure (.word (← Scan.peekWord))
  | .keyword => do pure (.bytes (some (← Scan.word).bytes))
  | .directNumber => do pure (.number (← Scan.directNumber))
  | .next => do pure (.byte (← Scan.next))
  | .byteAt position => do pure (.byte (← Scan.byteAt position))
  | .takeBlock length => do pure (.bytes (← Scan.takeBlock length))
  | .nextLine => do
    Scan.nextLine
    pure .done
  | .seek position => do
    Scan.seek position
    pure .done
  | .literalString => do pure (.bytes (some (← Scan.literalString)))
  | .hexString => do pure (.bytes (some (← Scan.hexString)))
  | .findTag tag => do pure (.place (← Scan.findTag tag))
  | .findWord tag => do pure (.place (← Scan.findWord tag))
  | .isWholeWord start limit tag proper => do
    pure (.truth (← Scan.isWholeWord start limit tag proper))
  | .searchBack tag limit => do pure (.truth (← Scan.searchBack tag limit))
  | .object resolve => do pure (.object (← (Parse.object resolve).run))
  | .indirect resolve mode => do pure (.indirect (← (Parse.indirect resolve mode).run))
  | .indirectAt position resolve => do
    pure (.indirect (← (Parse.indirectAt position resolve).run))

/-- Everything that can be asked of a reader. -/
inductive Operation where
  | call (asked : Call)
  | trailerEnds
  | takeTrailerEnds

/-- Readers that show what they have recorded. -/
class Recording (σ : Type) extends Readable σ where
  trailerEnds : σ → Option (List Nat)
  takeTrailerEnds : σ → List Nat × σ

instance : Recording Reader := ⟨Reader.trailerEnds, Reader.takeTrailerEnds⟩

instance : Recording Resident := ⟨Resident.trailerEnds, Resident.takeTrailerEnds⟩

namespace Operation

variable {σ : Type} [Recording σ]

def run : Operation → σ → Answer × σ
  | .call asked, s => asked.program.run s
  | .trailerEnds, s => (.ends (Recording.trailerEnds s), s)
  | .takeTrailerEnds, s =>
    let (ends, after) := Recording.takeTrailerEnds s
    (.ends (some ends), after)

/-- What shows of an operation. -/
structure Observation where
  answer : Answer
  cursor : Nat
  trailerEnds : Option (List Nat)

/-- What shows of operations one after the other, and the reader after the last. -/
def observe : List Operation → σ → List Observation × σ
  | [], s => ([], s)
  | operation :: operations, s =>
    let (answer, after) := operation.run s
    let (rest, last) := observe operations after
    (⟨answer, (Scan.position.run after).1, Recording.trailerEnds after⟩ :: rest, last)

end Operation
end PdfObjects
