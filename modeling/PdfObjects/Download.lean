import PdfObjects.Body
import PdfObjects.Reader

/-! Reading an object while its document arrives. Whoever reads makes an attempt; if data are missing,
it waits until everything asked for has arrived and tries again. -/
namespace PdfObjects

/-- A reader, and what has arrived for it. -/
structure Download where
  reader : Reader
  arrived : Nat → Bool

namespace Download

/-- Tries to read the object at a position. Problems of earlier attempts are forgotten. -/
def attempt (position : Nat) (resolve : Resolver) (d : Download) :
    Except Error Indirect × Download :=
  let result :=
    (Parse.indirectAt position resolve).run.run { d.reader with gate := d.reader.gate.reset }
  (result.1, { d with reader := result.2 })

/-- Has a range of the source checked. -/
def check (offset length : Nat) (d : Download) : Bool × Download :=
  let result := d.reader.gate.check offset length
  (result.1, { d with reader := { d.reader with gate := result.2 } })

/-- Lets everything arrive that has been asked for so far. -/
def fulfil (d : Download) : Download :=
  let arrived := fun index =>
    d.arrived index || d.reader.gate.requests.any (Availability.holds index)
  { reader := { d.reader with gate := { d.reader.gate with availability := some (.ofBytes arrived) } }
    arrived }

/-- An attempt and what comes of it. Once there is a result, nothing more happens. -/
def round (position : Nat) (resolve : Resolver) (d : Download) : Download :=
  match d.attempt position resolve with
  | (.error .dataUnavailable, after) => after.fulfil
  | _ => d

/-- The state before round `n`. -/
def before (position : Nat) (resolve : Resolver) (d : Download) : (n : Nat) → Download
  | 0 => d
  | n + 1 => (d.before position resolve n).round position resolve

end Download
end PdfObjects
