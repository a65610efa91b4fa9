import PdfObjects.Body

/-! Taking stock of a document without an index to it. Objects are found by their keyword: wherever it
stands as a word behind two numbers, an object is read from there, and the search goes on behind it.
What has been read so far resolves the lengths of later streams. -/
namespace PdfObjects

/-- A place that looks like the header of an object, and what was read there. -/
structure Sighting where
  start : Nat
  outcome : Except Error Indirect

namespace Scan
open Parse (objectKeyword)

/-- The least position from which on all bytes up to the given one belong to a class. -/
def skipBack (member : UInt8 → Bool) : Nat → Scan Nat
  | 0 => pure 0
  | position + 1 => do
    match ← byteAt position with
    | some b => if member b then skipBack member position else pure (position + 1)
    | none => pure (position + 1)

/-- Where the number in front of a position starts, and blanks between it and the position. -/
def numberBefore (position : Nat) : Scan (Option Nat) := do
  let stop ← skipBack Byte.isWhitespace position
  let start ← skipBack Byte.isDigit stop
  pure (if start = stop then none else some start)

/-- Where the header starts whose keyword is at a position: in front of two numbers. -/
def headerStart (keyword : Nat) : Scan (Option Nat) := do
  match ← numberBefore keyword with
  | none => pure none
  | some generation => numberBefore generation

/-- Looks for objects from the cursor on. `left` is how many may still be found; each round moves
behind one more keyword, so `fuel` need not exceed the bytes left. -/
def objectsFrom : (fuel : Nat) → (left : Option Nat) → Table → List Sighting → Scan (List Sighting)
  | 0, _, _, sightings => pure sightings.reverse
  | fuel + 1, left, table, sightings => do
    if left = some 0 then pure sightings.reverse
    else
      let here ← position
      match ← findTag objectKeyword with
      | none => pure sightings.reverse
      | some distance =>
        let keyword := here + distance
        let behind := keyword + objectKeyword.length
        let alone ← isWholeWord keyword (← documentSize) objectKeyword false
        match ← if alone then headerStart keyword else pure none with
        | none =>
          seek behind
          objectsFrom fuel left table sightings
        | some start =>
          let outcome ← (Parse.indirectAt start table.resolver).run
          let sightings := ⟨start, outcome⟩ :: sightings
          match outcome with
          | .ok indirect =>
            seek (max behind (← position))
            objectsFrom fuel (left.map (· - 1)) (table.insertIndirect indirect) sightings
          | .error _ =>
            seek behind
            objectsFrom fuel left table sightings

/-- Looks for objects from a position on, until as many as wanted have been read. -/
def objects (start : Nat) (limit : Option Nat) : Scan (List Sighting) := do
  seek start
  objectsFrom (← remaining) limit {} []

/-- Reads words until there is none, at most `fuel` of them. -/
def wordsFrom : Nat → Scan Unit
  | 0 => pure ()
  | fuel + 1 => do
    if (← word).isEmpty then pure () else wordsFrom fuel

/-- Reads the whole document word by word, which passes all its trailers. -/
def allWords : Scan Unit := do
  seek 0
  wordsFrom (← remaining)

end Scan
end PdfObjects
