import PdfObjects.Literal
import PdfObjects.Name
import PdfObjects.Payload

/-! Building objects from words. The first word of an object tells what it is. Every object takes one of the
levels of nesting that are left while it is read, so nesting ends by itself. Damage is passed over where
something sensible remains: elements and entries that make no sense are dropped, and an array ends at the
first word that starts no object. -/
namespace PdfObjects

/-- What the first word of an object announces. Numbers are told by the word reader. -/
inductive Lead where
  /-- The word is the whole object. -/
  | whole (object : Object)
  | literalString
  | hexString
  | array
  | dictionary
  /-- The end of a dictionary, which starts nothing. -/
  | dictionaryEnd
  | nothing

namespace Lead

def ofWord (word : Bytes) : Lead :=
  match word with
  | [] => .nothing
  | first :: rest =>
    if first = Byte.slash then .whole (.name (Name.decode rest))
    else if word = Bytes.ofAscii ['t', 'r', 'u', 'e'] then .whole (.boolean true)
    else if word = Bytes.ofAscii ['f', 'a', 'l', 's', 'e'] then .whole (.boolean false)
    else if word = Bytes.ofAscii ['n', 'u', 'l', 'l'] then .whole .null
    else if word = [Byte.openParen] then .literalString
    else if word = [Byte.less] then .hexString
    else if word = [Byte.openBracket] then .array
    else if word = [Byte.less, Byte.less] then .dictionary
    else if word = [Byte.greater, Byte.greater] then .dictionaryEnd
    else .nothing

end Lead

/-- What a word means where a dictionary expects a key. -/
inductive KeyWord where
  | key (name : Bytes)
  | close
  /-- The end of the object around the dictionary. -/
  | endObject
  /-- Skipped. -/
  | other

def KeyWord.ofWord (word : Bytes) : KeyWord :=
  match word with
  | [] => .other
  | first :: rest =>
    if first = Byte.slash then .key (Name.decode rest)
    else if word = [Byte.greater, Byte.greater] then .close
    else if word = Payload.endObject then .endObject
    else .other

namespace Scan

/-- The generation of a reference, if a number and the letter of a reference follow. -/
def referenceTail : Scan (Option Nat) := attempt do
  let generation ← word
  if !generation.isNumber then pure none
  else
    let letter ← word
    pure (if letter.bytes = Bytes.ofAscii ['R'] then some (Numeral.saturating generation.bytes) else none)

/-- Whether a keyword follows. The cursor moves only if so. -/
def accept (keyword : Bytes) : Scan Bool := do
  let found ← attempt do
    let word ← word
    pure (if word.bytes = keyword then some () else none)
  pure found.isSome

end Scan

namespace Parse
open Scan

/-- Runs a program and hands out its outcome, error or not. -/
def outcome (body : Parse α) : Parse (Except Error α) := ExceptT.lift body.run

/-- The largest generation that a reference can name. -/
def maxGeneration : Nat := 65535

/-- An object that starts with a number: a reference if the rest of one follows, else the number. -/
def numberOrReference (first : Bytes) : Parse Object := do
  let here ← position
  match ← referenceTail with
  | none => pure (Object.ofNumeral first)
  | some generation =>
    let number := Numeral.saturating first
    if number = 0 ∨ number = Numeral.maxUnsigned then
      throw (.invalidReference first generation here)
    else pure (.reference number (min generation maxGeneration))

/-- The elements of an array, read by `element` until that fails. Streams cannot be elements. Each
element takes at least one byte, so `fuel` is not used up. -/
def elements (element : Parse Object) : (fuel : Nat) → (taken : List Object) → Parse (List Object)
  | 0, taken => pure taken.reverse
  | fuel + 1, taken => do
    match ← outcome element with
    | .ok object => elements element fuel (if object.isStream then taken else object :: taken)
    | .error e => if e.isNestingLimit then throw e else pure taken.reverse

/-- The rest of an array. The last word is the one at which the elements ended; read strictly, it has
to be the closing bracket. -/
def array (element : Parse Object) (mode : Mode) : Parse Object := do
  let objects ← elements element ((← remaining) + 1) []
  if mode = .loose ∨ (← lastWord).head? = some Byte.closeBracket then pure (.array objects)
  else throw (.badSyntax (← position) .arrayNotTerminated)

/-- Whether an entry is kept. An empty key, a stream and null make none. -/
def isEntry (key : Bytes) (value : Object) : Bool :=
  !key.isEmpty && !value.isStream && !value.isNull

/-- The entries of a dictionary up to its end, or up to the end of the object around it, which is left
in place. Each entry takes at least one byte, so `fuel` is not used up. -/
def entries (value : Parse Object) (mode : Mode) : (fuel : Nat) → Dictionary → Parse Dictionary
  | 0, _ => do throw (.endOfData (← position))
  | fuel + 1, dict => do
    let word ← word
    let here ← position
    if word.isEmpty then throw (.endOfData here)
    let start := here - word.bytes.length
    match KeyWord.ofWord word.bytes with
    | .close => pure dict
    | .endObject =>
      seek start
      pure dict
    | .other => entries value mode fuel dict
    | .key key =>
      if key.isEmpty && mode = .strict then
        nextLine
        throw (.badSyntax start .emptyKey)
      match ← outcome value with
      | .ok object =>
        entries value mode fuel (if isEntry key object then dict.insert key object else dict)
      | .error e =>
        if e.isNestingLimit then throw e
        else if mode = .loose then entries value mode fuel dict
        else
          nextLine
          throw e

def streamKeyword : Bytes := Bytes.ofAscii ['s', 't', 'r', 'e', 'a', 'm']

/-- The rest of a dictionary, or of a stream if its keyword follows. -/
def dictionary (value : Parse Object) (resolve : Resolver) (mode : Mode) : Parse Object := do
  let dict ← entries value mode ((← remaining) + 1) []
  if ← accept streamKeyword then pure (.stream dict (← payload dict resolve))
  else pure (.dictionary dict)

/-- Goes back to a position if nesting turns out to be too deep. -/
def rewinding (start : Nat) (body : Parse Object) : Parse Object := do
  match ← outcome body with
  | .ok object => pure object
  | .error e =>
    if e.isNestingLimit then seek start
    throw e

/-- An object of the kind that its first word announces. What is nested in it is read by `inner`. -/
def announced (resolve : Resolver) (inner : Parse Object) (mode : Mode) : Parse Object := do
  let start ← position
  let word ← word
  if word.isEmpty then throw (.endOfData (← position))
  if word.numeric then numberOrReference word.bytes
  else
    match Lead.ofWord word.bytes with
    | .whole object => pure object
    | .literalString => pure (.string (← literalString) false)
    | .hexString => pure (.string (← hexString) true)
    | .array => rewinding start (array inner mode)
    | .dictionary => rewinding start (dictionary inner resolve mode)
    | .dictionaryEnd =>
      seek start
      throw (.unexpectedWord start word.bytes)
    | .nothing => throw (.unexpectedWord start word.bytes)

/-- Fails because no level of nesting is left. -/
def tooDeep : Parse α := do throw (.nestingLimit (← settings).nesting)

/-- Runs a program that takes one level of nesting, which is given back whether it succeeds or not. -/
def guarded (body : Parse α) : Parse α := .mk (.nested body.run tooDeep.run)

/-- An object on the next level of nesting. Every level is taken from those that are left, so `fuel` is not
used up if it exceeds their number. -/
def bodyFrom (resolve : Resolver) : (fuel : Nat) → Mode → Parse Object
  | 0, _ => tooDeep
  | fuel + 1, mode => guarded (announced resolve (bodyFrom resolve fuel .loose) mode)

/-- An object at the cursor, within the levels of nesting that are left. -/
def anyObject (resolve : Resolver) (mode : Mode) : Parse Object := do
  bodyFrom resolve ((← settings).nesting + 1) mode

def objectKeyword : Bytes := Bytes.ofAscii ['o', 'b', 'j']

/-- A number of the header of an indirect object. If there is none, the cursor goes back to where the
header should have started. -/
def headerNumber (start : Nat) (fault : SyntaxFault) : Parse Nat := do
  let word ← word
  if word.isNumber then pure (Numeral.saturating word.bytes)
  else
    seek start
    throw (.badSyntax start fault)

/-- An indirect object: its number, its generation, the keyword and the object. If the header is not
right, the cursor goes back. -/
def headerAndObject (resolve : Resolver) (mode : Mode) : Parse Indirect := do
  let start ← position
  let number ← headerNumber start .objectNumberExpected
  let generation ← headerNumber start .generationNumberExpected
  let keyword ← word
  if keyword.bytes ≠ objectKeyword then
    seek start
    throw (.unexpectedWord start keyword.bytes)
  let object ← anyObject resolve mode
  pure { number, generation, object }

/-- Runs a program as one session. If any byte that it needed could not be had, what it made of the
rest does not count. -/
def whole (body : Parse α) : Parse α := do
  let (result, problems) ← session body.run
  if problems then throw .dataUnavailable
  match result with
  | .ok value => pure value
  | .error e => throw e

/-- Reads the object at the cursor. -/
def object (resolve : Resolver) : Parse Object := whole (anyObject resolve .loose)

/-- Reads the indirect object at the cursor. -/
def indirect (resolve : Resolver) (mode : Mode) : Parse Indirect :=
  whole (headerAndObject resolve mode)

/-- Reads the indirect object at a position, in the mode of the reader. -/
def indirectAt (position : Nat) (resolve : Resolver) : Parse Indirect := do
  seek position
  indirect resolve (← settings).mode

end Parse

end PdfObjects
