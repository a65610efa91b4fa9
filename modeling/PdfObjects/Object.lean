import PdfObjects.Keyed
import PdfObjects.Numeral
import PdfObjects.Text.Utf8

/-! The objects of a document. A document is a graph of numbered objects; inside one object, another
is named by its number and never followed. Dictionaries keep their entries in the order of their keys,
so the order in which they were written does not matter. -/
namespace PdfObjects

/-- An object. Names and dictionary keys are held decoded, and a string remembers whether it was
written in hexadecimal. -/
inductive Object where
  | null
  | boolean (value : Bool)
  | integer (value : Int)
  | real (value : Double)
  | string (bytes : Bytes) (hex : Bool)
  | name (bytes : Bytes)
  | array (elements : List Object)
  | dictionary (entries : List (Bytes × Object))
  | stream (entries : List (Bytes × Object)) (payload : Bytes)
  | reference (number generation : Nat)
  deriving Inhabited

/-- The entries of a dictionary, in ascending order of their keys. -/
abbrev Dictionary := List (Bytes × Object)

namespace Dictionary

def get? (d : Dictionary) (key : Bytes) : Option Object := Keyed.get? key d

def insert (d : Dictionary) (key : Bytes) (value : Object) : Dictionary := Keyed.insert key value d

def contains (d : Dictionary) (key : Bytes) : Bool := (d.get? key).isSome

/-- A dictionary from entries in any order, of which the last for each key counts. -/
def ofEntries (entries : List (Bytes × Object)) : Dictionary :=
  entries.foldl (fun d e => d.insert e.1 e.2) []

end Dictionary

/-- The kinds of objects. Integers and reals are both numbers. -/
inductive Object.Kind where
  | null
  | boolean
  | number
  | string
  | name
  | array
  | dictionary
  | stream
  | reference
  deriving DecidableEq, Repr

def Object.Kind.text : Object.Kind → String
  | .null => "null"
  | .boolean => "boolean"
  | .number => "number"
  | .string => "string"
  | .name => "name"
  | .array => "array"
  | .dictionary => "dictionary"
  | .stream => "stream"
  | .reference => "reference"

namespace Object

/-- The number that a numeric word writes: a real if it has a decimal point, else an integer. -/
def ofNumeral (word : Bytes) : Object :=
  if word.contains Byte.point then .real (Numeral.real word) else .integer (Numeral.integer word)

def kind : Object → Kind
  | .null => .null
  | .boolean _ => .boolean
  | .integer _ | .real _ => .number
  | .string .. => .string
  | .name _ => .name
  | .array _ => .array
  | .dictionary _ => .dictionary
  | .stream .. => .stream
  | .reference .. => .reference

def isNull : Object → Bool
  | .null => true
  | _ => false

def isStream : Object → Bool
  | .stream .. => true
  | _ => false

def asBoolean : Object → Option Bool
  | .boolean b => some b
  | _ => none

/-- A number as an integer. A real loses its fraction, is cut to the 64-bit range, and counts as zero
if it is not a number. -/
def asInteger : Object → Option Int
  | .integer n => some n
  | .real x => some x.truncate
  | _ => none

/-- A number as a real, the nearest one for an integer. -/
def asReal : Object → Option Double
  | .real x => some x
  | .integer n => some (Double.ofInt n)
  | _ => none

/-- The bytes of a string, and whether it was written in hexadecimal. -/
def asString : Object → Option (Bytes × Bool)
  | .string bytes hex => some (bytes, hex)
  | _ => none

def asName : Object → Option Bytes
  | .name bytes => some bytes
  | _ => none

def asArray : Object → Option (List Object)
  | .array elements => some elements
  | _ => none

/-- The entries of a dictionary or of the dictionary of a stream. -/
def asDictionary : Object → Option Dictionary
  | .dictionary entries => some entries
  | .stream entries _ => some entries
  | _ => none

/-- The payload of a stream, as stored. -/
def asStream : Object → Option Bytes
  | .stream _ payload => some payload
  | _ => none

/-- The number and generation that a reference names. -/
def asReference : Object → Option (Nat × Nat)
  | .reference number generation => some (number, generation)
  | _ => none

end Object

/-- The value of the entry `Type`, if it is a name and valid text. -/
def Dictionary.typeName (d : Dictionary) : Option String := do
  let value ← d.get? (Bytes.ofAscii ['T', 'y', 'p', 'e'])
  Utf8.decode? (← value.asName)

mutual

/-- Structural equality. Reals are compared as numbers, so a value that is not a number differs from
itself and the two zeros are equal. -/
def Object.beq : Object → Object → Bool
  | .null, .null => true
  | .boolean a, .boolean b => a == b
  | .integer a, .integer b => a == b
  | .real a, .real b => a.sameNumber b
  | .string a hexA, .string b hexB => a == b && hexA == hexB
  | .name a, .name b => a == b
  | .array a, .array b => Object.beqElements a b
  | .dictionary a, .dictionary b => Object.beqEntries a b
  | .stream a payloadA, .stream b payloadB => Object.beqEntries a b && payloadA == payloadB
  | .reference a genA, .reference b genB => a == b && genA == genB
  | _, _ => false

def Object.beqElements : List Object → List Object → Bool
  | [], [] => true
  | a :: as, b :: bs => Object.beq a b && Object.beqElements as bs
  | _, _ => false

def Object.beqEntries : List (Bytes × Object) → List (Bytes × Object) → Bool
  | [], [] => true
  | a :: as, b :: bs => Object.beqEntry a b && Object.beqEntries as bs
  | _, _ => false

def Object.beqEntry : Bytes × Object → Bytes × Object → Bool
  | (keyA, a), (keyB, b) => keyA == keyB && Object.beq a b

end

instance : BEq Object := ⟨Object.beq⟩

end PdfObjects
