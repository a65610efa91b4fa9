import PdfObjects.Text.Utf8

/-! Why an object could not be read. Every error leaves the cursor at a place from which reading can
be tried again. -/
namespace PdfObjects

/-- Violations of the syntax of one construct. -/
inductive SyntaxFault where
  | objectNumberExpected
  | generationNumberExpected
  | arrayNotTerminated
  | emptyKey
  deriving DecidableEq, Repr

def SyntaxFault.message : SyntaxFault → String
  | .objectNumberExpected => "expected object number"
  | .generationNumberExpected => "expected generation number"
  | .arrayNotTerminated => "array is not terminated by ']'"
  | .emptyKey => "empty dictionary key"

/-- Why reading failed, and where. -/
inductive Error where
  /-- The document ended where an object or a key should have been. -/
  | endOfData (position : Nat)
  | badSyntax (position : Nat) (fault : SyntaxFault)
  /-- The word starts no object. -/
  | unexpectedWord (position : Nat) (word : Bytes)
  /-- A reference to a number that no object can have. -/
  | invalidReference (number : Bytes) (generation position : Nat)
  | nestingLimit (limit : Nat)
  /-- Bytes that were needed have not arrived. -/
  | dataUnavailable
  | streamEndNotFound (position : Nat)
  deriving DecidableEq, Repr

namespace Error

/-- The text of an error. -/
def message : Error → String
  | .endOfData position => s!"Unexpected end of data at position {position}"
  | .badSyntax position fault => s!"Syntax error at position {position}: {fault.message}"
  | .unexpectedWord position word =>
    s!"Unexpected token at position {position}: {Utf8.decodeLossy word}"
  | .invalidReference number generation position =>
    s!"Invalid object reference: {Utf8.decodeLossy number} {generation} R at position {position}"
  | .nestingLimit limit => s!"Maximum recursion depth exceeded (limit: {limit})"
  | .dataUnavailable => "Required data is not yet available"
  | .streamEndNotFound position => s!"Stream end not found after position {position}"

/-- Too deep nesting is fatal at every level, while other errors may be recovered from. -/
def isNestingLimit : Error → Bool
  | .nestingLimit _ => true
  | _ => false

/-- The error with which something ended, if it did. -/
def of? : Except Error α → Option Error
  | .ok _ => none
  | .error e => some e

theorem of?_eq_some {outcome : Except Error α} {e : Error} :
    of? outcome = some e ↔ outcome = .error e := by
  cases outcome <;> simp [of?]

end Error
end PdfObjects
