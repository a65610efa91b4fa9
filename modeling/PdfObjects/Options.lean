/-! How a document is read: the limits that keep hostile input in check, the size of the read window,
and how much damage is put up with. -/
namespace PdfObjects

/-- How forgiving the outermost object is read. What is nested in it is always read loosely. -/
inductive Mode where
  /-- Malformed entries are skipped and missing brackets tolerated. -/
  | loose
  /-- An array without its bracket, or a dictionary with a bad key or value, is an error. -/
  | strict
  deriving DecidableEq, Repr

def Mode.text : Mode → String
  | .loose => "Loose"
  | .strict => "Strict"

/-- The settings of a reader. -/
structure Options where
  /-- How deep arrays and dictionaries may nest. -/
  maxDepth : Nat := 1024
  /-- The size of the read window. -/
  windowSize : Nat := 512
  /-- How much is kept of a word. -/
  maxWordLength : Nat := 255
  /-- Whether indirect objects are read loosely. -/
  lenient : Bool := true
  /-- Whether the ends of trailers are recorded. -/
  recordTrailers : Bool := false
  deriving DecidableEq, Repr

namespace Options

/-- For damaged documents: a larger window. -/
def forDamaged : Options := { windowSize := 4096, lenient := true }

/-- Indirect objects are read strictly. -/
def forStrict : Options := { lenient := false }

/-- How indirect objects are read. -/
def mode (o : Options) : Mode := if o.lenient then .loose else .strict

/-- The size of the read window; an empty window could not be read through. -/
def effectiveWindow (o : Options) : Nat := max o.windowSize 1

theorem effectiveWindow_pos (o : Options) : 0 < o.effectiveWindow := by
  simp only [effectiveWindow]
  omega

/-- The length to which words are kept; keywords have to fit in any case. -/
def effectiveWordLength (o : Options) : Nat := max o.maxWordLength 16

end Options
end PdfObjects
