import PdfObjects.Flate.Zlib
import PdfObjects.Object.Printer

/-! Decoding the payload of a stream. The entry `Filter` of its dictionary names the filters to undo,
first to last. Only the deflate filter is known here. -/
namespace PdfObjects

/-- Why a payload could not be decoded. -/
inductive FilterError where
  /-- The list of filters holds something other than a name. -/
  | invalidElement
  /-- The filter entry is neither a name nor an array. -/
  | invalidKind (kind : Object.Kind)
  /-- No filter of this name is known. -/
  | unsupported (name : Bytes)
  /-- The compressed data are damaged. -/
  | corruptData
  deriving DecidableEq, Repr

/-- The text of a decoding error. -/
def FilterError.message (e : FilterError) : String :=
  "Stream decode error: " ++
    match e with
    | .invalidElement => "Invalid filter in array"
    | .invalidKind kind => "Invalid Filter type: " ++ kind.text
    | .unsupported name => "Unsupported filter: " ++ (Name.render name).toText
    | .corruptData => "Flate decode error"

namespace Filter

/-- The names of the deflate filter. -/
def deflateNames : List Bytes :=
  [Bytes.ofAscii ['F', 'l', 'a', 't', 'e', 'D', 'e', 'c', 'o', 'd', 'e'], Bytes.ofAscii ['F', 'l']]

/-- The names of the filters that a dictionary lists. All of them are read before any is applied. -/
def names (dict : Dictionary) : Except FilterError (List Bytes) :=
  match dict.get? (Bytes.ofAscii ['F', 'i', 'l', 't', 'e', 'r']) with
  | none => pure []
  | some (.name name) => pure [name]
  | some (.array elements) =>
    elements.mapM fun element =>
      match element.asName with
      | some name => pure name
      | none => throw .invalidElement
  | some other => throw (.invalidKind other.kind)

/-- Undoes one filter. -/
def apply (name data : Bytes) : Except FilterError Bytes :=
  if name ∈ deflateNames then
    match Flate.expand? data with
    | some expanded => pure expanded
    | none => throw .corruptData
  else throw (.unsupported name)

/-- The payload of a stream with all its filters undone. -/
def decode (dict : Dictionary) (payload : Bytes) : Except FilterError Bytes := do
  (← names dict).foldlM (fun data name => apply name data) payload

end Filter
end PdfObjects
