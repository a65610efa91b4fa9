import PdfObjects.Name
import PdfObjects.Object

/-! The shape of objects: what they are made of, how deep they nest, and which of them have a written
form that can be read. -/
namespace PdfObjects

/-- Whether a number is within the range of those that can be written without a decimal point. -/
def Numeral.Fits (n : Int) : Prop := -0x80000000 ≤ n ∧ n ≤ 0xFFFFFFFF

instance (n : Int) : Decidable (Numeral.Fits n) := inferInstanceAs (Decidable (_ ∧ _))

/-- Whether a name has no NUL, and together with its slash stays within what is kept of a word. -/
def Name.Fits (limit : Nat) (name : Bytes) : Prop := 0 ∉ name ∧ (encode name).length + 1 ≤ limit

instance (limit : Nat) (name : Bytes) : Decidable (Name.Fits limit name) :=
  inferInstanceAs (Decidable (_ ∧ _))

namespace Object

/-- The objects directly inside an object. -/
def parts : Object → List Object
  | .array elements => elements
  | .dictionary entries | .stream entries _ => entries.map Prod.snd
  | _ => []

mutual

/-- The levels of nesting that it takes to read an object. An array takes one for its closing bracket,
if not for its elements. -/
def height : Object → Nat
  | .array elements => max 1 (heightElements elements) + 1
  | .dictionary entries => heightEntries entries + 1
  | .stream entries _ => heightEntries entries + 1
  | _ => 1

def heightElements : List Object → Nat
  | [] => 0
  | element :: rest => max (height element) (heightElements rest)

def heightEntries : List (Bytes × Object) → Nat
  | [] => 0
  | entry :: rest => max (heightEntry entry) (heightEntries rest)

def heightEntry : Bytes × Object → Nat
  | (_, value) => height value

end

mutual

/-- Whether an object can be read back from its written form, with so much kept of a word. Reals and
streams are left out, as they are not written in full. -/
def Writable (limit : Nat) : Object → Prop
  | .null => True
  | .boolean _ => True
  | .integer n => Numeral.Fits n
  | .real _ => False
  | .string .. => True
  | .name bytes => Name.Fits limit bytes
  | .array elements => WritableElements limit elements
  | .dictionary entries => Keyed.Ordered entries ∧ WritableEntries limit entries
  | .stream .. => False
  | .reference number generation =>
    0 < number ∧ number < Numeral.maxUnsigned ∧ generation ≤ 0xFFFF

def WritableElements (limit : Nat) : List Object → Prop
  | [] => True
  | element :: rest => Writable limit element ∧ WritableElements limit rest

def WritableEntries (limit : Nat) : List (Bytes × Object) → Prop
  | [] => True
  | entry :: rest => WritableEntry limit entry ∧ WritableEntries limit rest

/-- An entry has a key, and its value is not null. -/
def WritableEntry (limit : Nat) : Bytes × Object → Prop
  | (key, value) => key ≠ [] ∧ Name.Fits limit key ∧ value.isNull = false ∧ Writable limit value

end

mutual

instance decidableWritable (limit : Nat) : (o : Object) → Decidable (Writable limit o)
  | .null | .boolean _ | .string .. => isTrue trivial
  | .real _ | .stream .. => isFalse id
  | .integer n => inferInstanceAs (Decidable (Numeral.Fits n))
  | .name bytes => inferInstanceAs (Decidable (Name.Fits limit bytes))
  | .array elements => decidableElements limit elements
  | .dictionary entries =>
    have : Decidable (WritableEntries limit entries) := decidableEntries limit entries
    inferInstanceAs (Decidable (List.Pairwise _ entries ∧ WritableEntries limit entries))
  | .reference number generation =>
    inferInstanceAs (Decidable (0 < number ∧ number < Numeral.maxUnsigned ∧ generation ≤ 0xFFFF))

def decidableElements (limit : Nat) :
    (elements : List Object) → Decidable (WritableElements limit elements)
  | [] => isTrue trivial
  | element :: rest =>
    have := decidableWritable limit element
    have := decidableElements limit rest
    inferInstanceAs (Decidable (Writable limit element ∧ WritableElements limit rest))

def decidableEntries (limit : Nat) :
    (entries : List (Bytes × Object)) → Decidable (WritableEntries limit entries)
  | [] => isTrue trivial
  | entry :: rest =>
    have := decidableEntry limit entry
    have := decidableEntries limit rest
    inferInstanceAs (Decidable (WritableEntry limit entry ∧ WritableEntries limit rest))

def decidableEntry (limit : Nat) : (entry : Bytes × Object) → Decidable (WritableEntry limit entry)
  | (key, value) =>
    have := decidableWritable limit value
    inferInstanceAs (Decidable
      (key ≠ [] ∧ Name.Fits limit key ∧ value.isNull = false ∧ Writable limit value))

end

mutual

/-- What holds of an object whenever it holds of its parts holds of all objects. -/
theorem parts_induction {P : Object → Prop} (step : ∀ o, (∀ part ∈ parts o, P part) → P o) :
    ∀ o, P o
  | .array elements => step _ (elements_induction step elements)
  | .dictionary entries => step _ (entries_induction step entries)
  | .stream entries payload => step _ (entries_induction step entries)
  | .null => step _ fun _ inside => by cases inside
  | .boolean _ => step _ fun _ inside => by cases inside
  | .integer _ => step _ fun _ inside => by cases inside
  | .real _ => step _ fun _ inside => by cases inside
  | .string .. => step _ fun _ inside => by cases inside
  | .name _ => step _ fun _ inside => by cases inside
  | .reference .. => step _ fun _ inside => by cases inside

private theorem elements_induction {P : Object → Prop}
    (step : ∀ o, (∀ part ∈ parts o, P part) → P o) : ∀ elements : List Object,
    ∀ part ∈ elements, P part
  | [] => fun _ inside => by cases inside
  | element :: rest => by
    intro part inside
    rcases List.mem_cons.mp inside with first | later
    · exact first ▸ parts_induction step element
    · exact elements_induction step rest part later

private theorem entries_induction {P : Object → Prop}
    (step : ∀ o, (∀ part ∈ parts o, P part) → P o) : ∀ entries : List (Bytes × Object),
    ∀ part ∈ entries.map Prod.snd, P part
  | [] => fun _ inside => by cases inside
  | (_, value) :: rest => by
    intro part inside
    rcases List.mem_cons.mp inside with first | later
    · exact first ▸ parts_induction step value
    · exact entries_induction step rest part later

end

end Object
end PdfObjects
