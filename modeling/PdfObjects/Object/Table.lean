import PdfObjects.Object

/-! Numbered objects. An indirect object is an object together with the number and generation of its
header; a table holds the objects loaded so far, one for each number. -/
namespace PdfObjects

/-- An object and the header it was found under. -/
structure Indirect where
  number : Nat
  generation : Nat
  object : Object

/-- Resolves references: the object of a number, if it is known. -/
abbrev Resolver := Nat → Option Object

/-- Resolves nothing. -/
def Resolver.empty : Resolver := fun _ => none

/-- The objects loaded so far, by number. -/
structure Table where
  entries : List (Nat × Object) := []

namespace Table

/-- The object of a number. -/
def get? (t : Table) (number : Nat) : Option Object := Keyed.get? number t.entries

/-- Stores an object under a number, in the place of the one before it. -/
def insert (t : Table) (number : Nat) (object : Object) : Table :=
  ⟨Keyed.insert number object t.entries⟩

/-- Stores an object under the number of its header. The generation is not kept. -/
def insertIndirect (t : Table) (indirect : Indirect) : Table := t.insert indirect.number indirect.object

def size (t : Table) : Nat := t.entries.length

/-- References resolved in the table. -/
def resolver (t : Table) : Resolver := t.get?

theorem get?_insert (t : Table) (number : Nat) (object : Object) (other : Nat) :
    (t.insert number object).get? other = if number = other then some object else t.get? other :=
  Keyed.get?_insert other

/-- A number stands for the object that was stored under it last. -/
theorem resolver_insertIndirect (t : Table) (indirect : Indirect) (number : Nat) :
    (t.insertIndirect indirect).resolver number =
      if indirect.number = number then some indirect.object else t.resolver number :=
  t.get?_insert indirect.number indirect.object number

end Table
end PdfObjects
