import PdfObjects.Object.Shape

/-! Well-formed objects. Writers of a document may put anything in it, but some things mean nothing: a
stream that is not an object of its own, an entry that is null or has no key, a number or a name that no
word can hold. An object is well formed if nothing of the kind is in it at any depth. -/
namespace PdfObjects

/-- Whether a name has no NUL, and is shorter than what is kept of a word, which starts with a slash. -/
def Name.Kept (limit : Nat) (name : Bytes) : Prop := 0 ∉ name ∧ name.length + 1 ≤ limit

instance (limit : Nat) (name : Bytes) : Decidable (Name.Kept limit name) :=
  inferInstanceAs (Decidable (_ ∧ _))

namespace Object

/-- An entry that a dictionary may have. -/
structure SoundEntry (limit : Nat) (entry : Bytes × Object) : Prop where
  named : entry.1 ≠ []
  kept : Name.Kept limit entry.1
  direct : entry.2.isStream = false
  present : entry.2.isNull = false

/-- What makes an object sound, as far as it can be seen without looking into its parts: the words are
kept up to a limit, and the document has a size. -/
def Sound (limit size : Nat) : Object → Prop
  | .integer n => Numeral.Fits n
  | .name bytes => Name.Kept limit bytes
  | .array elements => ∀ element ∈ elements, element.isStream = false
  | .dictionary entries => ∀ entry ∈ entries, SoundEntry limit entry
  | .stream entries payload => (∀ entry ∈ entries, SoundEntry limit entry) ∧ payload.length ≤ size
  | .reference number generation =>
    0 < number ∧ number < Numeral.maxUnsigned ∧ generation ≤ 0xFFFF
  | .null | .boolean _ | .real _ | .string .. => True

/-- An object that is sound, as all its parts are, and theirs. -/
inductive WellFormed (limit size : Nat) : Object → Prop where
  | intro (sound : Sound limit size o) (parts : ∀ part ∈ o.parts, WellFormed limit size part) :
    WellFormed limit size o

variable {limit size levels : Nat}

/-- An object without parts is well formed if it is sound. -/
theorem wellFormed_leaf {o : Object} (sound : Sound limit size o) (leaf : o.parts = []) :
    WellFormed limit size o := by
  refine .intro sound fun part inside => ?_
  rw [leaf] at inside
  cases inside

theorem heightElements_le {elements : List Object} :
    heightElements elements ≤ levels ↔ ∀ element ∈ elements, element.height ≤ levels := by
  induction elements with
  | nil => simp [heightElements]
  | cons element rest ih => rw [heightElements, Nat.max_le, ih, List.forall_mem_cons]

theorem heightEntries_le {entries : List (Bytes × Object)} :
    heightEntries entries ≤ levels ↔ ∀ entry ∈ entries, entry.2.height ≤ levels := by
  induction entries with
  | nil => simp [heightEntries]
  | cons entry rest ih =>
    obtain ⟨key, value⟩ := entry
    rw [heightEntries, heightEntry, Nat.max_le, ih, List.forall_mem_cons]

theorem height_pos (o : Object) : 0 < o.height := by
  cases o <;> simp only [height] <;> omega

/-- Where an object can stand that is well formed and nests no deeper than some levels. -/
structure Within (limit size levels : Nat) (o : Object) : Prop where
  wellFormed : WellFormed limit size o
  shallow : o.height ≤ levels

/-- An array takes a level more than its elements, and one for its closing bracket. -/
theorem within_array {elements : List Object} (positive : 0 < levels)
    (direct : ∀ element ∈ elements, element.isStream = false)
    (within : ∀ element ∈ elements, Within limit size levels element) :
    Within limit size (levels + 1) (.array elements) := by
  refine ⟨.intro direct fun part inside => (within part inside).wellFormed, ?_⟩
  have shallow : heightElements elements ≤ levels :=
    heightElements_le.mpr fun element inside => (within element inside).shallow
  simp only [height]
  omega

/-- The parts of a dictionary. -/
theorem parts_within {entries : Dictionary}
    (within : ∀ entry ∈ entries, Within limit size levels entry.2) :
    (∀ part ∈ entries.map Prod.snd, WellFormed limit size part) ∧ heightEntries entries ≤ levels := by
  constructor
  · intro part inside
    obtain ⟨entry, member, rfl⟩ := List.mem_map.mp inside
    exact (within entry member).wellFormed
  · exact heightEntries_le.mpr fun entry member => (within entry member).shallow

theorem within_dictionary {entries : Dictionary}
    (sound : ∀ entry ∈ entries, SoundEntry limit entry)
    (within : ∀ entry ∈ entries, Within limit size levels entry.2) :
    Within limit size (levels + 1) (.dictionary entries) := by
  obtain ⟨parts, shallow⟩ := parts_within within
  exact ⟨.intro sound parts, Nat.succ_le_succ shallow⟩

theorem within_stream {entries : Dictionary} {payload : Bytes}
    (sound : ∀ entry ∈ entries, SoundEntry limit entry)
    (within : ∀ entry ∈ entries, Within limit size levels entry.2) (fits : payload.length ≤ size) :
    Within limit size (levels + 1) (.stream entries payload) := by
  obtain ⟨parts, shallow⟩ := parts_within within
  exact ⟨.intro ⟨sound, fits⟩ parts, Nat.succ_le_succ shallow⟩

end Object
end PdfObjects
