import PdfObjects.Proofs.Atoms

/-! What a written text leaves alone. An object with something behind it leaves what stands before it
alone, and so does the rest of a container: neither goes on with the word before it, nor makes a
reference or a stream of it. -/
namespace PdfObjects

open Lexis (IsWord Ends Closed)

namespace Object

variable {limit : Nat} {gap rest : Bytes}

/-- Elements behind one another, with a gap in front of the first, and the closing bracket. -/
def listed (gap : Bytes) : List Object → Bytes
  | [] => [Byte.closeBracket]
  | first :: later => gap ++ (render first ++ renderElements later)

theorem listed_space (elements : List Object) :
    listed [Byte.space] elements = renderElements elements := by
  cases elements with
  | nil => rfl
  | cons first later => rfl

theorem array_text (elements : List Object) (rest : Bytes) :
    render (.array elements) ++ rest = [Byte.openBracket] ++ (listed [] elements ++ rest) := by
  cases elements with
  | nil => rfl
  | cons first later => simp [render, listed]

theorem dictionary_text (entries : List (Bytes × Object)) (rest : Bytes) :
    render (.dictionary entries) ++ rest =
      [Byte.less, Byte.less] ++ (renderEntries entries ++ rest) := rfl

theorem entries_text (key : Bytes) (value : Object) (later : List (Bytes × Object)) (rest : Bytes) :
    renderEntries ((key, value) :: later) ++ rest = [Byte.space] ++ (Name.render key ++
      ([Byte.space] ++ (value.render ++ (renderEntries later ++ rest)))) := by
  simp [renderEntries, renderEntry]

/-- The bracket that ends an array leaves what stands before it alone. -/
theorem closed_bracket (rest : Bytes) : Closed (Byte.closeBracket :: rest) :=
  Lexis.closed_of_lead (Lexis.ends_cons rfl rest)
    (@IsWord.lead_eq [] _ rest (closeBracket_word rest) rfl) rfl

theorem numeric_letters {b : UInt8} (numeric : Byte.isNumeric b = true) :
    b ≠ 'R'.toUInt8 ∧ b ≠ 's'.toUInt8 := by
  constructor
  · rintro rfl
    cases numeric
  · rintro rfl
    cases numeric

/-- A number does, if it is not followed by the letter of a reference. -/
theorem closed_number {number : Bytes} (isWord : IsWord number rest)
    (numeric : number.all Byte.isNumeric = true)
    (noReference : Lexis.lead rest ≠ some 'R'.toUInt8) :
    Closed ([Byte.space] ++ (number ++ rest)) := by
  have found := isWord.lead_eq Lexis.space_blank
  have letters (b : UInt8) (same : number.head? = some b) :=
    numeric_letters (List.all_eq_true.mp numeric b (List.mem_of_mem_head? same))
  refine ⟨Lexis.ends_space _, ?_, ?_, ?_⟩
  · intro same
    exact (letters _ (found ▸ same)).1 rfl
  · intro same
    exact (letters _ (found ▸ same)).2 rfl
  · intro b _ _
    rwa [isWord.rest_eq Lexis.space_blank]

/-- And so does an object, if what follows it leaves it alone. -/
theorem closed_render {o : Object} (writable : o.Writable limit) (closed : Closed rest) :
    Closed ([Byte.space] ++ (o.render ++ rest)) := by
  cases o with
  | null => exact Lexis.closed_of_word (null_word closed.ends) rfl rfl
  | boolean value =>
    cases value with
    | true => exact Lexis.closed_of_word (boolean_word true closed.ends) rfl rfl
    | false => exact Lexis.closed_of_word (boolean_word false closed.ends) rfl rfl
  | integer n =>
    exact closed_number (signedDecimal_word n closed.ends) (signedDecimal_numeric n)
      closed.notLetter
  | real _ => exact writable.elim
  | stream _ _ => exact writable.elim
  | string string hex =>
    cases hex with
    | true =>
      rw [hexString_text]
      exact Lexis.closed_of_word (angle_word string rest) rfl rfl
    | false =>
      rw [literalString_text]
      exact Lexis.closed_of_word (parenthesis_word _) rfl rfl
  | name name => exact Lexis.closed_of_word (name_word name closed.ends) rfl rfl
  | array elements =>
    rw [array_text]
    exact Lexis.closed_of_word (bracket_word _) rfl rfl
  | dictionary entries =>
    rw [dictionary_text]
    exact Lexis.closed_of_word (Lexis.isWord_pair (.inl rfl)) rfl rfl
  | reference number generation =>
    -- The second number of a reference is no letter, so the first one is taken for itself.
    rw [reference_text]
    refine closed_number (decimal_word number (Lexis.ends_space _)) (decimal_numeric number)
      fun same => ?_
    rw [(decimal_word generation (Lexis.ends_space _)).lead_eq Lexis.space_blank] at same
    have numeric := List.all_eq_true.mp (decimal_numeric generation)
    exact (numeric_letters (numeric _ (List.mem_of_mem_head? same))).1 rfl

/-- The rest of an array that was written leaves its element before it alone, and the rest of a dictionary
the value before it. -/
theorem closed_elements {elements : List Object} (writable : WritableElements limit elements) :
    Closed (renderElements elements ++ rest) := by
  induction elements with
  | nil => exact closed_bracket rest
  | cons first later ih =>
    have closed := closed_render writable.1 (ih writable.2)
    simpa only [renderElements, List.cons_append, List.nil_append, List.append_assoc] using closed

theorem Writable.isStream_eq {o : Object} (writable : o.Writable limit) : o.isStream = false := by
  cases o with
  | stream _ _ => exact writable.elim
  | _ => rfl

theorem closed_entries (entries : List (Bytes × Object)) : Closed (renderEntries entries ++ rest) := by
  cases entries with
  | nil => exact Lexis.closed_of_word (Lexis.isWord_pair (.inr rfl)) rfl rfl
  | cons first later =>
    obtain ⟨key, value⟩ := first
    rw [entries_text]
    exact Lexis.closed_of_word (name_word key (Lexis.ends_space _)) rfl rfl

/-- There are at least as many bytes as elements, and as entries. -/
theorem length_renderElements (elements : List Object) :
    elements.length < (renderElements elements).length := by
  induction elements with
  | nil => simp [renderElements]
  | cons first later ih =>
    simp only [renderElements, List.length_append, List.length_cons]
    omega

theorem length_listed (elements : List Object) (rest : Bytes) :
    elements.length < (listed [] elements ++ rest).length + 1 := by
  cases elements with
  | nil => simp
  | cons first later =>
    have more := length_renderElements later
    simp only [listed, List.length_append, List.length_cons]
    omega

theorem length_renderEntries (entries : List (Bytes × Object)) (rest : Bytes) :
    entries.length < (renderEntries entries ++ rest).length + 1 := by
  induction entries with
  | nil => simp
  | cons first later ih =>
    simp only [renderEntries, List.length_append, List.length_cons] at ih ⊢
    omega

end Object
end PdfObjects
