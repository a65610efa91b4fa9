import PdfObjects.Gate

/-! What sources and gates deliver. A source that holds a byte string delivers every range within it,
whatever was read before. A gate may stand in front of a source of which only some bytes are the
document's own; it is faithful to the document if the ranges it lets through are. -/
namespace PdfObjects

/-- A source that has exactly these bytes to deliver. A window has to lie within what it looks at. -/
def Source.Holds : Source → Bytes → Prop
  | .memory bytes, held => bytes.toList = held
  | .stream bytes _, held => bytes.toList = held
  | .window inner start length, held =>
    ∃ behind, inner.Holds behind ∧ start + length ≤ behind.length ∧
      (behind.drop start).take length = held

namespace Source

theorem Holds.size {source : Source} {held : Bytes} (holds : source.Holds held) :
    source.size = held.length := by
  cases source with
  | memory bytes => subst holds; rfl
  | stream bytes position => subst holds; rfl
  | window inner start length =>
    obtain ⟨behind, _, inside, rfl⟩ := holds
    simp only [Source.size, List.length_take, List.length_drop]
    omega

private theorem extract_range (bytes : Array UInt8) (offset length : Nat) :
    bytes.extract offset (offset + length) = ((bytes.toList.drop offset).take length).toArray := by
  apply Array.toList_inj.mp
  simp [List.extract_eq_take_drop]

/-- A range of a range is a range. -/
theorem range_within (bytes : Bytes) (start offset size length : Nat) (inside : offset + length ≤ size) :
    (((bytes.drop start).take size).drop offset).take length =
      (bytes.drop (start + offset)).take length := by
  rw [List.drop_take, List.take_take, List.drop_drop, Nat.min_eq_left (by omega)]

/-- Every range within a source is delivered, and the source goes on holding what it held. -/
theorem Holds.read {source : Source} {held : Bytes} {offset length : Nat} (holds : source.Holds held)
    (inside : offset + length ≤ held.length) :
    ∃ after : Source, source.read offset length =
      (.ok ((held.drop offset).take length).toArray, after) ∧ after.Holds held := by
  induction source generalizing held offset with
  | memory bytes =>
    subst holds
    rw [Array.length_toList] at inside
    exact ⟨.memory bytes, by rw [Source.read, if_pos inside, extract_range], rfl⟩
  | stream bytes position =>
    subst holds
    rw [Array.length_toList] at inside
    exact ⟨.stream bytes (offset + length), by rw [Source.read, if_pos inside, extract_range], rfl⟩
  | window inner start size ih =>
    have whole := holds.size
    obtain ⟨behind, innerHolds, within, rfl⟩ := holds
    rw [← whole] at inside
    obtain ⟨after, delivered, afterHolds⟩ :=
      @ih behind (start + offset) innerHolds (by simp only [Source.size] at inside; omega)
    refine ⟨.window after start size, ?_, behind, afterHolds, within, rfl⟩
    simp only [Source.size] at inside
    rw [Source.read, if_pos inside, delivered, range_within _ _ _ _ _ inside]

end Source

namespace Gate

/-- A gate that is faithful to a document: its source has the size of the document, and where ranges count
as available the source holds the bytes of the document. Elsewhere the source may hold anything. -/
def Faithful (document : Bytes) (g : Gate) : Prop :=
  ∃ held, g.source.Holds held ∧ held.length = document.length ∧
    ∀ offset length, offset + length ≤ document.length → g.isAvailable offset length = true →
      (held.drop offset).take length = (document.drop offset).take length

/-- A gate that lets every range of a document through. -/
def Opens (document : Bytes) (g : Gate) : Prop :=
  ∀ offset length, offset + length ≤ document.length → g.isAvailable offset length = true

/-- A gate behind which the whole document is there to be read. -/
structure Whole (document : Bytes) (g : Gate) : Prop where
  source : g.source.Holds document
  opens : g.Opens document

variable {document : Bytes} {g : Gate} {offset length : Nat}

theorem Whole.faithful (whole : g.Whole document) : g.Faithful document :=
  ⟨document, whole.source, rfl, fun _ _ _ _ => rfl⟩

/-- Nothing restrains a gate that was never told what has arrived. -/
theorem whole_unwatched (source : g.source.Holds document) (unwatched : g.availability = none) :
    g.Whole document :=
  ⟨source, fun _ _ _ => by simp [isAvailable, unwatched]⟩

theorem Faithful.size (faithful : g.Faithful document) : g.size = document.length := by
  obtain ⟨held, holds, same, _⟩ := faithful
  rw [Gate.size, holds.size, same]

/-- Everything that a read can do: fail without a trace outside the document, fail and ask for what is
missing, or deliver the bytes of the document. -/
theorem Faithful.read_cases (faithful : g.Faithful document) (offset length : Nat) :
    (document.length < offset + length ∧ g.read offset length = (none, g)) ∨
    (offset + length ≤ document.length ∧ g.isAvailable offset length = false ∧
      g.read offset length = (none, g.request offset length)) ∨
    (offset + length ≤ document.length ∧ g.isAvailable offset length = true ∧
      ∃ after, { g with source := after }.Faithful document ∧ g.read offset length =
        (some ((document.drop offset).take length).toArray, { g with source := after })) := by
  have size := faithful.size
  by_cases inside : offset + length ≤ document.length
  · have within : ¬ g.size < offset + length := by omega
    cases available : g.isAvailable offset length with
    | false => exact .inr (.inl ⟨inside, rfl, by simp [Gate.read, within, available]⟩)
    | true =>
      obtain ⟨held, holds, same, agree⟩ := faithful
      obtain ⟨after, delivered, afterHolds⟩ := holds.read (same ▸ inside)
      refine .inr (.inr ⟨inside, rfl, after, ⟨held, afterHolds, same, agree⟩, ?_⟩)
      simp [Gate.read, within, available, delivered, agree offset length inside available]
  · exact .inl ⟨by omega, by simp [Gate.read, size, Nat.lt_of_not_le inside]⟩

/-- Everything that a check can do: pass, or ask for what is missing. -/
theorem check_cases (g : Gate) (offset length : Nat) :
    g.check offset length = (true, g) ∨
    (offset ≤ g.size ∧
      g.isAvailable offset (min (offset + length + padding) g.size - offset) = false ∧
      g.check offset length = (false, g.request offset length)) := by
  by_cases outside : g.size < offset
  · exact .inl (by simp [Gate.check, outside])
  · cases available : g.isAvailable offset (min (offset + length + padding) g.size - offset) with
    | false => exact .inr ⟨by omega, rfl, by simp [Gate.check, outside, available]⟩
    | true => exact .inl (by simp [Gate.check, outside, available])

/-- A read of a whole document at most moves the source. -/
theorem Whole.read (whole : g.Whole document) (offset length : Nat) :
    ∃ after : Source, after.Holds document ∧ (g.read offset length).2 = { g with source := after } := by
  by_cases outside : g.size < offset + length
  · exact ⟨g.source, whole.source, by simp [Gate.read, outside]⟩
  · have inside : offset + length ≤ document.length := by
      rw [← whole.faithful.size]
      omega
    obtain ⟨after, delivered, holds⟩ := whole.source.read inside
    refine ⟨after, holds, ?_⟩
    simp [Gate.read, outside, whole.opens offset length inside, delivered]

/-- A check of a whole document passes. -/
theorem Whole.check (whole : g.Whole document) (offset length : Nat) :
    g.check offset length = (true, g) := by
  have size := whole.faithful.size
  rcases g.check_cases offset length with passed | ⟨inside, missing, _⟩
  · exact passed
  · rw [whole.opens _ _ (by omega)] at missing
    cases missing

theorem request_unavailable (g : Gate) (offset length : Nat) :
    (g.request offset length).problems.any = true := by simp [Gate.request, Problems.any]

end Gate
end PdfObjects
