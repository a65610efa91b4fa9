import PdfObjects.Proofs.Loading

/-! What is asked for, and why. Every request covers with its blocks a range of which some byte has not
arrived, the padding behind the range included; and whenever a problem is raised, there is a request. -/
namespace PdfObjects

namespace Gate

/-- A gate that holds a document back until it has arrived, byte by byte. -/
structure Watched (document : Bytes) (arrived : Nat → Bool) (g : Gate) : Prop where
  source : g.source.Holds document
  availability : g.availability = some (Availability.ofBytes arrived)
  complete : g.complete = true → ∀ index, index < document.length → arrived index = true

/-- Why an extent may be asked for: it is what a range comes to in blocks, and some byte of the range,
or of the padding behind it, has not arrived. -/
def Cause (size : Nat) (arrived : Nat → Bool) (extent : Extent) : Prop :=
  ∃ offset length index, 0 < length ∧ blocks size offset length = some extent ∧ offset ≤ index ∧
    index < min (offset + length + padding) size ∧ arrived index = false

variable {document : Bytes} {arrived : Nat → Bool} {g : Gate} {offset length : Nat}

/-- A range of at least a byte that starts inside the document has blocks. They start no later than the
range, reach at least as far, and stay inside the document. -/
theorem blocks_spec (size offset : Nat) (positive : 0 < length) (inside : offset < size) :
    ∃ extent, blocks size offset length = some extent ∧ extent.offset ≤ offset ∧
      min (offset + length) size ≤ extent.offset + extent.length ∧
      extent.offset + extent.length ≤ size := by
  have nonempty : offset / blockSize * blockSize <
      min ((offset + length + (blockSize - 1)) / blockSize * blockSize) size := by
    simp only [blockSize]
    omega
  refine ⟨_, by simp only [blocks]; rw [if_pos ⟨positive, nonempty⟩], ?_⟩
  simp only [blockSize] at nonempty ⊢
  omega

theorem Watched.available (watched : g.Watched document arrived) (inside : offset + length ≤ document.length) :
    g.isAvailable offset length = true ↔
      ∀ index, offset ≤ index → index < offset + length → arrived index = true := by
  cases complete : g.complete with
  | true =>
    simp only [isAvailable, complete, Bool.true_or, true_iff]
    exact fun index _ before => watched.complete complete index (by omega)
  | false =>
    simp only [isAvailable, complete, watched.availability, Bool.false_or, Availability.ofBytes,
      List.all_eq_true, List.mem_range'_1]
    exact ⟨fun all index behind before => all index ⟨behind, before⟩,
      fun all index within => all index within.1 within.2⟩

/-- A range that is not available lacks a byte. -/
theorem Watched.lacks (watched : g.Watched document arrived) (inside : offset + length ≤ document.length)
    (missing : g.isAvailable offset length = false) :
    ∃ index, offset ≤ index ∧ index < offset + length ∧ arrived index = false := by
  refine Classical.byContradiction fun none => ?_
  have all : g.isAvailable offset length = true := by
    rw [watched.available inside]
    intro index behind before
    cases present : arrived index with
    | true => rfl
    | false => exact absurd ⟨index, behind, before, present⟩ none
  rw [missing] at all
  cases all

/-- What a request adds. -/
theorem Watched.request (watched : g.Watched document arrived) {extent : Extent}
    (asked : blocks document.length offset length = some extent) :
    (g.request offset length).requests = g.requests ++ [extent] := by
  simp [Gate.request, watched.availability, Gate.size, watched.source.size, asked]

/-- A step at a gate that is watched: it adds requests that have a cause, and if it raises a problem,
it adds at least one. -/
private structure Asks (document : Bytes) (arrived : Nat → Bool) (g after : Gate) : Prop where
  watched : after.Watched document arrived
  asked : ∃ extents, after.requests = g.requests ++ extents ∧
    (∀ extent ∈ extents, Cause document.length arrived extent) ∧
    (after.problems.any = true → g.problems.any = true ∨ extents ≠ [])

private theorem asks_nothing (watched : g.Watched document arrived) : Asks document arrived g g :=
  ⟨watched, [], by simp, by simp, .inl⟩

private theorem asks_request (watched : g.Watched document arrived) {index : Nat} (positive : 0 < length)
    (behind : offset ≤ index) (before : index < min (offset + length + padding) document.length)
    (missing : arrived index = false) : Asks document arrived g (g.request offset length) := by
  obtain ⟨extent, asked, _⟩ :=
    blocks_spec document.length offset positive (by omega)
  refine ⟨⟨watched.source, watched.availability, watched.complete⟩, [extent],
    watched.request asked, ?_, fun _ => .inr (by simp)⟩
  rintro _ (_ | ⟨_, ⟨⟩⟩)
  exact ⟨offset, length, index, positive, asked, behind, before, missing⟩

private theorem asks_read (watched : g.Watched document arrived) (offset length : Nat) :
    Asks document arrived g (g.read offset length).2 := by
  have size : g.size = document.length := watched.source.size
  by_cases outside : g.size < offset + length
  · have same : (g.read offset length).2 = g := by simp [Gate.read, outside]
    rw [same]
    exact asks_nothing watched
  · have inside : offset + length ≤ document.length := by omega
    cases available : g.isAvailable offset length with
    | true =>
      obtain ⟨after, delivered, holds⟩ := watched.source.read inside
      have moved : (g.read offset length).2 = { g with source := after } := by
        simp [Gate.read, outside, available, delivered]
      rw [moved]
      exact ⟨⟨holds, watched.availability, watched.complete⟩, [], by simp, by simp, .inl⟩
    | false =>
      obtain ⟨index, behind, before, missing⟩ := watched.lacks inside available
      have failed : (g.read offset length).2 = g.request offset length := by
        simp [Gate.read, outside, available]
      rw [failed]
      exact asks_request watched (by omega) behind (by omega) missing

private theorem asks_check (watched : g.Watched document arrived) (offset : Nat) (positive : 0 < length) :
    Asks document arrived g (g.check offset length).2 := by
  have size : g.size = document.length := watched.source.size
  rcases g.check_cases offset length with passed | ⟨inside, unavailable, failed⟩
  · rw [passed]
    exact asks_nothing watched
  · obtain ⟨index, behind, before, missing⟩ := watched.lacks (by omega) unavailable
    rw [failed]
    exact asks_request watched positive behind (by omega) missing

private theorem asks_evolution : Evolution fun g after =>
    g.Watched document arrived → Asks document arrived g after where
  refl _ := asks_nothing
  trans g h k first rest watched := by
    obtain ⟨between, early, earlier, causes, raised⟩ := first watched
    obtain ⟨last, late, later, moreCauses, raisedLater⟩ := rest between
    refine ⟨last, early ++ late, by rw [later, earlier, List.append_assoc], ?_, ?_⟩
    · intro extent member
      rcases List.mem_append.mp member with first | second
      · exact causes extent first
      · exact moreCauses extent second
    · intro problems
      rcases raisedLater problems with before | some
      · exact (raised before).imp id fun nonempty => List.append_ne_nil_of_left_ne_nil nonempty _
      · exact .inr (List.append_ne_nil_of_right_ne_nil _ some)
  read _ offset length watched := asks_read watched offset length
  check _ offset _ positive watched := asks_check watched offset positive
  session g after inside watched := by
    obtain ⟨stays, extents, added, causes, raised⟩ :=
      inside ⟨watched.source, watched.availability, watched.complete⟩
    refine ⟨⟨stays.source, stays.availability, stays.complete⟩, extents, added, causes, ?_⟩
    intro problems
    rw [restore, Problems.any_merge, Bool.or_eq_true] at problems
    rcases problems with inner | earlier
    · refine .inr ((raised inner).resolve_left ?_)
      simp [reset, Problems.any]
    · exact .inl earlier

end Gate

namespace Reader

variable {document : Bytes} {arrived : Nat → Bool} {r : Reader}

/-- What a run over a document that is arriving asks for. -/
theorem watched_run (watched : r.gate.Watched document arrived) (program : Scan α) :
    (program.run r).2.gate.Watched document arrived ∧
    ∃ extents, (program.run r).2.gate.requests = r.gate.requests ++ extents ∧
      (∀ extent ∈ extents, Gate.Cause document.length arrived extent) ∧
      ((program.run r).2.gate.problems.any = true → r.gate.problems.any = true ∨ extents ≠ []) :=
  have asks := Gate.asks_evolution.reader.run program r watched
  ⟨asks.watched, asks.asked⟩

end Reader
end PdfObjects
