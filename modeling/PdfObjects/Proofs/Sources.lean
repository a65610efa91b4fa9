import PdfObjects.Machine
import PdfObjects.Proofs.Delivery

/-! Sources that hold the same bytes are alike. Each kind of source has its own way of telling whether a
range lies within it, and a stream has a position that every read moves; but what is answered depends on
the bytes alone, whatever was read before, and so does the error where there is one. The offsets and
lengths are machine words, and no sum of them that is too large is taken for a small one. -/
namespace PdfObjects.Source

/-- The answers to reads of some ranges, one after the other. -/
def answers : Source → List Extent → List (Except RangeError (Array UInt8))
  | _, [] => []
  | source, range :: later =>
    let (answer, after) := source.read range.offset range.length
    answer :: after.answers later

/-- What a read of a range should answer where some bytes are held. -/
def answerOf (held : Bytes) (range : Extent) : Except RangeError (Array UInt8) :=
  if range.offset + range.length ≤ held.length then
    .ok ((held.drop range.offset).take range.length).toArray
  else .error ⟨range.length, range.offset, held.length⟩

/-- Reading in machine words. In memory, the end of the range must be a word and lie within the bytes. For
a stream, the largest word stands in for an end that is none. A window does as memory does, but with its own
length, and hands the rest to what it looks at; there its start is added, with nobody looking at the sum. -/
def machineRead : Source → (offset length : UInt64) → Except RangeError (Array UInt8) × Source
  | .memory bytes, offset, length =>
    match Machine.endWithin bytes.size offset length with
    | some stop => (.ok (bytes.extract offset.toNat stop.toNat), .memory bytes)
    | none => (.error ⟨length.toNat, offset.toNat, bytes.size⟩, .memory bytes)
  | .stream bytes position, offset, length =>
    if bytes.size < (Machine.addUpTo offset length).toNat then
      (.error ⟨length.toNat, offset.toNat, bytes.size⟩, .stream bytes position)
    else
      let position := offset.toNat
      (.ok (bytes.extract position (position + length.toNat)), .stream bytes (position + length.toNat))
  | .window inner start size, offset, length =>
    match Machine.endWithin size offset length with
    | some _ =>
      let (result, inner) := inner.machineRead (UInt64.ofNat start + offset) length
      (result, .window inner start size)
    | none => (.error ⟨length.toNat, offset.toNat, size⟩, .window inner start size)

/-- A range that is given by two words. -/
def rangeOf (words : UInt64 × UInt64) : Extent := ⟨words.1.toNat, words.2.toNat⟩

/-- The answers in machine words. -/
def machineAnswers : Source → List (UInt64 × UInt64) → List (Except RangeError (Array UInt8))
  | _, [] => []
  | source, words :: later =>
    let (answer, after) := source.machineRead words.1 words.2
    answer :: after.machineAnswers later

variable {source : Source} {held : Bytes} {offset length : UInt64}

theorem read_content (source : Source) (offset length : Nat) :
    (source.read offset length).2.content = source.content := by
  induction source generalizing offset with
  | memory bytes => unfold Source.read; split <;> rfl
  | stream bytes position => unfold Source.read; split <;> rfl
  | window inner start size ih =>
    unfold Source.read
    split
    · exact ih (start + offset)
    · rfl

/-- What a source holds is a part of what is behind it. -/
theorem Holds.length_le (holds : source.Holds held) : held.length ≤ source.content.size := by
  induction source generalizing held with
  | memory bytes => subst holds; exact Nat.le_of_eq Array.length_toList
  | stream bytes position => subst holds; exact Nat.le_of_eq Array.length_toList
  | window inner start size ih =>
    obtain ⟨behind, innerHolds, _, rfl⟩ := holds
    have bound := ih innerHolds
    rw [List.length_take, List.length_drop]
    simp only [content]
    omega

/-- A read outside a source is refused, and leaves it as it was. -/
theorem read_outside (source : Source) {offset length : Nat} (outside : source.size < offset + length) :
    source.read offset length = (.error ⟨length, offset, source.size⟩, source) := by
  cases source with
  | memory bytes | stream bytes position | window inner start size =>
    exact if_neg (Nat.not_le_of_lt outside)

/-- Every read answers what the bytes say, and the source goes on holding them. -/
theorem Holds.read_answer (holds : source.Holds held) (offset length : Nat) :
    (source.read offset length).1 = answerOf held ⟨offset, length⟩ ∧
      (source.read offset length).2.Holds held := by
  by_cases inside : offset + length ≤ held.length
  · obtain ⟨after, delivered, afterHolds⟩ := holds.read inside
    rw [delivered, answerOf, if_pos inside]
    exact ⟨rfl, afterHolds⟩
  · have outside : source.size < offset + length := by
      rw [holds.size]
      exact Nat.lt_of_not_le inside
    rw [read_outside source outside, answerOf, if_neg inside, holds.size]
    exact ⟨rfl, holds⟩

/-- So do reads one after the other. -/
theorem Holds.answers_eq (holds : source.Holds held) (ranges : List Extent) :
    source.answers ranges = ranges.map (answerOf held) := by
  induction ranges generalizing source with
  | nil => rfl
  | cons range later ih =>
    obtain ⟨answer, afterHolds⟩ := holds.read_answer range.offset range.length
    rw [Source.answers, List.map_cons, ← ih afterHolds, ← answer]

/-- In machine words everything is read as it is without any limit, if the bytes behind the source do not
take up all words. -/
theorem Holds.machineRead_eq (holds : source.Holds held)
    (small : source.content.size < Machine.largest.toNat) (offset length : UInt64) :
    source.machineRead offset length = source.read offset.toNat length.toNat := by
  induction source generalizing held offset with
  | memory bytes =>
    have few : bytes.size < Machine.largest.toNat := small
    rw [machineRead, Source.read]
    by_cases inside : offset.toNat + length.toNat ≤ bytes.size
    · obtain ⟨stop, found, exact⟩ := Machine.endWithin_inside (Nat.le_of_lt few) inside
      rw [found, if_pos inside, ← exact]
    · rw [Machine.endWithin_outside (Nat.lt_of_not_le inside), if_neg inside]
  | stream bytes position =>
    have few : bytes.size < Machine.largest.toNat := small
    have guard : bytes.size < (Machine.addUpTo offset length).toNat ↔
        ¬ offset.toNat + length.toNat ≤ bytes.size := by
      rw [Machine.addUpTo_toNat]
      omega
    rw [machineRead, Source.read]
    by_cases inside : offset.toNat + length.toNat ≤ bytes.size
    · rw [if_neg (fun beyond => guard.mp beyond inside), if_pos inside]
    · rw [if_pos (guard.mpr inside), if_neg inside]
  | window inner start size ih =>
    obtain ⟨behind, innerHolds, within, rfl⟩ := holds
    have bound := innerHolds.length_le
    have few : inner.content.size < Machine.largest.toNat := small
    rw [machineRead, Source.read]
    by_cases inside : offset.toNat + length.toNat ≤ size
    · obtain ⟨stop, found, _⟩ := Machine.endWithin_inside (by omega) inside
      -- The place in what the window looks at lies within it, so the sum has not wrapped.
      have place : (UInt64.ofNat start + offset).toNat = start + offset.toNat := by
        rw [UInt64.toNat_add, Machine.toNat_ofNat (by omega)]
        exact Nat.mod_eq_of_lt (by have top : Machine.largest.toNat = 2 ^ 64 - 1 := rfl; omega)
      rw [found, if_pos inside, ← place, ih innerHolds few]
    · rw [Machine.endWithin_outside (Nat.lt_of_not_le inside), if_neg inside]

theorem Holds.machineAnswers_eq (holds : source.Holds held)
    (small : source.content.size < Machine.largest.toNat) (reads : List (UInt64 × UInt64)) :
    source.machineAnswers reads = source.answers (reads.map rangeOf) := by
  induction reads generalizing source with
  | nil => rfl
  | cons words later ih =>
    have read := holds.machineRead_eq small words.1 words.2
    have after := (holds.read_answer words.1.toNat words.2.toNat).2
    have kept := source.read_content words.1.toNat words.2.toNat
    rw [machineAnswers, read, List.map_cons, Source.answers]
    exact congrArg (_ :: ·) (ih after (by rwa [kept]))

section Windows

variable {bytes : Array UInt8} {base : Source} {start size : Nat}

/-- A source that shows all of some bytes: they lie in memory, or behind a stream that stands somewhere. -/
inductive Shows (bytes : Array UInt8) : Source → Prop where
  | memory : Shows bytes (.memory bytes)
  | stream (position : Nat) : Shows bytes (.stream bytes position)

theorem Shows.holds (shows : Shows bytes base) : base.Holds bytes.toList := by
  cases shows <;> rfl

theorem Shows.content (shows : Shows bytes base) : base.content = bytes := by
  cases shows <;> rfl

theorem Holds.window (holds : base.Holds held) (within : start + size ≤ held.length) :
    (window base start size).Holds ((held.drop start).take size) := ⟨held, holds, within, rfl⟩

theorem holds_extract (bytes : Array UInt8) (start size : Nat) :
    (memory (bytes.extract start (start + size))).Holds ((bytes.toList.drop start).take size) := by
  have same : (bytes.extract start (start + size)).toList = bytes.toList.extract start (start + size) :=
    Array.toList_extract
  rw [List.extract_eq_take_drop, Nat.add_sub_cancel_left] at same
  exact same

/-- What is answered depends on the bytes alone. -/
theorem Holds.alike {other : Source} (holds : source.Holds held) (otherHolds : other.Holds held)
    (ranges : List Extent) : source.answers ranges = other.answers ranges := by
  rw [holds.answers_eq, otherHolds.answers_eq]

/-- All sources of the same bytes agree. Take any reads, failing ones among them. Bytes in memory and a
stream of them, wherever it stands, give the same answers, errors included. A window of either gives those
of the bytes that it shows. And a window of a window gives those of the one window that shows the same.
What is answered in machine words is what is answered without limits, for any words; only the bytes
themselves must not take up all words, as no bytes in memory do. -/
theorem Shows.answers_agree (shows : Shows bytes base) :
    (∀ ranges, base.answers ranges = (Source.memory bytes).answers ranges) ∧
    (∀ start size ranges, start + size ≤ bytes.size →
      (window base start size).answers ranges =
        (Source.memory (bytes.extract start (start + size))).answers ranges) ∧
    (∀ start size start' size' ranges, start + size ≤ bytes.size → start' + size' ≤ size →
      (window (window base start size) start' size').answers ranges =
        (window base (start + start') size').answers ranges) ∧
    (∀ source held reads, Holds source held → source.content.size < Machine.largest.toNat →
      source.machineAnswers reads = source.answers (reads.map rangeOf)) := by
  have length : bytes.toList.length = bytes.size := Array.length_toList
  have all : (Source.memory bytes).Holds bytes.toList := rfl
  refine ⟨shows.holds.alike all, ?_, ?_, ?_⟩
  · intro start size ranges within
    exact (shows.holds.window (length.symm ▸ within)).alike (holds_extract bytes start size) ranges
  · intro start size start' size' ranges within inner
    have shown : ((bytes.toList.drop start).take size).length = size := by
      rw [List.length_take, List.length_drop]
      omega
    have nested := (shows.holds.window (length.symm ▸ within)).window (shown.symm ▸ inner)
    rw [range_within _ _ _ _ _ inner] at nested
    exact nested.alike (shows.holds.window (by omega)) ranges
  · exact fun source held reads holds small => holds.machineAnswers_eq small reads

end Windows

/-- Nine bytes behind a stream that stands at the seventh of them. -/
def digitStream : Source := .stream (Bytes.ofAscii "123456789".toList).toArray 6

/-- A window of a window of them, read in its middle, outside, at an offset that has no end, and at its end,
where nothing is left to read. -/
theorem digitStream_agrees :
    (Shows (Bytes.ofAscii "123456789".toList).toArray digitStream ∧ 2 + 5 ≤ 9 ∧ 1 + 3 ≤ 5) ∧
      (window (window digitStream 2 5) 1 3).machineAnswers
          [(1, 2), (2, 2), (Machine.largest, 2), (0, 1), (3, 0), (4, 0)] =
        [.ok (Bytes.ofAscii ['5', '6']).toArray, .error ⟨2, 2, 3⟩,
          .error ⟨2, 18446744073709551615, 3⟩, .ok (Bytes.ofAscii ['4']).toArray, .ok #[],
          .error ⟨0, 4, 3⟩] := by
  have shows : Shows (Bytes.ofAscii "123456789".toList).toArray digitStream := .stream 6
  obtain ⟨_, windows, nested, words⟩ := shows.answers_agree
  have outer : (window digitStream 2 5).Holds _ := shows.holds.window (by decide)
  have inner : (window (window digitStream 2 5) 1 3).Holds _ := outer.window (by decide)
  refine ⟨⟨shows, by decide, by decide⟩, (words _ _ _ inner (by decide)).trans ?_⟩
  exact (nested 2 5 1 3 _ (by decide) (by decide)).trans ((windows 3 3 _ (by decide)).trans rfl)

end PdfObjects.Source
