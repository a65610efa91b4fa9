import PdfObjects.Machine
import PdfObjects.Proofs.Asking
import PdfObjects.Proofs.Cursor
import PdfObjects.Proofs.Sticky

/-! What requests look like. Whoever delivers a document does so in blocks, so what is asked for is made of
whole blocks, and of no bytes behind the end of the document. It covers the range that was wanted; and the
offsets and lengths, which are machine words, never leave the words on the way to it. -/
namespace PdfObjects

open Reader (Step)

/-- An extent of a document that can be asked for: some whole blocks, of which the last may be cut short by
the end of the document. -/
structure Extent.InBlocks (size : Nat) (extent : Extent) : Prop where
  nonempty : 0 < extent.length
  starts : Gate.blockSize ∣ extent.offset
  inside : extent.offset + extent.length ≤ size
  ends : Gate.blockSize ∣ extent.offset + extent.length ∨ extent.offset + extent.length = size

/-- Whether an extent has all bytes from one place up to another. -/
def Extent.Covers (extent : Extent) (first stop : Nat) : Prop :=
  extent.offset ≤ first ∧ stop ≤ extent.offset + extent.length

namespace Gate

/-- All requests so far are in blocks. -/
def AsksInBlocks (g : Gate) : Prop := ∀ extent ∈ g.requests, extent.InBlocks g.size

/-- Nothing is ever missing of an empty range. -/
def SparesEmpty (g : Gate) : Prop := ∀ offset, g.isAvailable offset 0 = true

/-- The gate after it has asked for one more extent, because some bytes were missing. -/
def asking (g : Gate) (extent : Extent) : Gate :=
  { g with problems := { g.problems with unavailable := true }, requests := g.requests ++ [extent] }

variable {g : Gate} {size offset length : Nat} {extent : Extent}

theorem blocks_inBlocks (asked : blocks size offset length = some extent) : extent.InBlocks size := by
  unfold blocks at asked
  dsimp only at asked
  split at asked
  · rename_i nonempty
    cases asked
    simp only [blockSize] at nonempty ⊢
    have starts : 512 ∣ offset / 512 * 512 := Nat.dvd_mul_left 512 (offset / 512)
    have ends : 512 ∣ (offset + length + (512 - 1)) / 512 * 512 :=
      Nat.dvd_mul_left 512 ((offset + length + (512 - 1)) / 512)
    refine ⟨by dsimp only; omega, starts, by dsimp only; omega, ?_⟩
    dsimp only [blockSize]
    rw [Nat.add_sub_cancel' (Nat.le_of_lt nonempty.2)]
    rcases Nat.le_total ((offset + length + (512 - 1)) / 512 * 512) size with whole | cut
    · rw [Nat.min_eq_left whole]
      exact .inl ends
    · exact .inr (Nat.min_eq_right cut)
  · cases asked

/-- A request asks for nothing, or for some blocks. -/
theorem request_inBlocks (orderly : g.AsksInBlocks) (offset length : Nat) :
    (g.request offset length).AsksInBlocks := by
  intro extent member
  change extent ∈ g.requests ++ _ at member
  rcases List.mem_append.mp member with earlier | new
  · exact orderly extent earlier
  · split at new
    · rename_i asked
      rw [List.mem_singleton.mp new]
      exact blocks_inBlocks asked
    · cases new

/-- Where somebody listens and there are bytes to ask for, a request asks once. -/
theorem request_asks (listening : g.availability.isSome = true) (positive : 0 < length)
    (inside : offset < g.size) : ∃ extent, g.request offset length = g.asking extent ∧
      extent.Covers offset (min (offset + length) g.size) := by
  obtain ⟨arrived, listens⟩ := Option.isSome_iff_exists.mp listening
  obtain ⟨extent, asked, starts, reaches, _⟩ := blocks_spec g.size offset positive inside
  refine ⟨extent, ?_, starts, reaches⟩
  simp only [request, asking, listens, asked]

/-- What is not available is so because somebody says so. -/
theorem listening_of_missing (missing : g.isAvailable offset length = false) :
    g.availability.isSome = true := by
  cases listens : g.availability with
  | none => simp [isAvailable, listens] at missing
  | some arrived => rfl

/-- A read inside the document that finds bytes missing asks for them, once. -/
theorem read_missing (spares : g.SparesEmpty) (inside : offset + length ≤ g.size)
    (missing : g.isAvailable offset length = false) :
    ∃ extent, g.read offset length = (none, g.asking extent) ∧
      extent.Covers offset (offset + length) := by
  have positive : 0 < length := by
    refine Nat.pos_of_ne_zero fun empty => ?_
    rw [empty, spares offset] at missing
    cases missing
  have within : offset < g.size := by omega
  obtain ⟨extent, asks, covers⟩ := request_asks (listening_of_missing missing) positive within
  rw [Nat.min_eq_left inside] at covers
  refine ⟨extent, ?_, covers⟩
  rw [Gate.read, if_neg (Nat.not_lt_of_le inside), missing, asks]
  rfl

/-- So does a check of at least a byte, if it fails. -/
theorem check_missing (spares : g.SparesEmpty) (positive : 0 < length)
    (failed : (g.check offset length).1 = false) :
    ∃ extent, (g.check offset length).2 = g.asking extent ∧
      extent.Covers offset (min (offset + length) g.size) := by
  rcases g.check_cases offset length with passed | ⟨behind, missing, asked⟩
  · rw [passed] at failed
    cases failed
  · have inside : offset < g.size := by
      refine Nat.lt_of_le_of_ne behind fun last => ?_
      have empty : min (offset + length + padding) g.size - offset = 0 := by omega
      rw [empty, spares offset] at missing
      cases missing
    obtain ⟨extent, asks, covers⟩ := request_asks (listening_of_missing missing) positive inside
    exact ⟨extent, by rw [asked, asks], covers⟩

/-- A read outside the document comes to nothing, whatever the source has: it is not even tried. -/
theorem read_outside (outside : g.size < offset + length) (source : Source) (same : source.size = g.size) :
    { g with source }.read offset length = (none, { g with source }) := by
  have beyond : Gate.size { g with source } < offset + length := by
    change source.size < offset + length
    rwa [same]
  rw [Gate.read, if_pos beyond]

theorem read_inBlocks (orderly : g.AsksInBlocks) (offset length : Nat) :
    (g.read offset length).2.AsksInBlocks := by
  have size := g.source.read_size offset length
  unfold Gate.read
  split
  · exact orderly
  · split
    · exact request_inBlocks orderly offset length
    · split
      · rename_i read
        rw [read] at size
        exact fun extent member => (congrArg extent.InBlocks size).mpr (orderly extent member)
      · rename_i read
        rw [read] at size
        refine request_inBlocks (fun extent member => ?_) offset length
        exact (congrArg extent.InBlocks size).mpr (orderly extent member)

theorem check_inBlocks (orderly : g.AsksInBlocks) (offset length : Nat) :
    (g.check offset length).2.AsksInBlocks := by
  rcases g.check_cases offset length with passed | ⟨_, _, asked⟩
  · rw [passed]
    exact orderly
  · rw [asked]
    exact request_inBlocks orderly offset length

theorem checkComplete_inBlocks (orderly : g.AsksInBlocks) : g.checkComplete.2.AsksInBlocks := by
  unfold checkComplete
  split
  · exact orderly
  · split
    · exact orderly
    · split
      · exact orderly
      · exact request_inBlocks orderly 0 g.size

theorem inBlocks_evolution : Evolution fun g after => g.AsksInBlocks → after.AsksInBlocks where
  refl _ := id
  trans _ _ _ first rest := rest ∘ first
  read _ offset length orderly := read_inBlocks orderly offset length
  check _ offset length _ orderly := check_inBlocks orderly offset length
  session _ _ inside := inside

section Words

/-- The blocks of a range, computed in machine words. There is no result if a step leaves the words. -/
def machineBlocks (size offset length : UInt64) : Option (Option Extent) := do
  let first ← Machine.mul? (offset / 512) 512
  let count ← Machine.divUp? (Machine.addUpTo offset length) 512
  let last := min (Machine.mulUpTo count 512) size
  pure (if 0 < length ∧ first < last then some ⟨first.toNat, (last - first).toNat⟩ else none)

/-- Asking for a range in machine words. -/
def machineRequest (g : Gate) (offset length : UInt64) : Option Gate := do
  let extent ← machineBlocks (UInt64.ofNat g.size) offset length
  let asked :=
    match g.availability, extent with
    | some _, some extent => [extent]
    | _, _ => []
  pure { g with problems := { g.problems with unavailable := true }, requests := g.requests ++ asked }

/-- Reading a range in machine words: its end must be a word. -/
def machineRead (g : Gate) (offset length : UInt64) : Option (Option (Array UInt8) × Gate) :=
  match Machine.endWithin g.size offset length with
  | none => some (none, g)
  | some _ =>
    if !g.isAvailable offset.toNat length.toNat then (g.machineRequest offset length).map (none, ·)
    else
      match g.source.read offset.toNat length.toNat with
      | (.ok bytes, source) => some (some bytes, { g with source })
      | (.error _, source) =>
        let failed := { g with source, problems := { g.problems with readError := true } }
        (failed.machineRequest offset length).map (none, ·)

/-- Checking a range in machine words. Where its end, or that of the padding, is none, the largest word
stands in for it. -/
def machineCheck (g : Gate) (offset length : UInt64) : Option (Bool × Gate) :=
  let size := UInt64.ofNat g.size
  if size < offset then some (true, g)
  else
    let stop := min (Machine.addUpTo (Machine.addUpTo offset length) 256) size
    if g.isAvailable offset.toNat (stop - offset).toNat then some (true, g)
    else (g.machineRequest offset length).map (false, ·)

/-- Checking the whole document in machine words. -/
def machineCheckComplete (g : Gate) : Option (Bool × Gate) :=
  match g.availability with
  | none => some (true, g)
  | some arrived =>
    if g.complete then some (true, g)
    else if arrived 0 g.size then some (true, { g with complete := true })
    else (g.machineRequest 0 (UInt64.ofNat g.size)).map (false, ·)

/-- A quotient by the size of a block leaves room for rounding it up. -/
theorem divUp?_block (a : UInt64) :
    ∃ count, Machine.divUp? a 512 = some count ∧ count.toNat = (a.toNat + 511) / 512 := by
  have quotient : (a / 512).toNat = a.toNat / 512 := UInt64.toNat_div a 512
  have remainder : (a % 512).toNat = a.toNat % 512 := UInt64.toNat_mod a 512
  have bound := a.toNat_lt
  unfold Machine.divUp?
  by_cases even : a % 512 = 0
  · have none : a.toNat % 512 = 0 := by
      rw [← remainder, even]
      rfl
    exact ⟨a / 512, if_pos even, by omega⟩
  · have rest : a.toNat % 512 ≠ 0 := fun none => even (UInt64.toNat_inj.mp (remainder.trans none))
    have one : (1 : UInt64).toNat = 1 := rfl
    cases sum : Machine.add? (a / 512) 1 with
    | none =>
      have beyond := Machine.add?_eq_none.mp sum
      have top : Machine.largest.toNat = 2 ^ 64 - 1 := rfl
      omega
    | some count =>
      have exact := Machine.add?_eq_some.mp sum
      exact ⟨count, (if_neg even).trans rfl, by omega⟩

/-- The blocks of a range are computed without leaving the words. -/
theorem machineBlocks_eq (size offset length : UInt64) :
    machineBlocks size offset length = some (blocks size.toNat offset.toNat length.toNat) := by
  have block : (512 : UInt64).toNat = 512 := rfl
  have quotient : (offset / 512).toNat = offset.toNat / 512 := UInt64.toNat_div offset 512
  obtain ⟨first, product, firstExact⟩ :
      ∃ first, Machine.mul? (offset / 512) 512 = some first ∧ first.toNat = offset.toNat / 512 * 512 := by
    have bound := Machine.toNat_le offset
    cases product : Machine.mul? (offset / 512) 512 with
    | none =>
      have beyond := Machine.mul?_eq_none.mp product
      rw [quotient, block] at beyond
      omega
    | some first =>
      have exact := Machine.mul?_eq_some.mp product
      exact ⟨first, rfl, by rw [exact, quotient, block]⟩
  obtain ⟨count, rounded, countExact⟩ := divUp?_block (Machine.addUpTo offset length)
  have lastExact : (min (Machine.mulUpTo count 512) size).toNat =
      min ((offset.toNat + length.toNat + 511) / 512 * 512) size.toNat := by
    have bound := Machine.toNat_le size
    have top : Machine.largest.toNat = 2 ^ 64 - 1 := rfl
    rw [Machine.toNat_min, Machine.mulUpTo_toNat, countExact, Machine.addUpTo_toNat, block]
    omega
  have asks : 0 < length ∧ first < min (Machine.mulUpTo count 512) size ↔
      0 < length.toNat ∧ offset.toNat / 512 * 512 <
        min ((offset.toNat + length.toNat + 511) / 512 * 512) size.toNat := by
    rw [UInt64.lt_iff_toNat_lt, UInt64.lt_iff_toNat_lt, lastExact, firstExact]
    rfl
  have computed : machineBlocks size offset length =
      some (if 0 < length ∧ first < min (Machine.mulUpTo count 512) size then
        some ⟨first.toNat, (min (Machine.mulUpTo count 512) size - first).toNat⟩ else none) := by
    simp only [machineBlocks, product, rounded]
    rfl
  have wanted : blocks size.toNat offset.toNat length.toNat =
      if 0 < length.toNat ∧ offset.toNat / 512 * 512 <
          min ((offset.toNat + length.toNat + 511) / 512 * 512) size.toNat then
        some ⟨offset.toNat / 512 * 512, min ((offset.toNat + length.toNat + 511) / 512 * 512) size.toNat -
          offset.toNat / 512 * 512⟩ else none := rfl
  rw [computed, wanted]
  split
  · rename_i some
    have less : first ≤ min (Machine.mulUpTo count 512) size :=
      UInt64.le_iff_toNat_le.mpr (Nat.le_of_lt (UInt64.lt_iff_toNat_lt.mp some.2))
    rw [if_pos (asks.mp some), UInt64.toNat_sub_of_le _ _ less, lastExact, firstExact]
  · rename_i none
    rw [if_neg (none ∘ asks.mpr)]

theorem machineRequest_eq (fits : g.size ≤ Machine.largest.toNat) (offset length : UInt64) :
    g.machineRequest offset length = some (g.request offset.toNat length.toNat) := by
  simp only [machineRequest, machineBlocks_eq, Machine.toNat_ofNat fits]
  rfl

theorem machineRead_eq (fits : g.size ≤ Machine.largest.toNat) (offset length : UInt64) :
    g.machineRead offset length = some (g.read offset.toNat length.toNat) := by
  have same := g.source.read_size offset.toNat length.toNat
  unfold machineRead Gate.read
  by_cases inside : offset.toNat + length.toNat ≤ g.size
  · obtain ⟨stop, found, _⟩ := Machine.endWithin_inside fits inside
    rw [found, if_neg (Nat.not_lt_of_le inside)]
    dsimp only
    cases g.isAvailable offset.toNat length.toNat with
    | false =>
      rw [machineRequest_eq fits]
      rfl
    | true =>
      revert same
      cases g.source.read offset.toNat length.toNat with
      | mk answer source =>
        intro same
        cases answer with
        | ok bytes => rfl
        | error e =>
          have stays : Gate.size { g with source, problems := { g.problems with readError := true } } ≤
              Machine.largest.toNat := Nat.le_trans (Nat.le_of_eq same) fits
          have asks := machineRequest_eq stays offset length
          simp only [Bool.not_true, Bool.false_eq_true, if_false, asks]
          rfl
  · have outside := Nat.lt_of_not_le inside
    rw [Machine.endWithin_outside outside, if_pos outside]

theorem machineCheck_eq (fits : g.size ≤ Machine.largest.toNat) (offset length : UInt64) :
    g.machineCheck offset length = some (g.check offset.toNat length.toNat) := by
  have size := Machine.toNat_ofNat fits
  have beyond : UInt64.ofNat g.size < offset ↔ g.size < offset.toNat := by
    rw [UInt64.lt_iff_toNat_lt, size]
  by_cases outside : g.size < offset.toNat
  · simp only [machineCheck, Gate.check, if_pos (beyond.mpr outside), if_pos outside]
  · have stop : (min (Machine.addUpTo (Machine.addUpTo offset length) 256) (UInt64.ofNat g.size)).toNat =
        min (offset.toNat + length.toNat + padding) g.size := by
      have pad : (256 : UInt64).toNat = padding := rfl
      rw [Machine.toNat_min, Machine.addUpTo_toNat, Machine.addUpTo_toNat, size, pad]
      omega
    have behind : offset ≤ min (Machine.addUpTo (Machine.addUpTo offset length) 256)
        (UInt64.ofNat g.size) := by
      rw [UInt64.le_iff_toNat_le, stop]
      omega
    simp only [machineCheck, Gate.check, if_neg (outside ∘ beyond.mp), if_neg outside,
      UInt64.toNat_sub_of_le _ _ behind, stop, machineRequest_eq fits]
    split <;> rfl

theorem machineCheckComplete_eq (fits : g.size ≤ Machine.largest.toNat) :
    g.machineCheckComplete = some g.checkComplete := by
  have asks := machineRequest_eq fits 0 (UInt64.ofNat g.size)
  have zero : (0 : UInt64).toNat = 0 := rfl
  rw [Machine.toNat_ofNat fits, zero] at asks
  unfold machineCheckComplete checkComplete
  rw [asks]
  cases g.availability with
  | none => rfl
  | some arrived =>
    dsimp only
    split
    · rfl
    · split <;> rfl

end Words

/-- Of a gate of which neither the availability nor the knowledge that all has arrived has changed, the same
can be read. -/
theorem Stays.spares {after : Gate} (stays : g.Stays after) (spares : g.SparesEmpty) : after.SparesEmpty := by
  intro offset
  have same := spares offset
  unfold isAvailable at same ⊢
  rw [stays.complete, stays.availability]
  exact same

theorem spares_complete (complete : g.complete = true) : g.SparesEmpty := by
  intro offset
  rw [isAvailable, complete, Bool.true_or]

theorem checkComplete_spares (spares : g.SparesEmpty) : g.checkComplete.2.SparesEmpty := by
  unfold checkComplete
  split
  · exact spares
  · split
    · exact spares
    · split
      · exact spares_complete rfl
      · exact spares

end Gate

namespace Reader

section Words

/-- The byte at a position in machine words. Nobody keeps the sum with the origin from wrapping. -/
def machineByteAt (r : Reader) (position : UInt64) : Option UInt8 × Reader :=
  let offset := (position + UInt64.ofNat r.origin).toNat
  r.fetch offset offset

/-- Whether the byte at a position is glued to its neighbour, in machine words, if anybody wants to know. -/
def machineGluedAt (r : Reader) (keyword wanted : Bool) (position : UInt64) : Bool × Reader :=
  if wanted then
    let (found, after) := r.machineByteAt position
    (found.any (Scan.isGlue keyword), after)
  else (false, r)

/-- Whether a tag that occurs at `start` is a word there, in machine words. The right end may wrap. -/
def machineWholeWord (r : Reader) (start limit : UInt64) (tag : Bytes) (keyword : Bool) : Bool × Reader :=
  match tag.head?, tag.getLast? with
  | some first, some last =>
    let stop := start + UInt64.ofNat tag.length
    let (gluedRight, r) := r.machineGluedAt keyword (Scan.canGlue last && stop ≤ limit) stop
    if gluedRight then (false, r)
    else
      let (gluedLeft, r) := r.machineGluedAt keyword (Scan.canGlue first && 0 < start) (start - 1)
      (!gluedLeft, r)
  | _, _ => (false, r)

variable {r : Reader} {position start limit : UInt64} {tag : Bytes} {keyword wanted : Bool}

theorem machineByteAt_fetch (r : Reader) (position : UInt64) : r.machineByteAt position =
    r.fetch ((position.toNat + r.origin) % UInt64.size) ((position.toNat + r.origin) % UInt64.size) := by
  have sum : (position + UInt64.ofNat r.origin).toNat = (position.toNat + r.origin) % UInt64.size := by
    rw [UInt64.toNat_add, UInt64.toNat_ofNat', Nat.add_mod_mod]
  rw [machineByteAt, sum]

/-- As long as the sum is a word, it is exact. -/
theorem machineByteAt_eq (fits : position.toNat + r.origin < UInt64.size) :
    r.machineByteAt position = r.byteAt position.toNat := by
  rw [machineByteAt_fetch, Nat.mod_eq_of_lt fits]
  rfl

/-- Otherwise there is no such byte, and yet one is looked at: counting starts over with the source. -/
theorem machineByteAt_wraps (small : r.gate.size ≤ Machine.largest.toNat)
    (overflow : UInt64.size ≤ position.toNat + r.origin) : r.byteAt position.toNat = (none, r) ∧
      r.machineByteAt position = r.fetch ((position.toNat + r.origin) % UInt64.size)
        ((position.toNat + r.origin) % UInt64.size) := by
  have top : UInt64.size = Machine.largest.toNat + 1 := rfl
  exact ⟨if_pos (by omega), r.machineByteAt_fetch position⟩

theorem machineGluedAt_eq (fits : wanted = true → position.toNat + r.origin < UInt64.size) :
    r.machineGluedAt keyword wanted position =
      (if wanted then Scan.isGluedAt keyword position.toNat else pure false).run r := by
  cases wanted with
  | false => rfl
  | true =>
    simp only [machineGluedAt, machineByteAt_eq (fits rfl), Scan.isGluedAt, Scan.byteAt, Scan.run_bind,
      Scan.run_perform, Readable.perform, ↓reduceIte]
    cases (r.byteAt position.toNat).1 <;> rfl

/-- The byte before a position is at hand in machine words if there is one. -/
theorem machineGluedAt_before (fits : start.toNat + r.origin < UInt64.size)
    (behind : wanted = true → 0 < start.toNat) :
    r.machineGluedAt keyword wanted (start - 1) =
      (if wanted then Scan.isGluedAt keyword (start.toNat - 1) else pure false).run r := by
  cases wanted with
  | false => rfl
  | true =>
    have positive := behind rfl
    have earlier : (start - 1).toNat = start.toNat - 1 :=
      UInt64.toNat_sub_of_le _ _ (UInt64.le_iff_toNat_le.mpr positive)
    rw [machineGluedAt_eq fun _ => by omega, earlier]

/-- Where both neighbours are at offsets that are words, the same is found in machine words. -/
theorem machineWholeWord_eq (left : start.toNat + r.origin < UInt64.size)
    (right : (start.toNat + tag.length) % UInt64.size + r.origin < UInt64.size) :
    r.machineWholeWord start limit tag keyword =
      (Scan.isWholeWord start.toNat limit.toNat tag keyword).run r := by
  have sum : (start + UInt64.ofNat tag.length).toNat = (start.toNat + tag.length) % UInt64.size := by
    rw [UInt64.toNat_add, UInt64.toNat_ofNat', Nat.add_mod_mod]
  have stop : Machine.wrapped limit.toNat (start.toNat + tag.length) =
      (start + UInt64.ofNat tag.length).toNat := by
    rw [sum, Machine.wrapped_of_word limit.toNat_lt]
  unfold machineWholeWord Scan.isWholeWord
  cases tag.head? with
  | none => rfl
  | some first =>
    cases tag.getLast? with
    | none => rfl
    | some last =>
      rw [← sum] at right
      dsimp only
      rw [stop]
      generalize start + UInt64.ofNat tag.length = stop at right ⊢
      have within : (stop ≤ limit) = (stop.toNat ≤ limit.toNat) := propext UInt64.le_iff_toNat_le
      have behind : (0 < start) = (0 < start.toNat) := propext UInt64.lt_iff_toNat_lt
      simp only [within, behind]
      have leftward (after : Reader) (origin : after.origin = r.origin) :
          let found := after.machineGluedAt keyword (Scan.canGlue first && 0 < start.toNat) (start - 1)
          (!found.1, found.2) = (if Scan.canGlue first && 0 < start.toNat then
            Scan.isGluedAt keyword (start.toNat - 1) >>= fun glued => pure !glued
          else pure false >>= fun glued => pure !glued).run after := by
        have positive (wanted : (Scan.canGlue first && decide (0 < start.toNat)) = true) : 0 < start.toNat :=
          of_decide_eq_true (Bool.and_eq_true_iff.mp wanted).2
        rw [machineGluedAt_before (by rwa [origin]) positive]
        cases Scan.canGlue first && decide (0 < start.toNat) <;> rfl
      rw [machineGluedAt_eq fun _ => right]
      cases Scan.canGlue last && decide (stop.toNat ≤ limit.toNat) with
      | false => exact leftward r rfl
      | true =>
        have origin := (continues.run (Scan.isGluedAt keyword stop.toNat) r).origin
        simp only [↓reduceIte, Scan.run_bind]
        cases ((Scan.isGluedAt keyword stop.toNat).run r).1 with
        | true => rfl
        | false => exact leftward _ origin

section Gate

variable {related : Gate → Gate → Prop}

theorem machineByteAt_gate (evolves : Gate.Evolution related) (r : Reader) (position : UInt64) :
    related r.gate (r.machineByteAt position).2.gate := by
  rw [machineByteAt_fetch]
  rcases r.fetch_gate _ _ with kept | ⟨first, length, passed⟩
  · exact kept ▸ evolves.refl _
  · exact passed ▸ evolves.read _ _ _

theorem machineGluedAt_gate (evolves : Gate.Evolution related) (r : Reader) (keyword wanted : Bool)
    (position : UInt64) : related r.gate (r.machineGluedAt keyword wanted position).2.gate := by
  cases wanted with
  | false => exact evolves.refl r.gate
  | true => exact machineByteAt_gate evolves r position

theorem machineWholeWord_gate (evolves : Gate.Evolution related) (r : Reader) (start limit : UInt64)
    (tag : Bytes) (keyword : Bool) : related r.gate (r.machineWholeWord start limit tag keyword).2.gate := by
  unfold machineWholeWord
  split
  · rename_i first last _ _
    have right := machineGluedAt_gate evolves r keyword
      (Scan.canGlue last && start + UInt64.ofNat tag.length ≤ limit) (start + UInt64.ofNat tag.length)
    dsimp only
    split
    · exact right
    · exact evolves.trans _ _ _ right (machineGluedAt_gate evolves _ _ _ _)
  · exact evolves.refl r.gate

end Gate
end Words

/-- Whether a step lets nothing be missing of an empty range: only whoever tells what has arrived could. -/
def Step.SparesEmpty : Step → Prop
  | .arrive availability => ∀ offset, availability offset 0 = true
  | _ => True

/-- The states of a reader that has been used somehow, with its gate, by steps of any kind: whole operations
or single commands, uses of the gate that pass the reader by, and the bounds of sessions set by hand. -/
inductive Used : Reader → Prop where
  | fresh (gate : Gate) (silent : gate.requests = []) (spares : gate.SparesEmpty) (origin : Nat)
    (options : Options) : Used (ofGate gate origin options)
  | ran (used : Used r) {α : Type} (program : Scan α) : Used (program.run r).2
  | stepped (used : Used r) (step : Step) (spares : step.SparesEmpty) : Used (step.run r).2
  /-- A byte, or a word, is looked at anywhere, even where the sum with the origin is no machine word. -/
  | looked (used : Used r) (position : UInt64) : Used (r.machineByteAt position).2
  | matched (used : Used r) (start limit : UInt64) (tag : Bytes) (keyword : Bool) :
    Used (r.machineWholeWord start limit tag keyword).2
  /-- A session begins, or the problems so far are forgotten. -/
  | reset (used : Used r) : Used { r with gate := r.gate.reset }
  /-- A session ends, and earlier problems are added. -/
  | restore (used : Used r) (earlier : Problems) : Used { r with gate := r.gate.restore earlier }

variable {r : Reader}

theorem operation_gate {related : Gate → Gate → Prop} (evolves : Gate.Evolution related)
    (operation : Operation) (r : Reader) : related r.gate (operation.run r).2.gate := by
  cases operation with
  | call asked => exact evolves.reader.run asked.program r
  | trailerEnds => exact evolves.refl r.gate
  | takeTrailerEnds =>
    have same : (r.takeTrailerEnds).2.gate = r.gate := by
      unfold takeTrailerEnds
      split <;> rfl
    change related r.gate (r.takeTrailerEnds).2.gate
    rw [same]
    exact evolves.refl r.gate

theorem enter_gate (r : Reader) : (Step.enter.run r).2.gate = r.gate := by
  unfold Step.run enter
  by_cases left : r.depth < r.options.maxDepth
  · simp only [if_pos left]
  · simp only [if_neg left]

theorem Step.inBlocks (step : Step) (orderly : r.gate.AsksInBlocks) : (step.run r).2.gate.AsksInBlocks := by
  cases step with
  | ask operation => exact operation_gate Gate.inBlocks_evolution operation r orderly
  | enter =>
    rw [r.enter_gate]
    exact orderly
  | read offset length => exact Gate.read_inBlocks orderly offset length
  | check offset length => exact Gate.check_inBlocks orderly offset length
  | checkComplete => exact Gate.checkComplete_inBlocks orderly
  | leave | setComplete | arrive => exact orderly

theorem Step.spares (step : Step) (kind : step.SparesEmpty) (spares : r.gate.SparesEmpty) :
    (step.run r).2.gate.SparesEmpty := by
  cases step with
  | ask operation => exact (operation_gate Gate.stays_evolution operation r).spares spares
  | enter =>
    rw [r.enter_gate]
    exact spares
  | read offset length => exact (Gate.stays_evolution.read r.gate offset length).spares spares
  | check offset length =>
    rcases r.gate.check_cases offset length with passed | ⟨_, _, asked⟩
    · simp only [Step.run, passed]
      exact spares
    · simp only [Step.run, asked]
      exact spares
  | checkComplete => exact Gate.checkComplete_spares spares
  | leave => exact spares
  | setComplete => exact Gate.spares_complete rfl
  | arrive availability =>
    intro offset
    simp only [Step.run, Gate.isAvailable, kind offset, Bool.or_true]

theorem Used.inBlocks (used : r.Used) : r.gate.AsksInBlocks := by
  induction used with
  | fresh gate silent spares origin options =>
    intro extent member
    change extent ∈ gate.requests at member
    rw [silent] at member
    cases member
  | ran _ program ih => exact Gate.inBlocks_evolution.reader.run program _ ih
  | stepped _ step _ ih => exact step.inBlocks ih
  | looked _ position ih => exact machineByteAt_gate Gate.inBlocks_evolution _ position ih
  | matched _ start limit tag keyword ih =>
    exact machineWholeWord_gate Gate.inBlocks_evolution _ start limit tag keyword ih
  | reset _ ih | restore _ _ ih => exact ih

theorem Used.spares (used : r.Used) : r.gate.SparesEmpty := by
  induction used with
  | fresh gate silent spares origin options => exact spares
  | ran _ program ih => exact (Gate.stays_evolution.reader.run program _).spares ih
  | stepped _ step kind ih => exact step.spares kind ih
  | looked _ position ih => exact (machineByteAt_gate Gate.stays_evolution _ position).spares ih
  | matched _ start limit tag keyword ih =>
    exact (machineWholeWord_gate Gate.stays_evolution _ start limit tag keyword).spares ih
  | reset _ ih | restore _ _ ih => exact ih

/-- A reader of six hundred bytes, of which the first hundred have arrived. -/
def shortReader : Reader :=
  ofGate
    { source := .memory (List.replicate 600 'x'.toUInt8).toArray
      availability := some (.ofRanges [⟨0, 100⟩]) } 0 {}

/-- A reader of three bytes, of which none have arrived. The document starts at one of them. -/
def absentReader (start : Nat) : Reader :=
  ofGate
    { source := .memory (Bytes.ofAscii ['a', 'b', 'c']).toArray
      availability := some (.ofRanges []) } start {}

end Reader
end PdfObjects
