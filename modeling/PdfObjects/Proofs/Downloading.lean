import Mathlib.Data.Finset.Card
import PdfObjects.Download
import PdfObjects.Proofs.Asking

/-! How far trying again gets. What is asked for covers the range that was wanted, in whole blocks; but a
range is also checked for some padding behind it, and that may lie in the next block, which nobody asks
for. So a round that lacks data gains something new, or lacks nothing but padding; and the rounds come
to an end unless they lack nothing but padding from some round on. -/
namespace PdfObjects.Download

/-- A download of a document. Everything asked for in the rounds before has arrived. -/
structure UpToDate (document : Bytes) (d : Download) : Prop where
  gate : d.reader.gate.Watched document d.arrived
  asked : ∀ extent ∈ d.reader.gate.requests, ∀ index,
    Availability.holds index extent = true → d.arrived index = true
  origin : d.reader.origin ≤ document.length
  window : d.reader.window.Shows document

/-- Whether a byte within an extent has yet to arrive. -/
def Wants (d : Download) (extent : Extent) : Prop :=
  ∃ index, Availability.holds index extent = true ∧ d.arrived index = false

/-- An extent that has arrived, and that was asked for because a byte behind it has not: one of the
padding of the range of which the extent is the blocks. -/
def OnlyPads (size : Nat) (d : Download) (extent : Extent) : Prop :=
  ¬ d.Wants extent ∧ ∃ offset length index, 0 < length ∧
    Gate.blocks size offset length = some extent ∧ extent.offset + extent.length ≤ index ∧
    index < min (offset + length + Gate.padding) size ∧ d.arrived index = false

variable {document : Bytes} {d : Download} {position : Nat} {resolve : Resolver}

section Round
variable (position resolve)

/-- The next attempt ends for lack of data. -/
def Lacks (d : Download) : Prop := (d.attempt position resolve).1 = .error .dataUnavailable

/-- After the next attempt, something has been asked for that has not arrived. -/
def Gains (d : Download) : Prop :=
  ∃ extent ∈ (d.attempt position resolve).2.reader.gate.requests, d.Wants extent

/-- The next attempt ends for lack of data, but asks for nothing that has not arrived already. -/
def Stalls (d : Download) : Prop := d.Lacks position resolve ∧ ¬ d.Gains position resolve

end Round

theorem UpToDate.loading (upToDate : d.UpToDate document) : d.reader.Loading document d.arrived :=
  ⟨upToDate.gate.availability, ⟨document, upToDate.gate.source, rfl, fun _ _ _ => rfl⟩,
    upToDate.gate.complete, upToDate.origin, upToDate.window⟩

theorem attempt_arrived (d : Download) (position : Nat) (resolve : Resolver) :
    (d.attempt position resolve).2.arrived = d.arrived := by
  simp only [attempt]

/-- An attempt is a session of its own, from the position on. -/
theorem attempt_session (d : Download) (position : Nat) (resolve : Resolver) :
    (d.attempt position resolve).1 =
        ((Parse.indirect resolve d.reader.options.mode).run.run
          (Reader.seek { d.reader with gate := d.reader.gate.reset } position)).1 ∧
      (d.attempt position resolve).2.reader =
        ((Parse.indirect resolve d.reader.options.mode).run.run
          (Reader.seek { d.reader with gate := d.reader.gate.reset } position)).2 := by
  simp only [attempt, Parse.indirectAt, Parse.run_bind_lift]
  exact ⟨rfl, rfl⟩

/-- A download that has just begun. -/
theorem ofGate_upToDate (source : Source) (holds : source.Holds document) (arrived : Nat → Bool)
    (start : Nat) (options : Options) :
    UpToDate document
      { reader := Reader.ofGate { source, availability := some (.ofBytes arrived) } start options
        arrived } where
  gate := ⟨holds, rfl, fun complete => by cases complete⟩
  asked extent member := by cases member
  origin := by
    have size : Gate.size { source, availability := some (.ofBytes arrived) } = document.length :=
      holds.size
    simp only [Reader.ofGate, size]
    exact Nat.min_le_right _ _
  window := Window.shows_empty 0

/-- What an attempt leaves: a reader as faithful as before, and more requests, each with a cause. There
is at least one if the attempt ended for lack of data. -/
theorem UpToDate.attempt (upToDate : d.UpToDate document) (position : Nat) (resolve : Resolver) :
    (d.attempt position resolve).2.reader.gate.Watched document d.arrived ∧
    (d.attempt position resolve).2.reader.Faithful document ∧
    ∃ extents, (d.attempt position resolve).2.reader.gate.requests =
        d.reader.gate.requests ++ extents ∧
      (∀ extent ∈ extents, Gate.Cause document.length d.arrived extent) ∧
      (d.Lacks position resolve → extents ≠ []) := by
  have faithful := upToDate.loading.faithful
  obtain ⟨outcome, reader⟩ := d.attempt_session position resolve
  rw [Lacks, outcome, reader]
  generalize start : Reader.seek { d.reader with gate := d.reader.gate.reset } position = r
  have requests : r.gate.requests = d.reader.gate.requests := by rw [← start]; rfl
  have clear : r.gate.problems.any = false := by rw [← start]; rfl
  have watched : r.gate.Watched document d.arrived := by
    rw [← start]
    exact ⟨upToDate.gate.source, upToDate.gate.availability, upToDate.gate.complete⟩
  have faithful : r.Faithful document := by
    rw [← start]
    exact ⟨faithful.gate, faithful.origin, faithful.window⟩
  obtain ⟨stays, extents, added, causes, raised⟩ :=
    Reader.watched_run watched (Parse.indirect resolve d.reader.options.mode).run
  rw [requests] at added
  refine ⟨stays, (faithful.run _).faithful, extents, added, causes, fun lacks => ?_⟩
  exact (raised (Parse.indirect_raises faithful lacks)).resolve_left (by simp [clear])

/-- A cause with blocks that have arrived leaves only the padding. -/
theorem onlyPads_of_cause {extent : Extent} (cause : Gate.Cause document.length d.arrived extent)
    (present : ¬ d.Wants extent) : d.OnlyPads document.length extent := by
  obtain ⟨offset, length, index, positive, asked, behind, before, missing⟩ := cause
  obtain ⟨other, askedOther, starts, _⟩ :=
    Gate.blocks_spec document.length offset positive (by omega)
  obtain rfl : other = extent := Option.some.inj (askedOther.symm.trans asked)
  refine ⟨present, offset, length, index, positive, asked, ?_, before, missing⟩
  refine Nat.le_of_not_lt fun within => present ⟨index, ?_, missing⟩
  simp only [Availability.holds, Bool.and_eq_true, decide_eq_true_eq]
  omega

/-- A round that lacks data asks for something, and gains nothing exactly if it was for padding that it
asked, every time. -/
theorem UpToDate.gains_iff (upToDate : d.UpToDate document) (lacks : d.Lacks position resolve) :
    ∃ extents, (d.attempt position resolve).2.reader.gate.requests =
        d.reader.gate.requests ++ extents ∧ extents ≠ [] ∧
      (d.Gains position resolve ↔ ∃ extent ∈ extents, ¬ d.OnlyPads document.length extent) := by
  obtain ⟨_, _, extents, added, causes, some⟩ := upToDate.attempt position resolve
  refine ⟨extents, added, some lacks, ?_⟩
  constructor
  · rintro ⟨extent, asked, wants⟩
    rw [added] at asked
    rcases List.mem_append.mp asked with earlier | new
    · obtain ⟨index, within, missing⟩ := wants
      rw [upToDate.asked extent earlier index within] at missing
      cases missing
    · exact ⟨extent, new, fun pads => pads.1 wants⟩
  · rintro ⟨extent, new, more⟩
    refine ⟨extent, added ▸ List.mem_append_right _ new, ?_⟩
    refine Classical.byContradiction fun present => more ?_
    exact onlyPads_of_cause (causes extent new) present

theorem fulfil_arrived (d : Download) (index : Nat) :
    d.fulfil.arrived index = true ↔ d.arrived index = true ∨
      ∃ extent ∈ d.reader.gate.requests, Availability.holds index extent = true := by
  simp only [fulfil, Bool.or_eq_true, List.any_eq_true]

/-- What has been asked for arrives. -/
theorem fulfil_upToDate (watched : d.reader.gate.Watched document d.arrived)
    (faithful : d.reader.Faithful document) : d.fulfil.UpToDate document where
  gate := ⟨watched.source, rfl, fun complete index inside =>
    (fulfil_arrived d index).mpr (.inl (watched.complete complete index inside))⟩
  asked extent member index within := (fulfil_arrived d index).mpr (.inr ⟨extent, member, within⟩)
  origin := faithful.origin
  window := faithful.window

theorem round_lacking (lacks : d.Lacks position resolve) :
    d.round position resolve = (d.attempt position resolve).2.fulfil := by
  unfold Lacks at lacks
  unfold round
  revert lacks
  cases d.attempt position resolve with
  | mk outcome after =>
    rintro rfl
    rfl

theorem round_done (done : ¬ d.Lacks position resolve) : d.round position resolve = d := by
  unfold Lacks at done
  unfold round
  revert done
  cases d.attempt position resolve with
  | mk outcome after =>
    intro done
    split
    · rename_i same
      exact absurd (congrArg Prod.fst same) done
    · rfl

theorem round_arrived (lacks : d.Lacks position resolve) (index : Nat) :
    (d.round position resolve).arrived index = true ↔ d.arrived index = true ∨
      ∃ extent ∈ (d.attempt position resolve).2.reader.gate.requests,
        Availability.holds index extent = true := by
  rw [round_lacking lacks, fulfil_arrived, attempt_arrived]

theorem UpToDate.round (upToDate : d.UpToDate document) : (d.round position resolve).UpToDate document := by
  by_cases lacks : d.Lacks position resolve
  · obtain ⟨watched, faithful, _⟩ := upToDate.attempt position resolve
    rw [← d.attempt_arrived position resolve] at watched
    rw [round_lacking lacks]
    exact fulfil_upToDate watched faithful
  · rw [round_done lacks]
    exact upToDate

theorem before_succ (d : Download) (n : Nat) :
    d.before position resolve (n + 1) = (d.before position resolve n).round position resolve := rfl

theorem UpToDate.before (upToDate : d.UpToDate document) (n : Nat) :
    (d.before position resolve n).UpToDate document := by
  induction n with
  | zero => exact upToDate
  | succ n ih => exact ih.round

theorem before_add (d : Download) (n m : Nat) :
    d.before position resolve (n + m) =
      (d.before position resolve n).before position resolve m := by
  induction m with
  | zero => rfl
  | succ m ih => rw [← Nat.add_assoc, before_succ, ih, before_succ]

/-- The bytes that have yet to arrive. -/
def missing (document : Bytes) (d : Download) : Finset Nat :=
  (Finset.range document.length).filter (d.arrived · = false)

theorem round_missing (document : Bytes) (d : Download) :
    (d.round position resolve).missing document ⊆ d.missing document := by
  intro index member
  simp only [missing, Finset.mem_filter, Finset.mem_range] at member ⊢
  refine ⟨member.1, ?_⟩
  cases present : d.arrived index with
  | false => rfl
  | true =>
    refine absurd member.2 ?_
    by_cases lacks : d.Lacks position resolve
    · simp [(round_arrived lacks index).mpr (.inl present)]
    · simp [round_done lacks, present]

theorem before_missing (document : Bytes) (d : Download) (n : Nat) :
    (d.before position resolve n).missing document ⊆ d.missing document := by
  induction n with
  | zero => exact Finset.Subset.refl _
  | succ n ih => exact (round_missing document _).trans ih

/-- A round that gains something leaves fewer bytes missing. -/
theorem round_gains (upToDate : d.UpToDate document) (lacks : d.Lacks position resolve)
    (gains : d.Gains position resolve) :
    (d.round position resolve).missing document ⊂ d.missing document := by
  obtain ⟨extent, asked, index, within, absent⟩ := gains
  have inside : index < document.length := by
    refine Nat.lt_of_not_le fun outside => ?_
    obtain ⟨_, _, extents, added, causes, _⟩ := upToDate.attempt position resolve
    rw [added] at asked
    rcases List.mem_append.mp asked with earlier | new
    · rw [upToDate.asked extent earlier index within] at absent
      cases absent
    · obtain ⟨offset, length, other, positive, covered, behind, before, _⟩ := causes extent new
      obtain ⟨blocks, same, _, _, stops⟩ :=
        Gate.blocks_spec document.length offset positive (by omega)
      obtain rfl : blocks = extent := Option.some.inj (same.symm.trans covered)
      simp only [Availability.holds, Bool.and_eq_true, decide_eq_true_eq] at within
      omega
  refine (Finset.ssubset_iff_of_subset (round_missing document d)).mpr ⟨index, ?_, ?_⟩
  · simp only [missing, Finset.mem_filter, Finset.mem_range]
    exact ⟨inside, absent⟩
  · have later := (round_arrived lacks index).mpr (.inr ⟨extent, asked, within⟩)
    simp [missing, later]

/-- The rounds come to a result, or get nowhere from some round on. The induction is on the bytes that
have yet to arrive, of which every round that gains something leaves fewer. -/
theorem UpToDate.ends_or_stalls (upToDate : d.UpToDate document) :
    (∃ n, ¬ (d.before position resolve n).Lacks position resolve) ∨
      ∃ first, ∀ n, first ≤ n → (d.before position resolve n).Stalls position resolve := by
  induction bound : (d.missing document).card using Nat.strong_induction_on generalizing d with
  | _ left ih =>
    by_cases stuck : ∀ n, (d.before position resolve n).Stalls position resolve
    · exact .inr ⟨0, fun n _ => stuck n⟩
    · obtain ⟨n, moves⟩ := Classical.not_forall.mp stuck
      by_cases lacks : (d.before position resolve n).Lacks position resolve
      · have gains : (d.before position resolve n).Gains position resolve :=
          Classical.not_not.mp fun none => moves ⟨lacks, none⟩
        have fewer : ((d.before position resolve (n + 1)).missing document).card < left := by
          rw [← bound, before_succ]
          exact Finset.card_lt_card
            ((round_gains (upToDate.before n) lacks gains).trans_subset (before_missing document d n))
        rcases ih _ fewer (upToDate.before (n + 1)) rfl with ⟨m, done⟩ | ⟨first, stalls⟩
        · exact .inl ⟨n + 1 + m, by rwa [before_add]⟩
        · refine .inr ⟨n + 1 + first, fun m later => ?_⟩
          obtain ⟨k, rfl⟩ := Nat.exists_eq_add_of_le (Nat.le_trans (Nat.le_add_right _ _) later)
          rw [before_add]
          exact stalls k (by omega)
      · exact .inl ⟨n, lacks⟩

/-- Nothing more happens once there is a result. -/
theorem before_done {n : Nat} (done : ¬ (d.before position resolve n).Lacks position resolve)
    (m : Nat) : d.before position resolve (n + m) = d.before position resolve n := by
  induction m with
  | zero => rfl
  | succ m ih => rw [← Nat.add_assoc, before_succ, ih, round_done done]

theorem UpToDate.ends_iff (upToDate : d.UpToDate document) :
    (∃ n, ¬ (d.before position resolve n).Lacks position resolve) ↔
      ¬ ∃ first, ∀ n, first ≤ n → (d.before position resolve n).Stalls position resolve := by
  constructor
  · rintro ⟨n, done⟩ ⟨first, stalls⟩
    have later := (stalls (n + first) (by omega)).1
    rw [before_done done] at later
    exact done later
  · exact fun moves => upToDate.ends_or_stalls.resolve_right moves

theorem check_watched {g : Gate} {arrived : Nat → Bool} (watched : g.Watched document arrived)
    {offset length : Nat} (inside : offset < document.length) :
    (g.check offset length).1 = true ↔ ∀ index, offset ≤ index →
      index < min (offset + length + Gate.padding) document.length → arrived index = true := by
  have size : g.size = document.length := watched.source.size
  have range : offset + (min (offset + length + Gate.padding) g.size - offset) =
      min (offset + length + Gate.padding) document.length := by omega
  rw [← range, ← watched.available (by omega)]
  rcases g.check_cases offset length with passed | ⟨_, missing, failed⟩
  · cases available : g.isAvailable offset
        (min (offset + length + Gate.padding) g.size - offset) with
    | true => simp [passed]
    | false => simp [Gate.check, available, Nat.not_lt_of_lt (size.symm ▸ inside)] at passed
  · simp [failed, missing]

/-- A check that fails does nothing but ask. -/
theorem check_request {offset length : Nat} (failed : (d.check offset length).1 = false) :
    (d.check offset length).2 =
      { d with reader := { d.reader with gate := d.reader.gate.request offset length } } := by
  rcases d.reader.gate.check_cases offset length with passed | ⟨_, _, missing⟩
  · simp [check, passed] at failed
  · simp only [check, missing]

/-- What has arrived once a check that failed is fulfilled: what had arrived before, and the blocks. -/
theorem UpToDate.check_arrived (upToDate : d.UpToDate document) {offset length : Nat} {extent : Extent}
    (asked : Gate.blocks document.length offset length = some extent)
    (failed : (d.check offset length).1 = false) (index : Nat) :
    (d.check offset length).2.fulfil.arrived index = true ↔
      d.arrived index = true ∨ Availability.holds index extent = true := by
  rw [fulfil_arrived, check_request failed]
  simp only [upToDate.gate.request asked, List.mem_append, List.mem_singleton]
  constructor
  · rintro (present | ⟨found, earlier | rfl, within⟩)
    · exact .inl present
    · exact .inl (upToDate.asked found earlier index within)
    · exact .inr within
  · exact Or.imp id fun within => ⟨extent, .inr rfl, within⟩

/-- A range that was found missing is found to be there, once what was asked for has arrived, exactly if
the padding behind its blocks had arrived before. -/
theorem UpToDate.check_iff (upToDate : d.UpToDate document) {offset length : Nat} {extent : Extent}
    (positive : 0 < length) (inside : offset < document.length)
    (asked : Gate.blocks document.length offset length = some extent)
    (failed : (d.check offset length).1 = false) :
    ((d.check offset length).2.fulfil.check offset length).1 = true ↔
      ∀ index, extent.offset + extent.length ≤ index →
        index < min (offset + length + Gate.padding) document.length → d.arrived index = true := by
  obtain ⟨covers, same, starts, reaches, _⟩ := Gate.blocks_spec document.length offset positive inside
  obtain rfl : covers = extent := Option.some.inj (same.symm.trans asked)
  have faithful := upToDate.loading.faithful
  have later : (d.check offset length).2.fulfil.UpToDate document := by
    rw [check_request failed]
    exact fulfil_upToDate ⟨upToDate.gate.source, upToDate.gate.availability, upToDate.gate.complete⟩
      ⟨faithful.gate, faithful.origin, faithful.window⟩
  rw [check, check_watched later.gate inside]
  simp only [upToDate.check_arrived asked failed, Availability.holds, Bool.and_eq_true, decide_eq_true_eq]
  constructor
  · intro all index behind before
    exact (all index (by omega) before).resolve_right (by omega)
  · intro padding index behind before
    by_cases covered : index < covers.offset + covers.length
    · exact .inr ⟨by omega, covered⟩
    · exact .inl (padding index (by omega) before)

end PdfObjects.Download
