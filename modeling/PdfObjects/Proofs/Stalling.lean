import PdfObjects.Proofs.Downloading
import PdfObjects.Proofs.Recall

/-! Rounds that get nowhere. What was noted at the gate does not matter to a round, so one that lacks
nothing but padding, and leaves the reader where it was, comes back for ever. -/
namespace PdfObjects.Download

/-- Two downloads that differ in nothing but the notes at the gate. -/
def Alike (d e : Download) : Prop :=
  e.arrived = d.arrived ∧ ∃ problems requests,
    e.reader = { d.reader with gate := { d.reader.gate with problems, requests } }

variable {document : Bytes} {d e : Download} {position : Nat} {resolve : Resolver}

/-- Attempts of downloads that are alike have the same outcome, ask for the same, and leave the
downloads alike. -/
theorem attempt_alike (alike : d.Alike e) (position : Nat) (resolve : Resolver) :
    (e.attempt position resolve).1 = (d.attempt position resolve).1 ∧
    ∃ extents, (d.attempt position resolve).2.reader.gate.requests =
        d.reader.gate.requests ++ extents ∧
      (e.attempt position resolve).2.reader.gate.requests = e.reader.gate.requests ++ extents ∧
      (d.attempt position resolve).2.Alike (e.attempt position resolve).2 := by
  obtain ⟨arrived, problems, requests, same⟩ := alike
  let bare : Reader :=
    { d.reader with gate := { d.reader.gate with problems := {}, requests := [] } }
  have startD : { d.reader with gate := d.reader.gate.reset } =
      bare.remember {} d.reader.gate.requests := by
    simp [bare, Reader.remember, Gate.remember, Gate.reset, Problems.merge]
  have startE : { e.reader with gate := e.reader.gate.reset } = bare.remember {} requests := by
    simp [same, bare, Reader.remember, Gate.remember, Gate.reset, Problems.merge]
  have added : e.reader.gate.requests = requests := by rw [same]
  simp only [attempt, startD, startE, Reader.remember_run, added]
  generalize (Parse.indirectAt position resolve).run.run bare = result
  exact ⟨trivial, result.2.gate.requests, rfl, rfl, arrived, _, _, rfl⟩

theorem gains_alike (upToDate : d.UpToDate document) (other : e.UpToDate document) (alike : d.Alike e) :
    e.Gains position resolve ↔ d.Gains position resolve := by
  obtain ⟨_, extents, asked, askedOther, _⟩ := attempt_alike alike position resolve
  have wants extent : e.Wants extent ↔ d.Wants extent := by simp only [Wants, alike.1]
  have old {f : Download} (upToDate : f.UpToDate document) {extent : Extent}
      (member : extent ∈ f.reader.gate.requests) : ¬ f.Wants extent := by
    rintro ⟨index, within, missing⟩
    rw [upToDate.asked extent member index within] at missing
    cases missing
  simp only [Gains, asked, askedOther, List.mem_append]
  constructor
  · rintro ⟨extent, earlier | new, more⟩
    · exact absurd more (old other earlier)
    · exact ⟨extent, .inr new, (wants extent).mp more⟩
  · rintro ⟨extent, earlier | new, more⟩
    · exact absurd more (old upToDate earlier)
    · exact ⟨extent, .inr new, (wants extent).mpr more⟩

theorem stalls_alike (upToDate : d.UpToDate document) (other : e.UpToDate document) (alike : d.Alike e) :
    e.Stalls position resolve ↔ d.Stalls position resolve := by
  rw [Stalls, Stalls, gains_alike upToDate other alike, Lacks, Lacks,
    (attempt_alike alike position resolve).1]

/-- A round that stalls leaves as much to arrive as there was. -/
theorem round_stalled (upToDate : d.UpToDate document) (stalls : d.Stalls position resolve) :
    (d.attempt position resolve).2.Alike (d.round position resolve) := by
  obtain ⟨lacks, gains⟩ := stalls
  obtain ⟨watched, _⟩ := upToDate.attempt position resolve
  have arrived : (d.round position resolve).arrived = d.arrived := by
    funext index
    rw [Bool.eq_iff_iff, round_arrived lacks]
    refine ⟨fun either => either.elim id ?_, .inl⟩
    rintro ⟨extent, asked, within⟩
    cases present : d.arrived index with
    | true => rfl
    | false => exact absurd ⟨extent, asked, index, within, present⟩ gains
  refine ⟨arrived.trans (d.attempt_arrived position resolve).symm, ?_⟩
  rw [round_lacking lacks] at arrived ⊢
  have available : some (Availability.ofBytes (d.attempt position resolve).2.fulfil.arrived) =
      (d.attempt position resolve).2.reader.gate.availability := by
    rw [watched.availability, arrived]
  generalize (d.attempt position resolve).2 = after at available ⊢
  refine ⟨after.reader.gate.problems, after.reader.gate.requests, ?_⟩
  unfold fulfil at available ⊢
  simp only at available ⊢
  rw [available]

theorem Alike.trans {f : Download} (first : d.Alike e) (second : e.Alike f) : d.Alike f := by
  obtain ⟨arrived, _, _, reader⟩ := first
  obtain ⟨arrivedToo, problems, requests, readerToo⟩ := second
  exact ⟨arrivedToo.trans arrived, problems, requests, by rw [readerToo, reader]⟩

/-- A round that stalls and leaves the reader where it was stalls for ever. -/
theorem UpToDate.stuck (upToDate : d.UpToDate document) (stalls : d.Stalls position resolve)
    (returns : d.Alike (d.attempt position resolve).2) (other : e.UpToDate document)
    (alike : d.Alike e) (n : Nat) : (e.before position resolve n).Stalls position resolve := by
  have stays : d.Alike (e.before position resolve n) := by
    induction n with
    | zero => exact alike
    | succ n ih =>
      have again := (stalls_alike upToDate (other.before n) ih).mpr stalls
      obtain ⟨_, _, _, _, after⟩ := attempt_alike ih position resolve
      exact (returns.trans after).trans (round_stalled (other.before n) again)
  exact (stalls_alike upToDate (other.before n) stays).mpr stalls

/-- What an attempt may change of a reader with a source in memory, but for the notes at the gate. -/
theorem alike_attempt {bytes : Array UInt8} (memory : d.reader.gate.source = .memory bytes)
    (position : Nat) (resolve : Resolver) :
    Alike
      { d with
        reader :=
          { d.reader with
            position := (d.attempt position resolve).2.reader.position
            window := (d.attempt position resolve).2.reader.window
            lastWord := (d.attempt position resolve).2.reader.lastWord
            trailerEnds := (d.attempt position resolve).2.reader.trailerEnds } }
      (d.attempt position resolve).2 := by
  have stays := Gate.stays_evolution.reader.run (Parse.indirectAt position resolve).run
    { d.reader with gate := d.reader.gate.reset }
  have continues := Reader.continues.run (Parse.indirectAt position resolve).run
    { d.reader with gate := d.reader.gate.reset }
  have source := (stays.memory bytes memory).trans memory.symm
  simp only [attempt]
  revert stays continues source
  generalize ((Parse.indirectAt position resolve).run.run
    { d.reader with gate := d.reader.gate.reset }).2 = after
  intro stays continues source
  obtain ⟨gate, origin, options, position, window, lastWord, depth, trailerEnds⟩ := after
  obtain ⟨rfl, rfl, rfl⟩ := continues
  obtain ⟨availability, complete, _⟩ := stays
  refine ⟨rfl, gate.problems, gate.requests, ?_⟩
  obtain ⟨_, _, problems, _, requests⟩ := gate
  subst source availability complete
  rfl

/-- How far trying again gets. A round that lacks data gains something exactly if not all it asks for
is blocks whose padding alone is missing. The rounds come to a result exactly if they do not stall for
ever. And a range that is found missing is found to be there, once what was asked for has arrived,
exactly if the padding behind its blocks was there before. -/
theorem UpToDate.progress_exactly (upToDate : d.UpToDate document) (position : Nat) (resolve : Resolver) :
    (∀ n, (d.before position resolve n).Lacks position resolve →
      ∃ extents, ((d.before position resolve n).attempt position resolve).2.reader.gate.requests =
          (d.before position resolve n).reader.gate.requests ++ extents ∧ extents ≠ [] ∧
        ((d.before position resolve n).Gains position resolve ↔
          ∃ extent ∈ extents, ¬ (d.before position resolve n).OnlyPads document.length extent)) ∧
    ((∃ n, ¬ (d.before position resolve n).Lacks position resolve) ↔
      ¬ ∃ first, ∀ n, first ≤ n → (d.before position resolve n).Stalls position resolve) ∧
    (∀ offset length extent, 0 < length → offset < document.length →
      Gate.blocks document.length offset length = some extent →
      (d.check offset length).1 = false →
      (((d.check offset length).2.fulfil.check offset length).1 = true ↔
        ∀ index, extent.offset + extent.length ≤ index →
          index < min (offset + length + Gate.padding) document.length →
          d.arrived index = true)) :=
  ⟨fun n lacks => (upToDate.before n).gains_iff lacks, upToDate.ends_iff,
    fun _ _ _ positive inside asked failed => upToDate.check_iff positive inside asked failed⟩

/-- A document with a stream that ends with a block. What follows is short of the padding. -/
def edgeDocument : Bytes :=
  Bytes.ofAscii ['1', ' ', '0', ' ', 'o', 'b', 'j', '<', '<', '/', 'L', 'e', 'n', 'g', 't', 'h', ' ',
    '4', '8', '3', '>', '>', 's', 't', 'r', 'e', 'a', 'm', '\n'] ++
  List.replicate 483 'x'.toUInt8 ++ [Byte.lineFeed] ++ Payload.endStream ++ [Byte.lineFeed] ++
  Payload.endObject

/-- Its first block has arrived, and the stream with it, but nothing else. -/
def edgeDownload : Download where
  reader := Reader.ofGate
    { source := .memory edgeDocument.toArray, availability := some (.ofBytes (· < 512)) } 0
    { windowSize := 1 }
  arrived := (· < 512)

/-- The same after an attempt, which got as far as the payload. -/
def edgeDownloadTried : Download :=
  { edgeDownload with
    reader :=
      { edgeDownload.reader with
        position := 29
        window := ⟨28, #[Byte.lineFeed]⟩
        lastWord := Parse.streamKeyword } }

/-- What an attempt at the example comes to. -/
private def AsksAgain (d : Download) : Prop :=
  Error.of? (d.attempt 0 fun _ => none).1 = some .dataUnavailable ∧
  (d.attempt 0 fun _ => none).2.reader.gate.requests = [⟨0, 512⟩] ∧
  (d.attempt 0 fun _ => none).2.reader.position = 29 ∧
  (d.attempt 0 fun _ => none).2.reader.window = ⟨28, #[Byte.lineFeed]⟩ ∧
  (d.attempt 0 fun _ => none).2.reader.lastWord = Parse.streamKeyword ∧
  (d.attempt 0 fun _ => none).2.reader.trailerEnds = none

private theorem edgeDownload_asksAgain : AsksAgain edgeDownload := by
  unfold AsksAgain
  decide +kernel

private theorem edgeDownloadTried_asksAgain : AsksAgain edgeDownloadTried := by
  unfold AsksAgain
  decide +kernel

private theorem asksAgain_stalls (again : AsksAgain d) (arrived : d.arrived = (· < 512)) :
    d.Stalls 0 fun _ => none := by
  refine ⟨Error.of?_eq_some.mp again.1, ?_⟩
  rintro ⟨extent, asked, index, within, missing⟩
  rw [again.2.1, List.mem_singleton] at asked
  subst asked
  simp only [Availability.holds, Bool.and_eq_true, decide_eq_true_eq, arrived,
    decide_eq_false_iff_not] at within missing
  omega

theorem edgeDownload_upToDate : edgeDownload.UpToDate edgeDocument :=
  ofGate_upToDate (.memory edgeDocument.toArray) rfl (· < 512) 0 { windowSize := 1 }

theorem edgeDownload_stalls (n : Nat) :
    (edgeDownload.before 0 (fun _ => none) n).Stalls 0 fun _ => none := by
  have returns := alike_attempt (d := edgeDownloadTried) rfl 0 fun _ => none
  have alike := alike_attempt (d := edgeDownload) rfl 0 fun _ => none
  obtain ⟨_, _, position, window, lastWord, trailerEnds⟩ := edgeDownload_asksAgain
  obtain ⟨_, _, positionToo, windowToo, lastWordToo, trailerEndsToo⟩ := edgeDownloadTried_asksAgain
  rw [position, window, lastWord, trailerEnds] at alike
  rw [positionToo, windowToo, lastWordToo, trailerEndsToo] at returns
  have upToDate : edgeDownloadTried.UpToDate edgeDocument :=
    ⟨edgeDownload_upToDate.gate, edgeDownload_upToDate.asked, edgeDownload_upToDate.origin, by
      intro index inside
      obtain rfl : index = 0 := by simpa [edgeDownloadTried] using inside
      decide +kernel⟩
  have stalls := asksAgain_stalls edgeDownload_asksAgain rfl
  cases n with
  | zero => exact stalls
  | succ n =>
    rw [Nat.add_comm, before_add]
    exact upToDate.stuck (asksAgain_stalls edgeDownloadTried_asksAgain rfl) returns edgeDownload_upToDate.round
      (alike.trans (round_stalled edgeDownload_upToDate stalls)) n

/-- Over the example no round ever comes to a result. -/
theorem edgeDownload_never_ends :
    edgeDownload.UpToDate edgeDocument ∧
      ∀ n, ((edgeDownload.before 0 (fun _ => none) n).attempt 0 fun _ => none).1 =
        .error .dataUnavailable := by
  refine ⟨edgeDownload_upToDate, fun n => Classical.byContradiction fun done => ?_⟩
  exact (edgeDownload_upToDate.progress_exactly 0 fun _ => none).2.1.mp ⟨n, done⟩
    ⟨0, fun n _ => edgeDownload_stalls n⟩

end PdfObjects.Download
