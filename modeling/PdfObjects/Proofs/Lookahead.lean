import PdfObjects.Proofs.Skipping
import PdfObjects.Proofs.Trailers

/-! The record of trailers under lookahead. Whoever looks ahead at words skips the blanks and comments in
front of them, notes the ends of the markers there, and goes back; the note stays, and the next reading of
the same bytes makes it again. As long as the cursor is never put back in front of an end that has been
noted, the record is in order and names each end once. -/
namespace PdfObjects

namespace Lexis

variable {text line : Bytes} {stop position : Nat}

/-- The ends of the markers in what is skipped at the start of a text that stands at a position. -/
def passed (position : Nat) (text : Bytes) : List Nat :=
  trailerEnds none position (text.take (skipped false text))

/-- A line feed is skipped with the blank before it. -/
theorem head_skipped (text : Bytes) :
    (text.take (skipped false text)).head? = some Byte.lineFeed ↔
      text.head? = some Byte.lineFeed := by
  rw [List.head?_take]
  constructor
  · intro found
    split at found
    · cases found
    · exact found
  · intro found
    obtain ⟨after, rfl⟩ := List.head?_eq_some_iff.mp found
    simp [skipped, show Byte.isWhitespace Byte.lineFeed = true from rfl]

/-- What the search finds in a text, it finds in what is skipped or in the rest. -/
theorem trailerEnds_skipped (state : Option Marker) (position : Nat) (text : Bytes) :
    trailerEnds state position text =
      trailerEnds state position (text.take (skipped state.isSome text)) ++
        trailerEnds none (position + skipped state.isSome text)
          (text.drop (skipped state.isSome text)) := by
  induction text generalizing state position with
  | nil => cases state <;> rfl
  | cons b rest ih =>
    have later (state : Option Marker) := ih state (position + 1)
    simp only [Nat.add_assoc, Nat.add_comm 1] at later
    cases state with
    | none =>
      by_cases blank : Byte.isWhitespace b = true
      · have other : b ≠ Byte.percent := by
          rintro rfl
          cases blank
        simpa [skipped, blank, trailerEnds, other] using later none
      · by_cases percent : b = Byte.percent
        · subst percent
          simpa [skipped, blank, trailerEnds] using later (some .percents)
        · simp [skipped, blank, percent, trailerEnds]
    | some marker =>
      by_cases ending : Byte.isLineEnding b = true
      · have after := later none
        by_cases complete : marker.isComplete = true
        · simpa [skipped, ending, trailerEnds, complete, head_skipped] using after
        · simpa [skipped, ending, trailerEnds, complete] using after
      · simpa [skipped, ending, trailerEnds] using later (some (marker.step b))

theorem closedLine_le (closed : ClosedLine text line stop) : stop ≤ text.length := by
  induction closed with
  | first _ _ =>
    simp only [List.length_append]
    omega
  | later _ _ _ ih =>
    simp only [List.length_append]
    omega

theorem passed_bounds (found : stop ∈ passed position text) :
    position < stop ∧ stop ≤ position + skipped false text := by
  obtain ⟨line, behind, closed, _, rfl⟩ := (mem_trailerEnds _ _ _).mp found
  have positive := closedLine_pos closed
  have inside := closedLine_le closed
  have cut := List.length_take_le (skipped false text) text
  omega

end Lexis

namespace Resident

variable {t : Resident} {ends : List Nat}

/-- The markers between the cursor and the next word. -/
def gap (t : Resident) : List Nat := Lexis.passed t.position (t.bytes.drop t.position)

/-- A run adds to the record and takes nothing away. -/
def Grows (t after : Resident) : Prop :=
  ∀ ends, t.trailerEnds = some ends → ∃ more, after.trailerEnds = some (ends ++ more)

theorem grows : Scan.Evolution Grows where
  refl _ ends same := ⟨[], same.trans (by rw [List.append_nil])⟩
  trans _ _ _ first rest ends same := by
    obtain ⟨some, middle⟩ := first ends same
    obtain ⟨more, last⟩ := rest _ middle
    exact ⟨some ++ more, last.trans (by rw [List.append_assoc])⟩
  perform command t ends same := by
    have kept : t.trailerEnds = some (ends ++ []) := same.trans (by rw [List.append_nil])
    cases command with
    | next => exact ⟨[], (Scan.next_silent t).trans kept⟩
    | noteTrailer ending => exact ⟨_, congrArg (Option.map _) same⟩
    | seek | byteAt | byteBehind | position | documentSize | settings | block | check | keepWord
    | lastWord => exact ⟨[], kept⟩
  session _ _ inside := inside
  nested t inner after enters grows := by
    obtain ⟨_, rfl⟩ := entered enters
    exact grows

end Resident

namespace Scan

variable {t : Resident} {ends : List Nat}

/-- Skipping records the markers that it passes, whether they have been recorded before or not. -/
theorem skipBlanks_records (recorded : t.trailerEnds = some ends) :
    (skipBlanks.run t).2.trailerEnds = some (ends ++ t.gap) := by
  obtain ⟨after, same, all⟩ := skipBlanks_finds (t := t) ⟨ends, recorded, rfl⟩
  rw [run_bytes, skipBlanks_place, ← List.drop_drop,
    Lexis.trailerEnds_skipped none t.position (t.bytes.drop t.position), ← List.append_assoc] at all
  rw [same, List.append_cancel_right all]
  rfl

theorem word_records (recorded : t.trailerEnds = some ends) :
    (word.run t).2.trailerEnds = some (ends ++ t.gap) :=
  (lexeme_silent (skipBlanks.run t).2).trans (skipBlanks_records recorded)

theorem peekWord_run (t : Resident) :
    peekWord.run t = ((word.run t).1, (word.run t).2.seek t.position) := rfl

/-- Going back leaves the notes. -/
theorem peekWord_records (recorded : t.trailerEnds = some ends) :
    (peekWord.run t).2.trailerEnds = some (ends ++ t.gap) := by
  rw [peekWord_run, ← word_records recorded]
  rfl

theorem peekWord_position (inside : t.position ≤ t.bytes.length) :
    (peekWord.run t).2.position = t.position := by
  rw [peekWord_run, Resident.seek, run_bytes]
  exact Nat.min_eq_left inside

/-- A program that starts by reading a word. -/
def Begins (program : Scan α) (t : Resident) : Prop :=
  ∃ later : Scan α, program.run t = later.run (word.run t).2

theorem begins_word (rest : Word → Scan α) : (word >>= rest).Begins t :=
  ⟨rest (word.run t).1, rfl⟩

theorem begins_position {rest : Nat → Scan α} (begins : (rest t.position).Begins t) :
    (position >>= rest).Begins t := begins

theorem Begins.andThen {first : Scan α} (begins : first.Begins t) (rest : α → Scan β) :
    (first >>= rest).Begins t := by
  obtain ⟨later, same⟩ := begins
  exact ⟨later >>= rest, by rw [run_bind, same, run_bind]⟩

end Scan

namespace Parse

variable {t : Resident}

theorem begins_word (rest : Word → Parse α) : (liftM Scan.word >>= rest : Parse α).run.Begins t :=
  ⟨(rest (Scan.word.run t).1).run, run_bind_lift Scan.word rest t⟩

theorem begins_position {rest : Nat → Parse α} (begins : (rest t.position).run.Begins t) :
    (liftM Scan.position >>= rest : Parse α).run.Begins t := begins

theorem begins_andThen {first : Parse α} (begins : first.run.Begins t) (rest : α → Parse β) :
    (first >>= rest).run.Begins t :=
  Scan.Begins.andThen begins (ExceptT.bindCont rest)

theorem begins_whole {body : Parse α} (begins : body.run.Begins t) : (whole body).run.Begins t := by
  rw [Scan.Begins, whole_resident]
  exact begins

end Parse

/-- Carries out calls one after the other. -/
def Call.after {σ : Type} [Readable σ] (calls : List Call) (s : σ) : σ :=
  calls.foldl (fun s call => (call.program.run s).2) s

namespace Call

variable {σ τ : Type} [Readable σ] [Readable τ]

theorem after_append (first rest : List Call) (s : σ) :
    after (first ++ rest) s = after rest (after first s) := List.foldl_append

theorem after_evolves {step : σ → σ → Prop} (evolves : Scan.Evolution step) (calls : List Call) :
    ∀ s : σ, step s (after calls s) := by
  induction calls with
  | nil => exact evolves.refl
  | cons call calls ih => exact fun s => evolves.trans _ _ _ (evolves.run call.program s) (ih _)

theorem after_related {related : σ → τ → Prop} (simulates : Scan.Simulation related)
    (calls : List Call) : ∀ s t, related s t → related (after calls s) (after calls t) := by
  induction calls with
  | nil => exact fun _ _ holds => holds
  | cons call calls ih => exact fun s t holds => ih _ _ (simulates.run call.program s t holds).2

/-- Whether a call reads a word at all. An object is not read where nothing may nest. -/
def Reads (limits : Limits) : Call → Prop
  | .object _ => limits.depth < limits.nesting
  | _ => True

/-- A forward call reads the next word first. -/
theorem Forward.begins {call : Call} (forward : call.Forward) {t : Resident}
    (reads : call.Reads t.limits) : call.program.Begins t := by
  cases call with
  | word => exact Scan.begins_word _
  | peekWord => exact Scan.Begins.andThen (Scan.begins_position (Scan.begins_word _)) _
  | object resolve =>
    have enough : t.limits.nesting - t.limits.depth = t.limits.nesting - t.limits.depth - 1 + 1 :=
      (Nat.succ_pred_eq_of_pos (Nat.sub_pos_of_lt reads)).symm
    refine Scan.Begins.andThen (Parse.begins_whole ?_) _
    rw [Scan.Begins, Parse.anyObject_run, enough]
    exact Parse.begins_position (Parse.begins_word _)
  | indirect resolve mode =>
    exact Scan.Begins.andThen (Parse.begins_whole
      (Parse.begins_position (Parse.begins_andThen (Parse.begins_word _) _))) _
  | _ => exact forward.elim

/-- So it records the markers in front of that, whether they have been recorded before or not. -/
theorem Forward.records {call : Call} (forward : call.Forward) {t : Resident} {ends : List Nat}
    (reads : call.Reads t.limits) (recorded : t.trailerEnds = some ends) :
    ∃ more, (call.program.run t).2.trailerEnds = some (ends ++ t.gap ++ more) := by
  obtain ⟨later, same⟩ := forward.begins reads
  rw [same]
  exact Resident.grows.run later _ _ (Scan.word_records recorded)

/-- What stands twice in a sorted list is nothing. -/
theorem gap_of_sorted {ends gap more : List Nat}
    (increasing : (ends ++ gap ++ gap ++ more).Pairwise (· < ·)) : gap = [] := by
  have apart := (List.pairwise_append.mp (List.pairwise_append.mp increasing).1).2.2
  refine List.eq_nil_iff_forall_not_mem.mpr fun stop passed => ?_
  exact Nat.lt_irrefl stop (apart stop (List.mem_append_right _ passed) stop passed)

/-- Behind a look ahead it records them a second time. -/
theorem Forward.records_twice {call : Call} (forward : call.Forward) {t : Resident} {ends : List Nat}
    (inside : t.position ≤ t.bytes.length) (reads : call.Reads t.limits)
    (recorded : t.trailerEnds = some ends) : ∃ twice,
      (call.program.run (Scan.peekWord.run t).2).2.trailerEnds = some twice ∧
        ends ++ t.gap ++ t.gap <+: twice ∧ (twice.Pairwise (· < ·) → t.gap = []) := by
  have back : (Scan.peekWord.run t).2.gap = t.gap := by
    rw [Resident.gap, Scan.run_bytes, Scan.peekWord_position inside]
    rfl
  have allowed : call.Reads (Scan.peekWord.run t).2.limits := by
    rw [(Scan.peekWord.run_continues t).limits]
    exact reads
  obtain ⟨more, read⟩ := forward.records allowed (Scan.peekWord_records recorded)
  rw [back] at read
  exact ⟨_, read, ⟨more, rfl⟩, gap_of_sorted⟩

end Call

/-- A reader that is watched: whether its cursor was ever put in front of an end that it had recorded. -/
structure Watch (σ : Type) where
  reader : σ
  retreated : Bool

namespace Watch

variable {σ : Type} [Recording σ]

/-- A reader from now on. -/
def start (s : σ) : Watch σ := ⟨s, false⟩

/-- Whether a reader stands in front of an end that it has recorded. -/
def isBefore (s : σ) : Bool :=
  (Recording.trailerEnds s).any fun ends => ends.any ((Scan.position.run s).1 < ·)

/-- Whether a command puts the cursor where it is told. -/
def moves : Command α → Bool
  | .seek _ => true
  | _ => false

instance : Readable (Watch σ) where
  perform command w :=
    let (answer, after) := Readable.perform command w.reader
    (answer, ⟨after, w.retreated || (moves command && isBefore after)⟩)
  openSession w := ⟨Readable.openSession w.reader, w.retreated⟩
  closeSession before after :=
    let (problems, closed) := Readable.closeSession before.reader after.reader
    (problems, ⟨closed, after.retreated⟩)
  enter w := (Readable.enter w.reader).map (⟨·, w.retreated⟩)
  leave w := ⟨Readable.leave w.reader, w.retreated⟩

/-- Watching changes nothing. -/
theorem watched : Scan.Simulation fun (w : Watch σ) (s : σ) => w.reader = s where
  perform _ _ _ same := same ▸ ⟨rfl, rfl⟩
  openSession _ _ same := congrArg Readable.openSession same
  closeSession _ _ _ _ same after := same ▸ after ▸ ⟨rfl, rfl⟩
  enter w s same := by
    subst same
    change Option.Rel _ ((Readable.enter w.reader).map (Watch.mk · w.retreated)) _
    cases Readable.enter w.reader with
    | none => exact .none
    | some inside => exact .some rfl
  leave _ _ same := congrArg Readable.leave same

/-- A level of nesting is taken by the reader that is watched. -/
theorem entered {w inside : Watch σ} (enters : Readable.enter w = some inside) :
    ∃ inner, Readable.enter w.reader = some inner ∧ inside = ⟨inner, w.retreated⟩ := by
  obtain ⟨inner, found, same⟩ := Option.map_eq_some_iff.mp enters
  exact ⟨inner, found, same.symm⟩

theorem after_reader (calls : List Call) (s : σ) :
    (Call.after calls (start s)).reader = Call.after calls s :=
  Call.after_related watched calls (start s) s rfl

/-- A step back is not forgotten. -/
theorem remembers : Scan.Evolution fun w after : Watch σ =>
    after.retreated = false → w.retreated = false where
  refl _ clear := clear
  trans _ _ _ first rest clear := first (rest clear)
  perform _ _ clear := (Bool.or_eq_false_iff.mp clear).1
  session _ _ inside := inside
  nested w inside after enters kept := by
    obtain ⟨_, _, rfl⟩ := entered enters
    exact kept

/-- Without a step back the record is in order, and the cursor is not in front of its last end. -/
def Ordered (w : Watch Resident) : Prop :=
  w.retreated = false → ∃ ends, w.reader.trailerEnds = some ends ∧ ends.Pairwise (· < ·) ∧
    ∀ stop ∈ ends, stop ≤ w.reader.position

variable {w : Watch Resident}

theorem le_position {t : Resident} {ends : List Nat} (recorded : t.trailerEnds = some ends)
    (behind : isBefore t = false) : ∀ stop ∈ ends, stop ≤ t.position := by
  have none : ends.any (t.position < ·) = false := by
    rw [← behind]
    simp only [isBefore, Recording.trailerEnds, recorded]
    rfl
  intro stop found
  simpa using List.any_eq_false.mp none stop found

theorem Ordered.perform (ordered : w.Ordered) {command : Command α} (silent : command.Silent) :
    (Readable.perform command w).2.Ordered := by
  intro clear
  obtain ⟨before, here⟩ := Bool.or_eq_false_iff.mp clear
  obtain ⟨ends, recorded, increasing, behind⟩ := ordered before
  cases command with
  | next =>
    have further : w.reader.position ≤ w.reader.next.2.position := by
      unfold Resident.next
      split
      · exact Nat.le_succ _
      · exact Nat.le_refl _
    exact ⟨ends, (Scan.next_silent w.reader).trans recorded, increasing, fun stop found =>
      Nat.le_trans (behind stop found) further⟩
  | seek position => exact ⟨ends, recorded, increasing, le_position recorded here⟩
  | noteTrailer => exact silent.elim
  | byteAt | byteBehind | position | documentSize | settings | block | check | keepWord | lastWord =>
    exact ⟨ends, recorded, increasing, behind⟩

theorem Ordered.skipBlanks (ordered : w.Ordered) : (Scan.skipBlanks.run w).2.Ordered := by
  intro clear
  obtain ⟨ends, recorded, increasing, behind⟩ :=
    ordered (remembers.run Scan.skipBlanks w clear)
  have same : (Scan.skipBlanks.run w).2.reader = (Scan.skipBlanks.run w.reader).2 :=
    (watched.run Scan.skipBlanks w w.reader rfl).2
  rw [same, Scan.skipBlanks_place]
  refine ⟨_, Scan.skipBlanks_records recorded, List.pairwise_append.mpr
    ⟨increasing, Lexis.trailerEnds_increasing _ _, ?_⟩, ?_⟩
  · intro stop found later passed
    exact Nat.lt_of_le_of_lt (behind stop found) (Lexis.passed_bounds passed).1
  · intro stop found
    rcases List.mem_append.mp found with earlier | passed
    · exact Nat.le_add_right_of_le (behind stop earlier)
    · exact (Lexis.passed_bounds passed).2

/-- Skipping alone adds to the record, so order is a matter of the steps back in between. -/
theorem Ordered.run {program : Scan α} (skipping : program.Skipping True) :
    ∀ w : Watch Resident, w.Ordered → (program.run w).2.Ordered := by
  induction skipping with
  | pure value => exact fun _ ordered => ordered
  | bind _ _ ihFirst ihRest => exact fun w ordered => ihRest _ _ (ihFirst w ordered)
  | perform silent => exact fun _ ordered => ordered.perform silent
  | session _ ih => exact fun w ordered => ih _ ordered
  | nested _ _ _ ihBody ihRefused =>
    intro w ordered
    cases enters : Readable.enter w with
    | none =>
      rw [Scan.run_refused enters]
      exact ihRefused w ordered
    | some inside =>
      rw [Scan.run_entered enters]
      obtain ⟨inner, found, rfl⟩ := entered enters
      obtain ⟨_, rfl⟩ := Resident.entered found
      exact ihBody _ ordered
  | skipBlanks => exact fun _ ordered => ordered.skipBlanks

theorem Ordered.after {calls : List Call} (forward : ∀ call ∈ calls, call.Forward) :
    ∀ w : Watch Resident, w.Ordered → (Call.after calls w).Ordered := by
  induction calls with
  | nil => exact fun _ ordered => ordered
  | cons call calls ih =>
    obtain ⟨first, rest⟩ := List.forall_mem_cons.mp forward
    exact fun w ordered => ih rest _ (Ordered.run first.skipping w ordered)

/-- A watched reader of a whole document, and the document itself, watched as well. -/
structure Mirrors (document : Bytes) (w : Watch Reader) (v : Watch Resident) : Prop where
  whole : w.reader.Whole document
  clear : w.reader.gate.problems = {}
  reader : v.reader = w.reader.mirror document
  retreated : v.retreated = w.retreated

theorem mirrors (document : Bytes) : Scan.Simulation (Mirrors document) where
  perform command w v same := by
    have image : Readable.perform command (w.reader.mirror document) =
        ((Readable.perform command w.reader).1,
          (Readable.perform command w.reader).2.mirror document) :=
      same.whole.mirror_run same.clear (.perform command)
    have reader : Readable.perform command v.reader =
        ((Readable.perform command w.reader).1,
          (Readable.perform command w.reader).2.mirror document) := by rw [same.reader, image]
    refine ⟨(congrArg Prod.fst reader).symm, same.whole.run (.perform command),
      (same.whole.untroubled (.perform command)).trans same.clear, congrArg Prod.snd reader, ?_⟩
    change (v.retreated || (moves command && isBefore (Readable.perform command v.reader).2)) = _
    rw [reader, same.retreated]
    rfl
  openSession w v same :=
    ⟨⟨⟨same.whole.gate.source, same.whole.gate.opens⟩, same.whole.origin, same.whole.window⟩, rfl,
      same.reader, same.retreated⟩
  closeSession w w' v v' same after := by
    refine ⟨?_, ⟨⟨after.whole.gate.source, after.whole.gate.opens⟩, after.whole.origin,
      after.whole.window⟩, ?_, after.reader, after.retreated⟩
    · change w'.reader.gate.problems.any = false
      rw [after.clear]
      rfl
    · change w'.reader.gate.problems.merge w.reader.gate.problems = {}
      rw [after.clear, same.clear]
      rfl
  enter w v same := by
    have image : Readable.enter v.reader = (Readable.enter w.reader).map (Reader.mirror document) := by
      rw [same.reader, Reader.mirror_enter]
    change Option.Rel _ ((Readable.enter w.reader).map (Watch.mk · w.retreated))
      ((Readable.enter v.reader).map (Watch.mk · v.retreated))
    rw [image]
    cases enters : Readable.enter w.reader with
    | none => exact .none
    | some inside =>
      obtain ⟨_, rfl⟩ := Reader.entered enters
      exact .some ⟨⟨same.whole.gate, same.whole.origin, same.whole.window⟩, same.clear, rfl, same.retreated⟩
  leave w v same :=
    ⟨⟨same.whole.gate, same.whole.origin, same.whole.window⟩, same.clear,
      congrArg Readable.leave same.reader, same.retreated⟩

end Watch

namespace Reader

variable {text : Bytes} {options : Options} {r : Reader}

theorem Presents.limits (presents : r.Presents text options) :
    r.limits = (Resident.ofBytes text options).limits := by
  obtain ⟨source, held, start, holds, rfl, rfl⟩ := presents
  exact congrArg Resident.limits (ofGate_mirror holds start options)

/-- A new reader of a text and the text itself stay images of each other, call by call. -/
theorem Presents.after (presents : r.Presents text options) (calls : List Call) :
    (Call.after calls r).trailerEnds = (Call.after calls (Resident.ofBytes text options)).trailerEnds ∧
    (Call.after calls r).position = (Call.after calls (Resident.ofBytes text options)).position ∧
    (Call.after calls (Watch.start r)).retreated =
      (Call.after calls (Watch.start (Resident.ofBytes text options))).retreated := by
  obtain ⟨source, held, start, holds, rfl, rfl⟩ := presents
  have begun : Watch.Mirrors held (Watch.start (ofGate { source } start options))
      (Watch.start (Resident.ofBytes (held.drop start) options)) :=
    ⟨ofGate_whole holds start options, rfl, (ofGate_mirror holds start options).symm, rfl⟩
  have image := Call.after_related (Watch.mirrors held) calls _ _ begun
  rw [← Watch.after_reader, ← Watch.after_reader, image.reader]
  exact ⟨rfl, rfl, image.retreated.symm⟩

/-- What words and objects leave in the record, when they are read one after the other from the start of
a document, with looks ahead in between. If the cursor is never put back in front of an end that has been
recorded, the record is in order and names each end once. But a look ahead at a word records the ends of
the markers in front of it, as reading it does, and whatever is read from there next records them again:
so the record stays in order only if the look ahead passes no marker. -/
theorem Presents.records_ahead (presents : r.Presents text options)
    (recording : options.recordTrailers = true) {calls : List Call}
    (forward : ∀ call ∈ calls, call.Forward) :
    let here := (Call.after calls r).position
    let gap := Lexis.passed here (text.drop here)
    ∃ ends, (Call.after calls r).trailerEnds = some ends ∧
      ((Call.after calls (Watch.start r)).retreated = false → ends.Pairwise (· < ·)) ∧
      (Call.after (calls ++ [.word]) r).trailerEnds = some (ends ++ gap) ∧
      (Call.after (calls ++ [.peekWord]) r).trailerEnds = some (ends ++ gap) ∧
      ∀ call, call.Forward → call.Reads r.limits →
        ∃ twice, (Call.after (calls ++ [.peekWord, call]) r).trailerEnds = some twice ∧
          ends ++ gap ++ gap <+: twice ∧ (twice.Pairwise (· < ·) → gap = []) := by
  intro here gap
  obtain ⟨image, place, steps⟩ := presents.after calls
  have continues := Call.after_evolves Resident.continues calls (Resident.ofBytes text options)
  obtain ⟨ends, recorded⟩ := Call.after_evolves Resident.grows calls (Resident.ofBytes text options)
    [] (by simp [Resident.ofBytes, recording])
  rw [List.nil_append] at recorded
  have inside := continues.inside (Nat.zero_le _)
  have ordered := Watch.Ordered.after forward (Watch.start (Resident.ofBytes text options))
    fun _ => ⟨[], by simp [Watch.start, Resident.ofBytes, recording], .nil, by simp⟩
  have reader := Watch.after_reader calls (Resident.ofBytes text options)
  have ahead : (Call.after calls (Resident.ofBytes text options)).gap = gap := by
    rw [Resident.gap, continues.bytes, ← place]
    rfl
  have limits : r.limits = (Call.after calls (Resident.ofBytes text options)).limits :=
    presents.limits.trans continues.limits.symm
  have bytes := continues.bytes
  generalize now : Call.after calls (Resident.ofBytes text options) = t at *
  refine ⟨ends, image.trans recorded, fun clear => ?_, ?_, ?_, ?_⟩
  · obtain ⟨same, found, increasing, _⟩ := ordered (steps.symm.trans clear)
    rw [reader, recorded] at found
    cases found
    exact increasing
  · rw [(presents.after _).1, Call.after_append, now, ← ahead]
    exact Scan.word_records recorded
  · rw [(presents.after _).1, Call.after_append, now, ← ahead]
    exact Scan.peekWord_records recorded
  · intro call forward reads
    rw [limits] at reads
    rw [(presents.after _).1, Call.after_append, now, ← ahead]
    exact forward.records_twice (bytes ▸ inside) reads recorded

/-- Two markers, each in front of a number. -/
def aheadText : Bytes := Bytes.ofAscii "%%EOF\n1 %%EOF\r\n2 ".toList

def aheadReader : Reader := ofText aheadText { recordTrailers := true }

/-- Words alone record each marker once. A look ahead at the second number records the marker in front of
it twice, and so does the search for a reference behind the first number. -/
theorem aheadReader_records :
    (Call.after [.word, .word] (Watch.start aheadReader)).retreated = false ∧
    (∃ ends, (Call.after [.word, .word] aheadReader).trailerEnds = some ends ∧
      ends.Pairwise (· < ·)) ∧
    (∃ twice, (Call.after [.word, .peekWord, .word] aheadReader).trailerEnds = some twice ∧
      [6, 15, 15] <+: twice ∧ ¬ twice.Pairwise (· < ·)) ∧
    (Call.after [.object fun _ => none, .object fun _ => none] aheadReader).trailerEnds =
      some [6, 15, 15] := by
  have presents : aheadReader.Presents aheadText { recordTrailers := true } :=
    ⟨.memory aheadText.toArray, aheadText, 0, rfl, rfl, rfl⟩
  have forward (calls : List Call) (words : calls = [.word] ∨ calls = [.word, .word]) :
      ∀ call ∈ calls, call.Forward := by
    rcases words with rfl | rfl <;> simp [Call.Forward]
  have onward : (Call.after [.word, .word] (Watch.start aheadReader)).retreated = false := by
    decide +kernel
  have first : (Call.after [.word] aheadReader).trailerEnds = some [6] := by decide +kernel
  have gap : Lexis.passed (Call.after [.word] aheadReader).position
      (aheadText.drop (Call.after [.word] aheadReader).position) = [15] := by decide +kernel
  obtain ⟨ends, recorded, increasing, _⟩ := presents.records_ahead rfl (forward _ (.inr rfl))
  obtain ⟨one, found, _, _, _, ahead⟩ := presents.records_ahead rfl (forward _ (.inl rfl))
  obtain ⟨twice, read, starts, apart⟩ := ahead .word trivial trivial
  rw [first] at found
  cases found
  rw [gap] at starts apart
  refine ⟨onward, ⟨ends, recorded, increasing onward⟩, ⟨twice, read, starts, fun sorted => ?_⟩, ?_⟩
  · exact List.cons_ne_nil _ _ (apart sorted)
  · decide +kernel

end Reader
end PdfObjects
