import PdfObjects.Proofs.Payloads
import PdfObjects.Proofs.Rounds

/-! Recording changes nothing but the record. Where no trailers are recorded, blanks and comments are passed
by one loop inside another; where they are, by a machine that takes byte after byte and tells how far the
line agrees with a marker. Both take and put back the same bytes as the one program by which blanks are
skipped here, whatever of the document is missing, so they stop at the same place. And what is read next
depends on the place alone. -/
namespace PdfObjects

/-- What a line has come to, while trailers are recorded. -/
inductive LineState where
  /-- There is nothing but blanks so far. -/
  | blank
  /-- A word has begun, so skipping is over. -/
  | word
  | percents
  | firstLetter
  | secondLetter
  | lastLetter
  /-- A comment that is no marker. -/
  | other
  deriving DecidableEq, Repr

/-- What becomes of a line by one more byte. -/
def LineState.step : LineState → UInt8 → LineState
  | .blank, b =>
    if Byte.isWhitespace b then .blank else if b = Byte.percent then .percents else .word
  | .word, _ => .word
  | .percents, b => if b = 'E'.toUInt8 then .firstLetter else if b = Byte.percent then .percents else .other
  | .firstLetter, b => if b = 'O'.toUInt8 then .secondLetter else .other
  | .secondLetter, b => if b = 'F'.toUInt8 then .lastLetter else .other
  | .lastLetter, _ => .other
  | .other, _ => .other

/-- The comment in which a line is, and how far it agrees with a marker. -/
def LineState.marker : LineState → Option Marker
  | .blank | .word => none
  | .percents => some .percents
  | .firstLetter => some (.letters Marker.laterLetters)
  | .secondLetter => some (.letters ['F'.toUInt8])
  | .lastLetter => some (.letters [])
  | .other => some .other

/-- A comment agrees with a marker as far as the marker tells. -/
theorem LineState.marker_step {state : LineState} {marker : Marker} (comment : state.marker = some marker)
    (b : UInt8) : (state.step b).marker = some (marker.step b) := by
  cases state with
  | blank | word => cases comment
  | percents =>
    cases comment
    simp only [LineState.step, Marker.step]
    split
    · rfl
    · split <;> rfl
  | firstLetter =>
    cases comment
    change _ = some (if b = 'O'.toUInt8 then Marker.letters ['F'.toUInt8] else .other)
    simp only [LineState.step]
    split <;> rfl
  | secondLetter =>
    cases comment
    change _ = some (if b = 'F'.toUInt8 then Marker.letters [] else .other)
    simp only [LineState.step]
    split <;> rfl
  | lastLetter | other =>
    cases comment
    rfl

theorem LineState.marker_complete {state : LineState} {marker : Marker} (comment : state.marker = some marker) :
    marker.isComplete = true ↔ state = .lastLetter := by
  cases state <;> cases comment <;> decide

namespace Scan

/-- Goes past blanks, from a byte on that has been taken, and answers the first byte that is none. -/
def pastBlanks (b : UInt8) : Scan (Option UInt8) :=
  if Byte.isWhitespace b then
    take (fun _ b => if Byte.isWhitespace b then .more () else .through (some b)) (fun _ => none) ()
  else pure (some b)

/-- Goes past a comment and answers the byte that ends it. -/
def pastComment : Scan (Option UInt8) :=
  take (fun _ b => if Byte.isLineEnding b then .through (some b) else .more ()) (fun _ => none) ()

/-- One round of skipping without a record: blanks, and a comment behind them. The state is the byte that
has been taken last. -/
def plainRound : Option UInt8 → Scan (Round (Option UInt8) Unit)
  | none => do
    match ← next with
    | none => pure (.done ())
    | some b => pure (.again (some b))
  | some b => do
    match ← pastBlanks b with
    | none => pure (.done ())
    | some b =>
      if b = Byte.percent then
        match ← pastComment with
        | none => pure (.done ())
        | some ending => pure (.again (some ending))
      else
        unread
        pure (.done ())

/-- The last byte of a line ending, from its first byte on, which has been taken. A byte that ends no line is
its own last byte. -/
def endLine (b : UInt8) : Scan UInt8 := do
  if b = Byte.carriageReturn then
    match ← next with
    | none => pure b
    | some c =>
      if c = Byte.lineFeed then pure c
      else
        unread
        pure b
  else pure b

/-- Looks at the byte behind the letters of a marker, records the place behind the line if it ends there, and
answers the byte taken last. -/
def closeMarker (b : UInt8) : Scan UInt8 := do
  let b ← endLine b
  if Byte.isLineEnding b then noteTrailer Byte.lineFeed
  pure b

/-- What a round comes to by the byte taken last. -/
def nextState (state : LineState) (b : UInt8) : Scan (Round LineState Unit) := do
  let state := if Byte.isLineEnding b then .blank else state.step b
  if state = .word then
    unread
    pure (.done ())
  else pure (.again state)

/-- One round of skipping with a record: one byte, or two that end a marker. -/
def recordingRound (state : LineState) : Scan (Round LineState Unit) := do
  match ← next with
  | none => pure (.done ())
  | some b => if state = .lastLetter then nextState state (← closeMarker b) else nextState state b

variable {r s t u : Reader} {b : UInt8} {taken : Option UInt8} {n : Nat} {α β : Type}

section Rounds

variable {marker : Marker} {state : Option Marker}

theorem skipRound_end (ran : next.run t = (none, u)) : (skipRound state).run t = (.done (), u) := by
  simp only [skipRound, run_bind, ran]
  rfl

theorem skipRound_blank (ran : next.run t = (some b, u)) (blank : Byte.isWhitespace b = true) :
    (skipRound none).run t = (.again none, u) := by
  simp only [skipRound, run_bind, ran, blank, ↓reduceIte]
  rfl

theorem skipRound_percent (ran : next.run t = (some Byte.percent, u)) :
    (skipRound none).run t = (.again (some .percents), u) := by
  simp only [skipRound, run_bind, ran]
  rfl

theorem skipRound_word (ran : next.run t = (some b, u)) (blank : Byte.isWhitespace b = false)
    (percent : b ≠ Byte.percent) : (skipRound none).run t = (.done (), (unread.run u).2) := by
  simp only [skipRound, run_bind, ran, blank, Bool.false_eq_true, ↓reduceIte, if_neg percent]
  rfl

theorem skipRound_comment (ran : next.run t = (some b, u)) (inside : Byte.isLineEnding b = false) :
    (skipRound (some marker)).run t = (.again (some (marker.step b)), u) := by
  simp only [skipRound, run_bind, ran, inside, Bool.false_eq_true, ↓reduceIte]
  rfl

theorem skipRound_ending (ran : next.run t = (some b, u)) (ending : Byte.isLineEnding b = true) :
    (skipRound (some marker)).run t =
      (.again none, if marker.isComplete then u.noteTrailer b else u) := by
  simp only [skipRound, run_bind, ran, ending, ↓reduceIte]
  split <;> rfl

end Rounds

/-- Whether there is a record does not change. -/
theorem records_evolution : Evolution fun r t : Reader => t.trailerEnds.isSome = r.trailerEnds.isSome where
  refl _ := rfl
  trans _ _ _ first rest := rest.trans first
  perform command r := by
    have fetched (offset start : Nat) : (r.fetch offset start).2.trailerEnds = r.trailerEnds := by
      obtain ⟨gate, window, kept⟩ := r.fetch_kept offset start
      rw [kept]
    cases command with
    | next =>
      have kept := fetched (r.position + r.origin) (r.position + r.origin)
      simp only [Readable.perform, Reader.next, Reader.byteAt]
      split <;> rename_i same <;> rw [same] at kept <;> exact congrArg Option.isSome kept
    | byteAt position => exact congrArg Option.isSome (fetched _ _)
    | byteBehind position => exact congrArg Option.isSome (fetched _ _)
    | check position length =>
      simp only [Readable.perform, Reader.check]
      split <;> rfl
    | noteTrailer ending =>
      simp only [Readable.perform, Reader.noteTrailer]
      split
      · rfl
      · rename_i recorded
        rw [recorded]
        split <;> rfl
    | position | seek | documentSize | settings | block | keepWord | lastWord => rfl
  session _ _ inside := inside
  nested r inner after enters inside := by
    obtain ⟨_, rfl⟩ := Reader.entered enters
    exact inside

theorem quiet_run (quiet : t.trailerEnds = none) (program : Scan α) :
    (program.run t).2.trailerEnds = none := by
  have same := records_evolution.run program t
  rw [quiet] at same
  exact Option.not_isSome_iff_eq_none.mp (ne_true_of_eq_false same)

theorem Reaches.quiet {round : β → Scan (Round β α)} {state last : β}
    (reaches : Reaches round state s last t) (quiet : s.trailerEnds = none) : t.trailerEnds = none :=
  reaches.preserves (fun state s (quiet : s.trailerEnds = none) => quiet_run quiet (round state)) quiet

theorem Reaches.recorded {round : β → Scan (Round β α)} {state last : β}
    (reaches : Reaches round state s last t) (recorded : s.trailerEnds.isSome = true) :
    t.trailerEnds.isSome = true :=
  reaches.preserves (fun state s (held : s.trailerEnds.isSome = true) =>
    (records_evolution.run (round state) s).trans held) recorded

theorem ending_blank (ending : Byte.isLineEnding b = true) : Byte.isWhitespace b = true := by
  simp only [Byte.isLineEnding, Bool.or_eq_true, beq_iff_eq] at ending
  rcases ending with rfl | rfl <;> rfl

/-- Skipping has come behind a byte. If it is blank that was skipped; if not, it is what skipping takes
next. -/
inductive Behind (r : Reader) : (b : UInt8) → (t : Reader) → Prop where
  | blank {b : UInt8} {t : Reader} (blank : Byte.isWhitespace b = true)
    (reaches : Reaches skipRound none r none t) : Behind r b t
  | solid {b : UInt8} {s t : Reader} (solid : Byte.isWhitespace b = false)
    (reaches : Reaches skipRound none r none s) (ran : next.run s = (some b, t)) : Behind r b t

theorem behind_next (reaches : Reaches skipRound none r none s) (ran : next.run s = (some b, t)) :
    Behind r b t := by
  cases blank : Byte.isWhitespace b with
  | true => exact .blank blank (.again reaches (skipRound_blank ran blank))
  | false => exact .solid blank reaches ran

/-- Blanks are passed as skipping passes them. -/
theorem pastBlanks_ends (behind : Behind r b t) (inside : t.position ≤ t.size) :
    (pastBlanks b).Meets t fun found u =>
      match found with
      | none => Finishes skipRound none r () u
      | some c => Byte.isWhitespace c = false ∧ Behind r c u := by
  unfold pastBlanks
  cases behind with
  | solid solid reaches ran =>
    rw [if_neg (by simp [solid])]
    exact meets_pure ⟨solid, .solid solid reaches ran⟩
  | blank blank reaches =>
    rw [if_pos blank]
    refine @take_ends t _ _ _ _ (fun _ t => Reaches skipRound none r none t) _ (fun _ t _ reaches => ?_) ()
      inside reaches
    refine (meets_ran next t).bind fun found u ran => ?_
    cases found with
    | none => exact meets_pure (reaches.finishes (.done (skipRound_end ran)))
    | some c =>
      dsimp only
      cases blank : Byte.isWhitespace c with
      | true => exact meets_pure (.again reaches (skipRound_blank ran blank))
      | false => exact meets_pure ⟨blank, .solid blank reaches ran⟩

/-- So are comments. -/
theorem pastComment_ends {marker : Marker} (quiet : r.trailerEnds = none)
    (reaches : Reaches skipRound none r (some marker) t) (inside : t.position ≤ t.size) :
    pastComment.Meets t fun found u =>
      match found with
      | none => Finishes skipRound none r () u
      | some b => Behind r b u := by
  refine @take_ends t _ _ _ _ (fun _ t => ∃ marker, Reaches skipRound none r (some marker) t) _ ?_ () inside
    ⟨marker, reaches⟩
  rintro _ t _ ⟨marker, reaches⟩
  refine (meets_ran next t).bind fun found u ran => ?_
  cases found with
  | none => exact meets_pure (reaches.finishes (.done (skipRound_end ran)))
  | some c =>
    dsimp only
    cases ending : Byte.isLineEnding c with
    | false => exact meets_pure ⟨marker.step c, .again reaches (skipRound_comment ran ending)⟩
    | true =>
      have silent : u.noteTrailer c = u := by
        have after := quiet_run (reaches.quiet quiet) next
        rw [ran] at after
        change u.trailerEnds = none at after
        simp only [Reader.noteTrailer, after]
      have taken : (skipRound (some marker)).run t = _ := skipRound_ending ran ending
      rw [silent, ite_self] at taken
      exact meets_pure (.blank (ending_blank ending) (.again reaches taken))

/-- The byte that ends a comment has been taken. -/
theorem pastComment_meets (past : t.AdvancedFrom r n) :
    pastComment.Meets t fun found u => u.AdvancedFrom r (n + found.toList.length) := by
  refine (remaining_meets past).bind fun fuel _ past => ?_
  refine takeFrom_meets (fun _ => 0) (fun found => (Option.toList found).length)
    (fun _ _ _ _ => Nat.zero_le _) ?_ ?_ (fun _ => Nat.le_refl _) fuel () past
  · intro _ b answer made
    split at made <;> cases made
  · intro _ b answer made
    split at made <;> cases made
    exact Nat.le_refl _

theorem plainRound_consumes : Consumes plainRound := by
  intro state r inside
  have start := Reader.advancedFrom_self inside
  cases state with
  | none =>
    refine (next_meets start).bind fun found t past => ?_
    cases found with
    | none => exact meets_pure trivial
    | some b => exact meets_pure past
  | some b =>
    have blanks : (pastBlanks b).Meets r fun _ t => t.AdvancedFrom r 0 :=
      meets_ite (fun _ => take_meets _ _ _ start) fun _ => meets_pure start
    refine blanks.bind fun found t past => ?_
    cases found with
    | none => exact meets_pure trivial
    | some c =>
      refine meets_ite (fun _ => ?_) fun _ => ⟨trivial⟩
      refine (pastComment_meets past).bind fun found u past => ?_
      cases found with
      | none => exact meets_pure trivial
      | some ending => exact meets_pure past

/-- What skipping has come to when a byte has been taken, or none yet. -/
def Follows (r : Reader) : Option UInt8 → Reader → Prop
  | none, t => t = r
  | some b, t => Behind r b t

/-- A round of the outer loop skips blanks, and the comment behind them. -/
theorem plainRound_follows (quiet : r.trailerEnds = none) (inside : t.position ≤ t.size)
    (follows : Follows r taken t) :
    (plainRound taken).Meets t (Carries (Follows r) fun _ u => Finishes skipRound none r () u) := by
  cases taken with
  | none =>
    obtain rfl : t = r := follows
    refine (meets_ran next t).bind fun found u ran => ?_
    cases found with
    | none => exact meets_pure (.done (skipRound_end ran))
    | some b => exact meets_pure (behind_next (.here _ _) ran)
  | some b =>
    refine (meets_ran (pastBlanks b) t).bind fun found u ran => ?_
    have blanks := (pastBlanks_ends follows inside).holds
    have further := Reader.inside_run (pastBlanks b) inside
    rw [ran] at blanks further
    cases found with
    | none => exact meets_pure blanks
    | some c =>
      obtain ⟨solid, behind⟩ := blanks
      cases behind with
      | blank blank => cases solid.symm.trans blank
      | solid _ reaches next =>
        dsimp only
        by_cases percent : c = Byte.percent
        · rw [if_pos percent]
          have comment := Reaches.again reaches (skipRound_percent (percent ▸ next))
          refine (pastComment_ends quiet comment further).bind fun found v ended => ?_
          cases found with
          | none => exact meets_pure ended
          | some ending => exact meets_pure ended
        · rw [if_neg percent]
          exact ⟨reaches.finishes (.done (skipRound_word next solid percent))⟩

/-- Without a record, skipping is done by the one loop inside the other. -/
theorem skipBlanks_plain (quiet : r.trailerEnds = none) (inside : r.position ≤ r.size) :
    Finishes plainRound none r () (skipBlanks.run r).2 := by
  obtain ⟨_, u, finishes, skips⟩ := plainRound_consumes.finishes
    (fun _ _ inside follows => plainRound_follows quiet inside follows) inside (show Follows r none r from rfl)
  obtain ⟨_, rfl⟩ := skips.unique (skipBlanks_finishes inside)
  exact finishes

/-- A byte that has just been read is there to be read again, whatever is recorded in between. -/
theorem byteAt_again {place : Nat} (found : r.byteAt place = (some b, s)) (ends : Option (List Nat)) :
    { s with trailerEnds := ends }.byteAt place = (some b, { s with trailerEnds := ends }) := by
  have seen : (r.fetch (place + r.origin) (place + r.origin)).1 = some b := congrArg Prod.fst found
  have inside := Reader.fetch_inside seen
  have size : s.gate.size = r.gate.size := by
    have kept := Gate.size_evolution.reader.run (byteAt place) r
    change (r.byteAt place).2.gate.size = r.gate.size at kept
    rwa [found] at kept
  have origin : s.origin = r.origin := by
    have kept := (Reader.continues.run (byteAt place) r).origin
    change (r.byteAt place).2.origin = r.origin at kept
    rwa [found] at kept
  have shown : s.window.byte? (place + r.origin) = some b := by
    unfold Reader.byteAt Reader.fetch at found
    rw [if_neg (Nat.not_le.mpr inside)] at found
    split at found
    · rename_i c here
      obtain ⟨same, rfl⟩ := Prod.mk.inj found
      exact here.trans same
    · exact (Prod.mk.inj found).2 ▸ (Prod.mk.inj found).1
  simp only [Reader.byteAt, Reader.fetch, origin, size, if_neg (Nat.not_le.mpr inside), shown]

theorem noteTrailer_feed {ends : List Nat} (recorded : t.trailerEnds = some ends) :
    t.noteTrailer Byte.lineFeed = { t with trailerEnds := some (ends ++ [t.position]) } := by
  have other : Byte.lineFeed ≠ Byte.carriageReturn := by decide
  simp only [Reader.noteTrailer, recorded, if_neg other]

theorem unread_next (inside : t.position ≤ t.size) :
    (unread.run { t with position := t.position + 1 }).2 = t := by
  change { t with position := min (t.position + 1 - 1) t.size } = t
  rw [Nat.add_sub_cancel, Nat.min_eq_left inside]

/-- A byte is read by looking at it and moving behind it. -/
theorem next_looks {found : Option UInt8} (read : t.byteAt t.position = (found, u)) :
    next.run t = (found, if found.isSome then { u with position := u.position + 1 } else u) ∧
      u.position = t.position ∧ u.trailerEnds = t.trailerEnds := by
  obtain ⟨gate, window, kept⟩ := t.fetch_kept (t.position + t.origin) (t.position + t.origin)
  change (t.byteAt t.position).2 = { t with gate, window } at kept
  rw [read] at kept
  change u = { t with gate, window } at kept
  refine ⟨?_, by rw [kept], by rw [kept]⟩
  change t.next = _
  rw [Reader.next, read]
  cases found <;> rfl

theorem closeMarker_inside (inside : Byte.isLineEnding b = false) : (closeMarker b).run t = (b, t) := by
  have other : b ≠ Byte.carriageReturn := by
    rintro rfl
    cases inside
  have read : (endLine b).run t = (b, t) := by
    rw [endLine, if_neg other]
    rfl
  rw [closeMarker, run_bind, read]
  simp only [inside, Bool.false_eq_true, ↓reduceIte]
  rfl

/-- A line feed behind a carriage return ends the line with it, and is a blank for skipping. -/
theorem closeMarker_pair {ends : List Nat} (recorded : t.trailerEnds = some ends)
    (read : t.byteAt t.position = (some Byte.lineFeed, u)) :
    ∃ v, (closeMarker Byte.carriageReturn).run t = (Byte.lineFeed, v) ∧
      (skipRound none).run (t.noteTrailer Byte.carriageReturn) = (.again none, v) := by
  obtain ⟨ran, place, held⟩ := next_looks read
  refine ⟨{ u with position := u.position + 1, trailerEnds := some (ends ++ [u.position + 1]) }, ?_, ?_⟩
  · simp only [closeMarker, endLine, ↓reduceIte, run_bind, ran]
    exact Prod.ext rfl (noteTrailer_feed (t := { u with position := u.position + 1 }) (held.trans recorded))
  · have noted : t.noteTrailer Byte.carriageReturn =
        { u with trailerEnds := some (ends ++ [u.position + 1]) } := by
      simp only [Reader.noteTrailer, recorded, read, ↓reduceIte]
    have again := byteAt_again read (some (ends ++ [u.position + 1]))
    rw [← place] at again
    rw [noted]
    exact skipRound_blank (next_looks again).1 rfl

/-- Any other byte there is put back, as if it had only been looked at. -/
theorem closeMarker_alone {ends : List Nat} {found : Option UInt8} (recorded : t.trailerEnds = some ends)
    (inside : t.position ≤ t.size) (read : t.byteAt t.position = (found, u))
    (alone : found ≠ some Byte.lineFeed) :
    (closeMarker Byte.carriageReturn).run t = (Byte.carriageReturn, t.noteTrailer Byte.carriageReturn) := by
  obtain ⟨ran, _, held⟩ := next_looks read
  have noted : t.noteTrailer Byte.carriageReturn = u.noteTrailer Byte.lineFeed := by
    rw [noteTrailer_feed (held.trans recorded)]
    simp only [Reader.noteTrailer, recorded, read, ↓reduceIte, if_neg alone]
  rw [noted]
  cases found with
  | none =>
    simp only [closeMarker, endLine, ↓reduceIte, run_bind, ran]
    rfl
  | some c =>
    have other : c ≠ Byte.lineFeed := fun same => alone (congrArg some same)
    have stays := Reader.inside_run (byteAt t.position) inside
    change (t.byteAt t.position).2.position ≤ (t.byteAt t.position).2.size at stays
    rw [read] at stays
    simp only [closeMarker, endLine, ↓reduceIte, run_bind, ran, Option.isSome_some, if_neg other,
      unread_next stays]
    rfl

/-- Behind a marker, skipping comes to where the machine does. -/
theorem closeMarker_reaches (recorded : t.trailerEnds.isSome = true) (inside : t.position ≤ t.size)
    (ending : Byte.isLineEnding b = true) (reaches : Reaches skipRound none r none (t.noteTrailer b)) :
    (closeMarker b).Meets t fun c u => Byte.isLineEnding c = true ∧ Reaches skipRound none r none u := by
  obtain ⟨ends, recorded⟩ := Option.isSome_iff_exists.mp recorded
  refine ⟨?_⟩
  by_cases returned : b = Byte.carriageReturn
  · subst returned
    cases read : t.byteAt t.position with
    | mk found u =>
      by_cases paired : found = some Byte.lineFeed
      · subst paired
        obtain ⟨v, closed, skipped⟩ := closeMarker_pair recorded read
        rw [closed]
        exact ⟨rfl, .again reaches skipped⟩
      · rw [closeMarker_alone recorded inside read paired]
        exact ⟨rfl, reaches⟩
  · have feed : b = Byte.lineFeed := by simpa [Byte.isLineEnding, returned] using ending
    subst feed
    exact ⟨rfl, reaches⟩

theorem closeMarker_meets (past : t.AdvancedFrom r n) :
    (closeMarker b).Meets t fun _ u => u.AdvancedFrom r n := by
  have line : (endLine b).Meets t fun _ u => u.AdvancedFrom r n := by
    refine meets_ite (fun _ => ?_) fun _ => meets_pure past
    refine (next_meets past).bind fun found u past => ?_
    cases found with
    | none => exact meets_pure past
    | some c =>
      refine meets_ite (fun _ => meets_pure (past.mono (Nat.le_succ n))) fun _ => ?_
      exact (unread_meets past).bind fun _ _ past => meets_pure past
  refine line.bind fun c u past => meets_ite (fun _ => ?_) fun _ => meets_pure past
  exact (past.still rfl).bind fun _ _ past => meets_pure past

theorem nextState_meets {state : LineState} {expected : Round LineState Unit → Reader → Prop}
    (again : ∀ state', expected (.again state') t) (done : ∀ u, expected (.done ()) u) :
    (nextState state b).Meets t expected :=
  meets_ite (fun _ => ⟨done _⟩) fun _ => meets_pure (again _)

theorem recordingRound_consumes : Consumes recordingRound := by
  intro state r inside
  refine (next_meets (Reader.advancedFrom_self inside)).bind fun found t past => ?_
  cases found with
  | none => exact meets_pure trivial
  | some b =>
    refine meets_ite (fun _ => ?_) fun _ => nextState_meets (fun _ => past) fun _ => trivial
    exact (closeMarker_meets past).bind fun _ _ past => nextState_meets (fun _ => past) fun _ => trivial

/-- What skipping has come to while a record is kept. -/
def Agrees (r : Reader) (state : LineState) (t : Reader) : Prop :=
  state ≠ .word ∧ Reaches skipRound none r state.marker t

/-- Behind the byte that ends a line, nothing agrees yet. -/
theorem nextState_ending {state : LineState} (ending : Byte.isLineEnding b = true)
    (reaches : Reaches skipRound none r none t) : (nextState state b).Meets t
      (Carries (Agrees r) fun _ u => Finishes skipRound none r () u) := by
  unfold nextState
  rw [ending]
  exact meets_pure ⟨nofun, reaches⟩

/-- Inside a comment, the machine goes on as the marker does. -/
theorem nextState_comment {state : LineState} {marker : Marker} (comment : state.marker = some marker)
    (inside : Byte.isLineEnding b = false) (reaches : Reaches skipRound none r (some (marker.step b)) t) :
    (nextState state b).Meets t (Carries (Agrees r) fun _ u => Finishes skipRound none r () u) := by
  have stepped := LineState.marker_step comment b
  have comments : state.step b ≠ .word := by
    intro word
    rw [word] at stepped
    cases stepped
  simp only [nextState, inside, Bool.false_eq_true, ↓reduceIte, if_neg comments]
  exact meets_pure ⟨comments, stepped ▸ reaches⟩

/-- Outside comments, the machine goes on or stops as skipping does. -/
theorem nextState_blank (reaches : Reaches skipRound none r none t) (ran : next.run t = (some b, u)) :
    (nextState .blank b).Meets u (Carries (Agrees r) fun _ u => Finishes skipRound none r () u) := by
  cases blank : Byte.isWhitespace b with
  | true =>
    have same : (if Byte.isLineEnding b then LineState.blank else LineState.blank.step b) = .blank := by
      simp only [LineState.step, blank, ↓reduceIte, ite_self]
    simp only [nextState, same]
    exact meets_pure ⟨nofun, .again reaches (skipRound_blank ran blank)⟩
  | false =>
    have inside : Byte.isLineEnding b = false :=
      Bool.eq_false_iff.mpr fun ending => Bool.false_ne_true (blank.symm.trans (ending_blank ending))
    by_cases percent : b = Byte.percent
    · subst percent
      exact meets_pure ⟨nofun, .again reaches (skipRound_percent ran)⟩
    · have word : LineState.blank.step b = .word := by
        simp only [LineState.step, blank, Bool.false_eq_true, ↓reduceIte, if_neg percent]
      simp only [nextState, inside, Bool.false_eq_true, ↓reduceIte, word]
      exact ⟨reaches.finishes (.done (skipRound_word ran blank percent))⟩

/-- A round of the machine is a round of skipping, or two where a marker ends with two bytes. -/
theorem recordingRound_agrees (recorded : r.trailerEnds.isSome = true) {state : LineState}
    (inside : t.position ≤ t.size) (agrees : Agrees r state t) : (recordingRound state).Meets t
      (Carries (Agrees r) fun _ u => Finishes skipRound none r () u) := by
  obtain ⟨goesOn, reaches⟩ := agrees
  refine (meets_ran next t).bind fun found u ran => ?_
  cases found with
  | none => exact meets_pure (reaches.finishes (.done (skipRound_end ran)))
  | some b =>
    have held : u.trailerEnds.isSome = true := by
      have kept := records_evolution.run next t
      rw [ran] at kept
      exact kept.trans (reaches.recorded recorded)
    have further := Reader.inside_run next inside
    rw [ran] at further
    cases comment : state.marker with
    | none =>
      obtain rfl : state = .blank := by
        cases state <;> first | rfl | exact absurd rfl goesOn | cases comment
      exact nextState_blank reaches ran
    | some marker =>
      rw [comment] at reaches
      cases ending : Byte.isLineEnding b with
      | false =>
        have later := Reaches.again reaches (skipRound_comment ran ending)
        refine meets_ite (fun _ => ?_) fun _ => nextState_comment comment ending later
        refine (meets_ran (closeMarker b) u).bind fun c v closed => ?_
        cases closed.symm.trans (closeMarker_inside ending)
        exact nextState_comment comment ending later
      | true =>
        have later := Reaches.again reaches (skipRound_ending ran ending)
        refine meets_ite (fun last => ?_) fun other => ?_
        · rw [if_pos ((LineState.marker_complete comment).mpr last)] at later
          refine (closeMarker_reaches held further ending later).bind fun c v closed => ?_
          exact nextState_ending closed.1 closed.2
        · rw [if_neg fun complete => other ((LineState.marker_complete comment).mp complete)] at later
          exact nextState_ending ending later

/-- With a record, skipping is done by the machine. -/
theorem skipBlanks_recording (recorded : r.trailerEnds.isSome = true) (inside : r.position ≤ r.size) :
    Finishes recordingRound .blank r () (skipBlanks.run r).2 := by
  obtain ⟨_, u, finishes, skips⟩ := recordingRound_consumes.finishes
    (fun _ _ inside agrees => recordingRound_agrees recorded inside agrees) inside
    (show Agrees r .blank r from ⟨nofun, .here _ _⟩)
  obtain ⟨_, rfl⟩ := skips.unique (skipBlanks_finishes inside)
  exact finishes

end Scan

namespace Operation
open Reader (ofGate)

variable {document : Bytes} {r s : Reader}

/-- What shows of an operation apart from the record. -/
def Observation.unrecorded (o : Observation) : Answer × Nat := (o.answer, o.cursor)

/-- Two readers of a document that differ in nothing but what they record answer all calls alike, and their
cursors are at the same places. -/
theorem observe_alike (whole : r.Whole document) (other : s.Whole document)
    (same : (r.mirror document).unrecorded = (s.mirror document).unrecorded) (calls : List Call) :
    (observe (calls.map .call) r).1.map Observation.unrecorded =
      (observe (calls.map .call) s).1.map Observation.unrecorded := by
  induction calls generalizing r s with
  | nil => rfl
  | cons call calls ih =>
    have here := whole.image_run call.program
    have there := other.image_run call.program
    rw [same, there] at here
    obtain ⟨answer, after⟩ := Prod.mk.inj here
    have rest := ih (whole.run call.program) (other.run call.program) after.symm
    have cursor : (call.program.run r).2.position = (call.program.run s).2.position :=
      congrArg Resident.position after.symm
    simp only [List.map_cons, observe, Operation.run, Observation.unrecorded]
    exact congrArg₂ List.cons (Prod.ext answer.symm cursor) rest

/-- Recording changes nothing but the record. Take any gate with the whole document behind it, any place
where the document starts, any settings and any cursor. A reader that records trailers and one that does
not answer all calls alike, however many there are, and leave their cursors at the same places. They do so
by two ways of skipping blanks and comments, the machine and the one loop inside the other. -/
theorem observe_recording {gate : Gate} (whole : gate.Whole document) (start cursor : Nat) (options : Options) :
    let recording := (ofGate gate start { options with recordTrailers := true }).seek cursor
    let plain := (ofGate gate start { options with recordTrailers := false }).seek cursor
    (∀ calls : List Call, (observe (calls.map .call) recording).1.map Observation.unrecorded =
      (observe (calls.map .call) plain).1.map Observation.unrecorded) ∧
    ∀ r : Reader, r.position ≤ r.size →
      match r.trailerEnds with
      | some _ => Scan.Finishes Scan.recordingRound .blank r () (Scan.skipBlanks.run r).2
      | none => Scan.Finishes Scan.plainRound none r () (Scan.skipBlanks.run r).2 := by
  intro recording plain
  have first : recording.Whole document := (Reader.whole_ofGate whole start _).seek cursor
  have second : plain.Whole document := (Reader.whole_ofGate whole start _).seek cursor
  refine ⟨observe_alike first second rfl, fun r inside => ?_⟩
  split
  · rename_i ends recorded
    exact Scan.skipBlanks_recording (recorded ▸ rfl) inside
  · rename_i quiet
    exact Scan.skipBlanks_plain quiet inside

/-- Markers that end with two bytes and with one, a line that only starts like one, and a cursor that is put
into a comment. -/
theorem observe_recording_markers :
    let bytes := Bytes.ofAscii "%%EOF\r\n1%EOF\r[2 %%EO\n]%%EOF\r".toList
    let gate : Gate := { source := .memory bytes.toArray }
    let recording := (ofGate gate 0 { windowSize := 3, recordTrailers := true }).seek 1
    let plain := (ofGate gate 0 { windowSize := 3, recordTrailers := false }).seek 1
    let calls := [.word, .object fun _ => none, .word, .searchBack ['2'.toUInt8] 0, .seek 1, .peekWord].map .call
    (observe calls recording).2.trailerEnds = some [7, 13, 28, 7] ∧
      (observe calls plain).2.trailerEnds = none ∧
      (observe calls recording).1.map Observation.unrecorded =
        (observe calls plain).1.map Observation.unrecorded := by
  intro bytes gate recording plain calls
  have whole : gate.Whole bytes := Gate.whole_unwatched rfl rfl
  refine ⟨by decide +kernel, by decide +kernel, ?_⟩
  exact (observe_recording whole 0 1 { windowSize := 3 }).1 _

end Operation
end PdfObjects
