import PdfObjects.Proofs.Progress
import PdfObjects.Scan.Loop

/-! The loops of reading, round by round. Each of them goes on only behind at least one byte that it has
taken, whatever of the document is missing. So the bytes left bound its rounds, and the counters of the
programs, which start at that number, never decide anything: the loops would end without them, with the
same answer and the same reader. -/
namespace PdfObjects

namespace Scan

section Rounds

/-- Taking one byte towards an answer. -/
def takeRound {β α : Type} (step : β → UInt8 → Verdict β α) (finish : β → α) (state : β) :
    Scan (Round β α) := do
  match ← next with
  | none => pure (.done (finish state))
  | some b =>
    match step state b with
    | .more state => pure (.again state)
    | .before answer =>
      unread
      pure (.done answer)
    | .through answer => pure (.done answer)

/-- Skipping one byte, if it is blank or in a comment. -/
def skipRound (state : Option Marker) : Scan (Round (Option Marker) Unit) := do
  match ← next with
  | none => pure (.done ())
  | some b =>
    match state with
    | none =>
      if Byte.isWhitespace b then pure (.again none)
      else if b = Byte.percent then pure (.again (some .percents))
      else
        unread
        pure (.done ())
    | some marker =>
      if Byte.isLineEnding b then
        if marker.isComplete then noteTrailer b
        pure (.again none)
      else pure (.again (some (marker.step b)))

/-- Looking for a tag at one place. -/
def findRound (tag : Bytes) (_ : Unit) : Scan (Round Unit (Option Nat)) := do
  let here ← position
  match ← agrees tag with
  | none => pure (.done none)
  | some true => pure (.done (some here))
  | some false =>
    seek (here + 1)
    pure (.again ())

/-- Looking at one occurrence of a word. -/
def findWordRound (word : Bytes) (limit : Nat) (_ : Unit) : Scan (Round Unit (Option Nat)) := do
  match ← findTag word with
  | none => pure (.done none)
  | some _ =>
    let start := (← position) - word.length
    if ← isWholeWord start limit word true then pure (.done (some start))
    else pure (.again ())

end Rounds
end Scan

namespace Parse
open Scan (Round word position nextLine seek)

/-- Reading one element of an array. -/
def elementRound (element : Parse Object) (taken : List Object) :
    Scan (Round (List Object) (Except Error (List Object))) := do
  match ← element.run with
  | .ok object => pure (.again (if object.isStream then taken else object :: taken))
  | .error e => pure (.done (if e.isNestingLimit then .error e else .ok taken.reverse))

/-- Reading one entry of a dictionary. -/
def entryRound (value : Parse Object) (mode : Mode) (dict : Dictionary) :
    Scan (Round Dictionary (Except Error Dictionary)) := do
  let word ← word
  let here ← position
  if word.isEmpty then pure (.done (.error (.endOfData here)))
  else
    let start := here - word.bytes.length
    match KeyWord.ofWord word.bytes with
    | .close => pure (.done (.ok dict))
    | .endObject =>
      seek start
      pure (.done (.ok dict))
    | .other => pure (.again dict)
    | .key key =>
      if key.isEmpty && mode = .strict then
        nextLine
        pure (.done (.error (.badSyntax start .emptyKey)))
      else
        match ← value.run with
        | .ok object =>
          pure (.again (if isEntry key object then dict.insert key object else dict))
        | .error e =>
          if e.isNestingLimit then pure (.done (.error e))
          else if mode = .loose then pure (.again dict)
          else
            nextLine
            pure (.done (.error e))

end Parse

section Counting

variable {σ : Type} [Readable σ] (s : σ)

namespace Scan

theorem take_counts {β α : Type} (step : β → UInt8 → Verdict β α) (finish : β → α) :
    Counts (takeFrom step finish) (takeRound step finish) s := by
  intro fuel state
  simp only [takeFrom, takeRound, run_bind]
  cases (next.run s).1 with
  | none => rfl
  | some b => cases made : step state b <;> simp only [made] <;> rfl

theorem skip_counts : Counts skipFrom skipRound s := by
  intro fuel state
  simp only [skipFrom, skipRound, run_bind]
  cases (next.run s).1 with
  | none => rfl
  | some b =>
    cases state with
    | none =>
      dsimp only
      by_cases blank : Byte.isWhitespace b = true
      · simp only [if_pos blank]
        rfl
      · by_cases comment : b = Byte.percent
        · simp only [if_neg blank, if_pos comment]
          rfl
        · simp only [if_neg blank, if_neg comment]
          rfl
    | some marker =>
      dsimp only
      by_cases ending : Byte.isLineEnding b = true
      · by_cases complete : marker.isComplete = true
        · simp only [if_pos ending, if_pos complete]
          rfl
        · simp only [if_pos ending, if_neg complete]
          rfl
      · simp only [if_neg ending]
        rfl

theorem find_counts (tag : Bytes) : Counts (fun fuel _ => findFrom tag fuel) (findRound tag) s := by
  intro fuel state
  simp only [findFrom, findRound, run_bind]
  cases ((agrees tag).run (position.run s).2).1 with
  | none => rfl
  | some agreed => cases agreed <;> rfl

theorem findWord_counts (word : Bytes) (limit : Nat) :
    Counts (fun fuel _ => findWordFrom word limit fuel) (findWordRound word limit) s := by
  intro fuel state
  simp only [findWordFrom, findWordRound, run_bind]
  cases ((findTag word).run s).1 with
  | none => rfl
  | some distance =>
    simp only [run_bind]
    split <;> rfl

end Scan

namespace Parse
open Scan (Counts)

theorem elements_counts (element : Parse Object) :
    Counts (fun fuel taken => (elements element fuel taken).run) (elementRound element) s := by
  intro fuel taken
  dsimp only
  rw [elements, run_bind_outcome, elementRound, Scan.run_bind]
  cases element.run.run s with
  | mk result t =>
    cases result with
    | ok object => rfl
    | error reason =>
      dsimp only
      by_cases deep : reason.isNestingLimit = true
      · rw [if_pos deep, if_pos deep]
        rfl
      · rw [if_neg deep, if_neg deep]
        rfl

theorem entries_counts (value : Parse Object) (mode : Mode) :
    Counts (fun fuel dict => (entries value mode fuel dict).run) (entryRound value mode) s := by
  intro fuel dict
  dsimp only
  rw [entries, entryRound, run_bind_lift, run_bind_lift, Scan.run_bind, Scan.run_bind]
  generalize Scan.word.run s = read
  obtain ⟨word, t⟩ := read
  dsimp only
  by_cases empty : word.isEmpty = true
  · rw [if_pos empty, if_pos empty]
    rfl
  · rw [if_neg empty, if_neg empty]
    cases KeyWord.ofWord word.bytes with
    | close => rfl
    | endObject => rfl
    | other => rfl
    | key name =>
      dsimp only
      by_cases refused : (List.isEmpty name && decide (mode = .strict)) = true
      · rw [if_pos refused, if_pos refused]
        rfl
      · rw [if_neg refused, if_neg refused, run_bind_outcome, Scan.run_bind]
        cases value.run.run (Scan.position.run t).2 with
        | mk result u =>
          cases result with
          | ok object => rfl
          | error reason =>
            dsimp only
            by_cases deep : reason.isNestingLimit = true
            · rw [if_pos deep, if_pos deep]
              rfl
            · rw [if_neg deep, if_neg deep]
              by_cases loose : mode = .loose
              · rw [if_pos loose, if_pos loose]
                rfl
              · rw [if_neg loose, if_neg loose]
                rfl

end Parse
end Counting

namespace Scan

variable {r t : Reader} {n : Nat} {β α : Type}

/-- A round after which there is another one only if it took a byte. -/
def Consumes (round : β → Scan (Round β α)) : Prop :=
  ∀ state, ∀ r : Reader, r.position ≤ r.size → (round state).Meets r fun result t =>
    match result with
    | .again _ => t.AdvancedFrom r 1
    | .done _ => True

/-- The bytes left bound the rounds. -/
theorem Consumes.on {round : β → Scan (Round β α)} (consumes : Consumes round) (state : β)
    (r : Reader) (state' : β) (t : Reader) (inside : r.position ≤ r.size)
    (ran : (round state).run r = (.again state', t)) :
    t.position ≤ t.size ∧ t.size - t.position < r.size - r.position := by
  have past := (consumes state r inside).holds
  rw [ran] at past
  change t.AdvancedFrom r 1 at past
  have size := past.size
  have here := past.inside
  have behind := past.behind
  omega

theorem takeRound_consumes (step : β → UInt8 → Verdict β α) (finish : β → α) :
    Consumes (takeRound step finish) := by
  intro state r inside
  unfold takeRound
  refine (next_meets (Reader.advancedFrom_self inside)).bind fun found t past => ?_
  cases found with
  | none => exact meets_pure trivial
  | some b =>
    dsimp only
    cases step state b with
    | more state' => exact meets_pure past
    | before answer => exact ⟨trivial⟩
    | through answer => exact meets_pure trivial

theorem skipRound_consumes : Consumes skipRound := by
  intro state r inside
  unfold skipRound
  refine (next_meets (Reader.advancedFrom_self inside)).bind fun found t past => ?_
  cases found with
  | none => exact meets_pure trivial
  | some b =>
    cases state with
    | none =>
      refine meets_ite (fun _ => meets_pure past) fun _ => ?_
      exact meets_ite (fun _ => meets_pure past) fun _ => ⟨trivial⟩
    | some marker =>
      refine meets_ite (fun _ => ?_) fun _ => meets_pure past
      refine meets_ite (fun _ => ?_) fun _ => meets_pure past
      exact (past.still rfl).bind fun _ _ past => meets_pure past

/-- Whether a tag is at the cursor takes a byte to tell, unless the tag is empty. -/
theorem agrees_meets (tag : Bytes) (past : t.AdvancedFrom r n) :
    (agrees tag).Meets t fun found u =>
      match found with
      | some true => u.AdvancedFrom r (n + tag.length)
      | some false => u.AdvancedFrom r (n + 1)
      | none => u.AdvancedFrom r n := by
  induction tag generalizing t n with
  | nil => exact meets_pure past
  | cons expected tag ih =>
    unfold agrees
    refine (next_meets past).bind fun found u past => ?_
    cases found with
    | none => exact meets_pure past
    | some b =>
      refine meets_ite (fun _ => ?_) fun _ => meets_pure past
      refine (ih past).mono fun found v past => ?_
      match found, past with
      | some true, past => exact past.mono (by simp only [List.length_cons]; omega)
      | some false, past => exact past.mono (Nat.le_succ _)
      | none, past => exact past.mono (Nat.le_succ _)

theorem findRound_consumes (tag : Bytes) : Consumes (findRound tag) := by
  intro state r inside
  unfold findRound
  apply meets_position
  refine (agrees_meets tag (Reader.advancedFrom_self inside)).bind fun found t past => ?_
  match found, past with
  | none, _ => exact meets_pure trivial
  | some true, _ => exact meets_pure trivial
  | some false, past =>
    exact (seek_meets past (Nat.le_refl _) (Nat.le_refl _)).bind fun _ _ past => meets_pure past

/-- A tag that is found has been read. -/
theorem findFrom_meets (tag : Bytes) (fuel : Nat) (past : t.AdvancedFrom r n) :
    (findFrom tag fuel).Meets t fun found u =>
      match found with
      | some _ => u.AdvancedFrom r (n + tag.length)
      | none => u.AdvancedFrom r n := by
  induction fuel generalizing t with
  | zero => exact meets_pure past
  | succ fuel ih =>
    have start := past.behind
    unfold findFrom
    apply meets_position
    refine (agrees_meets tag past).bind fun found u later => ?_
    match found, later with
    | none, later => exact meets_pure later
    | some true, later => exact meets_pure later
    | some false, later =>
      have behind : r.position + n ≤ t.position + 1 := Nat.le_succ_of_le start
      exact (seek_meets later (Nat.le_succ n) behind).bind fun _ _ past => ih past

theorem findTag_meets (tag : Bytes) (past : t.AdvancedFrom r n) :
    (findTag tag).Meets t fun found u =>
      match found with
      | some _ => u.AdvancedFrom r (n + 1)
      | none => u.AdvancedFrom r n := by
  refine meets_ite (fun _ => meets_pure past) fun nonempty => ?_
  have one : 1 ≤ tag.length := List.length_pos_iff.mpr (by simpa using nonempty)
  apply meets_position
  refine (remaining_meets past).bind fun fuel _ past => ?_
  refine (findFrom_meets tag fuel past).bind fun found u past => ?_
  cases found with
  | none => exact meets_pure past
  | some here => exact meets_pure (past.mono (Nat.add_le_add_left one n))

theorem isGluedAt_meets (keyword : Bool) (position : Nat) (past : t.AdvancedFrom r n) :
    (isGluedAt keyword position).Meets t fun _ u => u.AdvancedFrom r n := by
  unfold isGluedAt
  refine (past.still rfl).bind fun found _ past => ?_
  cases found <;> exact meets_pure past

theorem isWholeWord_meets (start limit : Nat) (tag : Bytes) (keyword : Bool) (past : t.AdvancedFrom r n) :
    (isWholeWord start limit tag keyword).Meets t fun _ u => u.AdvancedFrom r n := by
  have left (first : UInt8) {t : Reader} (past : t.AdvancedFrom r n) :
      (do
        let gluedLeft ← if canGlue first && 0 < start then isGluedAt keyword (start - 1) else pure false
        pure (!gluedLeft)).Meets t fun _ u => u.AdvancedFrom r n := by
    refine meets_ite (fun _ => ?_) fun _ => ⟨past⟩
    exact (isGluedAt_meets keyword _ past).bind fun _ _ past => meets_pure past
  unfold isWholeWord
  cases tag.head? with
  | none => exact meets_pure past
  | some first =>
    cases tag.getLast? with
    | none => exact meets_pure past
    | some last =>
      refine meets_ite (fun _ => ?_) fun _ => ⟨(left first past).holds⟩
      refine (isGluedAt_meets keyword _ past).bind fun glued _ past => ?_
      exact meets_ite (fun _ => meets_pure past) fun _ => left first past

theorem findWordRound_consumes (word : Bytes) (limit : Nat) : Consumes (findWordRound word limit) := by
  intro state r inside
  unfold findWordRound
  refine (findTag_meets word (Reader.advancedFrom_self inside)).bind fun found t past => ?_
  cases found with
  | none => exact meets_pure trivial
  | some distance =>
    apply meets_position
    refine (isWholeWord_meets _ _ _ _ past).bind fun alone _ past => ?_
    exact meets_ite (fun _ => meets_pure trivial) fun _ => meets_pure past

/-- Behind the last byte there is none. -/
theorem next_idle (r : Reader) (empty : r.size - r.position = 0) : next.run r = (none, r) := by
  have outside : r.gate.size ≤ r.position + r.origin := by
    unfold Reader.size at empty
    omega
  change r.next = (none, r)
  simp [Reader.next, Reader.byteAt, Reader.fetch, outside]

theorem take_finishes (step : β → UInt8 → Verdict β α) (finish : β → α) (state : β)
    (inside : r.position ≤ r.size) :
    Finishes (takeRound step finish) state r ((take step finish state).run r).1
      ((take step finish state).run r).2 := by
  refine finishes_of_idle (fun s _ => take_counts s step finish) (takeRound_consumes step finish).on
    ?_ (r.size - r.position) state r inside (Nat.le_refl _)
  intro state s _ empty
  simp only [takeRound, run_bind, next_idle s empty]
  rfl

/-- What a round keeps for the next one, and what it leaves if it is the last. -/
def Carries (holds : β → Reader → Prop) (last : α → Reader → Prop) (result : Round β α) (t : Reader) : Prop :=
  match result with
  | .again state => holds state t
  | .done value => last value t

/-- A loop of which every round takes a byte ends, and it ends as the rounds have it. -/
theorem Consumes.finishes {round : β → Scan (Round β α)} (consumes : Consumes round)
    {holds : β → Reader → Prop} {last : α → Reader → Prop}
    (carried : ∀ state t, t.position ≤ t.size → holds state t → (round state).Meets t (Carries holds last))
    {state : β} (inside : t.position ≤ t.size) (start : holds state t) :
    ∃ value u, Finishes round state t value u ∧ last value u := by
  induction left : t.size - t.position using Nat.strongRecOn generalizing state t with
  | ind count ih =>
    have met := (carried state t inside start).holds
    cases ran : (round state).run t with
    | mk result u =>
      rw [ran] at met
      cases result with
      | done value => exact ⟨value, u, .done ran, met⟩
      | again state' =>
        obtain ⟨stays, fewer⟩ := consumes.on state t state' u inside ran
        obtain ⟨value, v, finishes, ends⟩ := ih (u.size - u.position) (left ▸ fewer) stays met rfl
        exact ⟨value, v, .again ran finishes, ends⟩

/-- The same of bytes that are taken one by one. -/
theorem take_ends {step : β → UInt8 → Verdict β α} {finish : β → α} {holds : β → Reader → Prop}
    {last : α → Reader → Prop} (carried : ∀ state t, t.position ≤ t.size → holds state t →
      (takeRound step finish state).Meets t (Carries holds last))
    {state : β} (inside : t.position ≤ t.size) (start : holds state t) :
    (take step finish state).Meets t last := by
  obtain ⟨value, u, finishes, ends⟩ := (takeRound_consumes step finish).finishes carried inside start
  obtain ⟨rfl, rfl⟩ := finishes.unique (take_finishes step finish state inside)
  exact ⟨ends⟩

theorem skipBlanks_finishes (inside : r.position ≤ r.size) :
    Finishes skipRound none r (skipBlanks.run r).1 (skipBlanks.run r).2 := by
  refine finishes_of_idle (fun s _ => skip_counts s) skipRound_consumes.on ?_
    (r.size - r.position) none r inside (Nat.le_refl _)
  intro state s _ empty
  simp only [skipRound, run_bind, next_idle s empty]
  rfl

theorem findFrom_finishes {tag : Bytes} (nonempty : tag ≠ []) (inside : r.position ≤ r.size) :
    Finishes (findRound tag) () r ((findFrom tag (r.size - r.position)).run r).1
      ((findFrom tag (r.size - r.position)).run r).2 := by
  obtain ⟨first, rest, rfl⟩ := List.exists_cons_of_ne_nil nonempty
  refine finishes_of_idle (fun s _ => find_counts s (first :: rest)) (findRound_consumes _).on ?_
    (r.size - r.position) () r inside (Nat.le_refl _)
  intro state s _ empty
  have here : position.run s = (s.position, s) := rfl
  simp only [findRound, agrees, run_bind, here, next_idle s empty]
  rfl

theorem findTag_idle (tag : Bytes) (r : Reader) (empty : r.size - r.position = 0) :
    (findTag tag).run r = (none, r) := by
  have here : position.run r = (r.position, r) := rfl
  have left : remaining.run r = (0, r) := by rw [← empty]; rfl
  unfold findTag
  split
  · rfl
  · simp only [run_bind, here, left]
    rfl

theorem findWord_finishes (word : Bytes) (inside : r.position ≤ r.size) :
    Finishes (findWordRound word r.size) () r ((findWord word).run r).1
      ((findWordFrom word r.size (r.size - r.position)).run r).2 := by
  refine finishes_of_idle (fun s _ => findWord_counts s word r.size) (findWordRound_consumes _ _).on ?_
    (r.size - r.position) () r inside (Nat.le_refl _)
  intro state s _ empty
  simp only [findWordRound, run_bind, findTag_idle word s empty]
  rfl

end Scan

namespace Parse
open Scan (Consumes Finishes)

variable {element value : Parse Object} {r : Reader}

theorem elementRound_consumes (advances : element.Advances) : Consumes (elementRound element) := by
  intro taken r inside
  have past := Reader.advancedFrom_self inside
  have read : element.run.Meets r fun result u => u.AdvancedFrom r (gain 0 result) :=
    Meets.run (advances past)
  refine read.bind fun result u past => ?_
  cases result with
  | ok object => exact Scan.meets_pure past
  | error reason => exact Scan.meets_pure trivial

theorem entryRound_consumes (advances : value.Advances) (mode : Mode) :
    Consumes (entryRound value mode) := by
  intro dict r inside
  unfold entryRound
  refine (Scan.word_meets (Reader.advancedFrom_self inside)).bind fun word u past => ?_
  apply Scan.meets_position
  refine Scan.meets_ite (fun _ => Scan.meets_pure trivial) fun nonempty => ?_
  have past : u.AdvancedFrom r 1 := past.word nonempty
  dsimp only
  cases KeyWord.ofWord word.bytes with
  | close => exact Scan.meets_pure trivial
  | endObject => exact ⟨trivial⟩
  | other => exact Scan.meets_pure past
  | key name =>
    refine Scan.meets_ite (fun _ => ⟨trivial⟩) fun _ => ?_
    have read : value.run.Meets u fun result v => v.AdvancedFrom r (gain 1 result) :=
      Meets.run (advances past)
    refine read.bind fun result v past => ?_
    cases result with
    | ok object => exact Scan.meets_pure (past.mono (Nat.le_succ 1))
    | error reason =>
      refine Scan.meets_ite (fun _ => Scan.meets_pure trivial) fun _ => ?_
      exact Scan.meets_ite (fun _ => Scan.meets_pure past) fun _ => ⟨trivial⟩

theorem elements_finishes (advances : element.Advances) (taken : List Object)
    (inside : r.position ≤ r.size) :
    Finishes (elementRound element) taken r
      ((elements element (r.size - r.position + 1) taken).run.run r).1
      ((elements element (r.size - r.position + 1) taken).run.run r).2 :=
  Scan.finishes_of_lt (fun s _ => elements_counts s element) (elementRound_consumes advances).on
    _ taken r inside (Nat.lt_succ_self _)

theorem entries_finishes (advances : value.Advances) (mode : Mode) (dict : Dictionary)
    (inside : r.position ≤ r.size) :
    Finishes (entryRound value mode) dict r
      ((entries value mode (r.size - r.position + 1) dict).run.run r).1
      ((entries value mode (r.size - r.position + 1) dict).run.run r).2 :=
  Scan.finishes_of_lt (fun s _ => entries_counts s value mode) (entryRound_consumes advances mode).on
    _ dict r inside (Nat.lt_succ_self _)

end Parse
end PdfObjects
