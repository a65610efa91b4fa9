import PdfObjects.Proofs.Expectations
import PdfObjects.Proofs.Passage

/-! Where cursors go. Whatever of a document has arrived, and whatever its source makes of a read, no
command moves the cursor out of the document. A byte moves it on by one; everything that is put back has
been read before. So what has been read bounds from below where a program can end, and a word lies
between the places where it was looked for and where it was found. -/
namespace PdfObjects
open Scan (Verdict)

theorem Word.length_pos {word : Word} (nonempty : ¬ word.isEmpty = true) : 0 < word.bytes.length := by
  rw [Word.isEmpty, List.isEmpty_iff] at nonempty
  exact List.length_pos_iff.mpr nonempty

theorem Source.read_size (s : Source) (offset length : Nat) : (s.read offset length).2.size = s.size := by
  cases s with
  | memory bytes => unfold Source.read; split <;> rfl
  | stream bytes position => unfold Source.read; split <;> rfl
  | window inner start size => unfold Source.read; split <;> rfl

theorem Gate.size_evolution : Gate.Evolution fun g after => after.size = g.size where
  refl _ := rfl
  trans _ _ _ first rest := rest.trans first
  read g offset length := by
    have same := g.source.read_size offset length
    unfold Gate.read
    split
    · rfl
    · split
      · rfl
      · split
        · rename_i read
          rw [read] at same
          exact same
        · rename_i read
          rw [read] at same
          exact same
  check g offset length _ := by
    rcases g.check_cases offset length with passed | ⟨_, _, failed⟩
    · rw [passed]
    · rw [failed]
      rfl
  session _ _ inside := inside

/-- Whether a command leaves the cursor where it is. -/
def Command.isStill : Command α → Bool
  | .next | .seek _ => false
  | _ => true

namespace Reader

variable {r t : Reader} {n m : Nat}

/-- No run changes how long the document is. -/
theorem size_run (program : Scan α) (r : Reader) : (program.run r).2.size = r.size := by
  have source : (program.run r).2.gate.size = r.gate.size := Gate.size_evolution.reader.run program r
  have origin := (continues.run program r).origin
  rw [size, size, source, origin]

/-- Nothing is read outside the source. -/
theorem fetch_inside {offset start : Nat} {b : UInt8} (found : (r.fetch offset start).1 = some b) :
    offset < r.gate.size := by
  by_cases outside : r.gate.size ≤ offset
  · simp [fetch, outside] at found
  · exact Nat.lt_of_not_le outside

theorem fetch_position (r : Reader) (offset start : Nat) :
    (r.fetch offset start).2.position = r.position := by
  obtain ⟨gate, window, kept⟩ := r.fetch_kept offset start
  rw [kept]

theorem next_position (r : Reader) : r.next.2.position =
    match r.next.1 with
    | some _ => r.position + 1
    | none => r.position := by
  have kept := r.fetch_position (r.position + r.origin) (r.position + r.origin)
  unfold next byteAt
  split
  · rename_i found
    rw [found] at kept
    exact congrArg (· + 1) kept
  · rename_i missing
    rw [missing] at kept
    exact kept

theorem next_inside {b : UInt8} (found : r.next.1 = some b) : r.position < r.size := by
  have seen : (r.fetch (r.position + r.origin) (r.position + r.origin)).1 = some b := by
    unfold next byteAt at found
    split at found
    · rename_i answer
      rw [answer]
      exact found
    · cases found
  have bound := fetch_inside seen
  unfold size
  omega

theorem noteTrailer_position (r : Reader) (ending : UInt8) :
    (r.noteTrailer ending).position = r.position := by
  unfold noteTrailer
  split
  · rfl
  · split
    · exact r.fetch_position _ _
    · rfl

theorem still_position {command : Command α} (still : command.isStill = true) (r : Reader) :
    (Readable.perform command r).2.position = r.position := by
  cases command with
  | next => cases still
  | seek position => cases still
  | byteAt position => exact r.fetch_position _ _
  | byteBehind position => exact r.fetch_position _ _
  | noteTrailer ending => exact r.noteTrailer_position ending
  | check position length =>
    simp only [Readable.perform, check]
    split <;> rfl
  | block | position | documentSize | settings | keepWord | lastWord => rfl

/-- A cursor inside the document stays inside, whatever is read. -/
theorem inside_evolution : Scan.Evolution fun r t : Reader =>
    t.size = r.size ∧ (r.position ≤ r.size → t.position ≤ t.size) where
  refl r := ⟨rfl, id⟩
  trans r s t first rest := ⟨rest.1.trans first.1, rest.2 ∘ first.2⟩
  perform command r := by
    have same : (Readable.perform command r).2.size = r.size := r.size_run (.perform command)
    refine ⟨same, fun inside => ?_⟩
    rw [same]
    cases moved : command.isStill with
    | true =>
      rw [still_position moved]
      exact inside
    | false =>
      cases command with
      | next =>
        have position : (Readable.perform Command.next r).2.position = _ := r.next_position
        rw [position]
        split
        · rename_i found
          exact next_inside found
        · exact inside
      | seek position => exact Nat.min_le_right _ _
      | byteAt | byteBehind | noteTrailer | check | block | position | documentSize | settings
      | keepWord | lastWord => cases moved
  session r after inside := inside
  nested r inner after enters inside := by
    obtain ⟨_, rfl⟩ := entered enters
    exact inside

theorem inside_run (program : Scan α) (inside : r.position ≤ r.size) :
    (program.run r).2.position ≤ (program.run r).2.size :=
  (inside_evolution.run program r).2 inside

/-- A later state of a reader: the document is as long as it was, and the cursor is inside it and at
least so many bytes further on. -/
structure AdvancedFrom (t r : Reader) (count : Nat) : Prop where
  size : t.size = r.size
  inside : t.position ≤ t.size
  behind : r.position + count ≤ t.position

theorem advancedFrom_self (inside : r.position ≤ r.size) : r.AdvancedFrom r 0 := ⟨rfl, inside, Nat.le_refl _⟩

theorem AdvancedFrom.mono (past : t.AdvancedFrom r n) (fewer : m ≤ n) : t.AdvancedFrom r m :=
  ⟨past.size, past.inside, Nat.le_trans (Nat.add_le_add_left fewer _) past.behind⟩

/-- A word that is not empty makes up for a byte. -/
theorem AdvancedFrom.word {word : Word} (past : t.AdvancedFrom r (n + word.bytes.length))
    (nonempty : ¬ word.isEmpty = true) : t.AdvancedFrom r (n + 1) :=
  past.mono (Nat.add_le_add_left (Word.length_pos nonempty) n)

/-- Whatever is run next, the document stays and the cursor stays inside it. -/
theorem AdvancedFrom.run (past : t.AdvancedFrom r n) (program : Scan α)
    (behind : r.position + m ≤ (program.run t).2.position) : (program.run t).2.AdvancedFrom r m :=
  ⟨(t.size_run program).trans past.size, inside_run program past.inside, behind⟩

theorem AdvancedFrom.still (past : t.AdvancedFrom r n) {command : Command α} (still : command.isStill = true) :
    (Scan.perform command).Meets t fun _ u => u.AdvancedFrom r n := by
  constructor
  apply past.run (.perform command)
  rw [Scan.run_perform, still_position still]
  exact past.behind

end Reader

namespace Scan

variable {r t : Reader} {n m : Nat}

theorem next_meets (past : t.AdvancedFrom r n) : next.Meets t fun found u =>
    match found with
    | some _ => u.AdvancedFrom r (n + 1)
    | none => u.AdvancedFrom r n := by
  have position : (next.run t).2.position = _ := t.next_position
  have same : (next.run t).1 = t.next.1 := rfl
  have behind := past.behind
  constructor
  rw [same]
  cases found : t.next.1 with
  | some b =>
    rw [found] at position
    apply past.run next
    rw [position]
    exact Nat.succ_le_succ behind
  | none =>
    rw [found] at position
    apply past.run next
    rw [position]
    exact behind

/-- Asking for the cursor changes nothing. -/
theorem meets_position {rest : Nat → Scan β} {expected : β → Reader → Prop}
    (meets : (rest t.position).Meets t expected) : (position >>= rest).Meets t expected :=
  ⟨meets.holds⟩

theorem seek_meets (past : t.AdvancedFrom r n) {position : Nat} (fewer : m ≤ n)
    (behind : r.position + m ≤ position) : (seek position).Meets t fun _ u => u.AdvancedFrom r m := by
  constructor
  apply past.run (seek position)
  have reached := past.behind
  have inside := past.inside
  change r.position + m ≤ min position t.size
  omega

/-- What has been read can be put back. -/
theorem unread_meets (past : t.AdvancedFrom r (n + 1)) : unread.Meets t fun _ u => u.AdvancedFrom r n := by
  have behind : r.position + n ≤ t.position - 1 := Nat.le_sub_one_of_lt past.behind
  exact meets_position (seek_meets past (Nat.le_succ n) behind)

/-- A loop over bytes goes on by what it holds, if that grows by no more than a byte for each byte. -/
theorem takeFrom_meets {β α : Type} {step : β → UInt8 → Verdict β α} {finish : β → α} (held : β → Nat)
    (answered : α → Nat) (more : ∀ state b state', step state b = .more state' →
      held state' ≤ held state + 1)
    (before : ∀ state b answer, step state b = .before answer → answered answer ≤ held state)
    (through : ∀ state b answer, step state b = .through answer → answered answer ≤ held state + 1)
    (finished : ∀ state, answered (finish state) ≤ held state) (fuel : Nat) (state : β)
    (past : t.AdvancedFrom r (n + held state)) :
    (takeFrom step finish fuel state).Meets t fun answer u => u.AdvancedFrom r (n + answered answer) := by
  induction fuel generalizing t state with
  | zero => exact meets_pure (past.mono (Nat.add_le_add_left (finished state) n))
  | succ fuel ih =>
    unfold takeFrom
    refine (next_meets past).bind fun found u past => ?_
    cases found with
    | none => exact meets_pure (past.mono (Nat.add_le_add_left (finished state) n))
    | some b =>
      dsimp only
      cases made : step state b with
      | more state' =>
        have bound := Nat.add_le_add_left (more state b state' made) n
        exact ih state' (past.mono bound)
      | before answer =>
        have bound := Nat.add_le_add_left (before state b answer made) n
        exact (unread_meets past).bind fun _ u past => meets_pure (past.mono bound)
      | through answer =>
        have bound := Nat.add_le_add_left (through state b answer made) n
        exact meets_pure (past.mono bound)

theorem remaining_meets (past : t.AdvancedFrom r n) : remaining.Meets t fun _ u => u.AdvancedFrom r n :=
  (past.still rfl).bind fun _ _ past => (past.still rfl).bind fun _ _ past => meets_pure past

/-- Taking bytes one by one never goes back. -/
theorem take_meets {β α : Type} (step : β → UInt8 → Verdict β α) (finish : β → α) (state : β)
    (past : t.AdvancedFrom r n) : (take step finish state).Meets t fun _ u => u.AdvancedFrom r n :=
  (remaining_meets past).bind fun fuel _ past =>
    takeFrom_meets (fun _ => 0) (fun _ => 0) (fun _ _ _ _ => Nat.zero_le _)
      (fun _ _ _ _ => Nat.le_refl _) (fun _ _ _ _ => Nat.zero_le _) (fun _ => Nat.le_refl _) fuel state
      past

theorem skipFrom_meets (fuel : Nat) (state : Option Marker) (past : t.AdvancedFrom r n) :
    (skipFrom fuel state).Meets t fun _ u => u.AdvancedFrom r n := by
  induction fuel generalizing t state with
  | zero => exact meets_pure past
  | succ fuel ih =>
    unfold skipFrom
    refine (next_meets past).bind fun found u past => ?_
    cases found with
    | none => exact meets_pure past
    | some b =>
      have on := past.mono (Nat.le_succ n)
      cases state with
      | none =>
        dsimp only
        refine meets_ite (fun _ => ih none on) fun _ => ?_
        exact meets_ite (fun _ => ih _ on) fun _ => unread_meets past
      | some marker =>
        dsimp only
        refine meets_ite (fun _ => ?_) fun _ => ih _ on
        refine meets_ite (fun _ => ?_) fun _ => ih none on
        exact (on.still rfl).bind fun _ _ past => ih none past

theorem skipBlanks_meets (past : t.AdvancedFrom r n) : skipBlanks.Meets t fun _ u => u.AdvancedFrom r n :=
  (remaining_meets past).bind fun fuel _ past => skipFrom_meets fuel none past

/-- The bytes of a run lie between the place where they were looked for and the cursor. -/
theorem restOfRun_meets (taken : Bytes) (past : t.AdvancedFrom r (n + taken.length)) :
    (restOfRun taken).Meets t fun bytes u => u.AdvancedFrom r (n + bytes.length) := by
  refine (remaining_meets past).bind fun fuel _ past => ?_
  refine takeFrom_meets List.length List.length ?_ ?_ ?_ ?_ fuel taken past
  · intro taken b taken' made
    split at made
    · cases made
    · cases made
      exact Nat.le_refl _
  · intro taken b answer made
    split at made
    · cases made
      exact Nat.le_of_eq List.length_reverse
    · cases made
  · intro taken b answer made
    split at made <;> cases made
  · exact fun taken => Nat.le_of_eq List.length_reverse

/-- So do those of a word. -/
theorem lexeme_meets (past : t.AdvancedFrom r n) :
    lexeme.Meets t fun bytes u => u.AdvancedFrom r (n + bytes.length) := by
  unfold lexeme
  refine (next_meets past).bind fun found u past => ?_
  cases found with
  | none => exact meets_pure past
  | some b =>
    dsimp only
    refine meets_ite (fun _ => restOfRun_meets [b] past) fun _ => ?_
    refine meets_ite (fun _ => ?_) fun _ => meets_pure past
    refine (next_meets past).bind fun found u past => ?_
    cases found with
    | none => exact meets_pure past
    | some c =>
      dsimp only
      refine meets_ite (fun _ => meets_pure past) fun _ => ?_
      exact (unread_meets past).bind fun _ _ past => meets_pure past

theorem rawWord_meets (past : t.AdvancedFrom r n) :
    rawWord.Meets t fun word u => u.AdvancedFrom r (n + word.bytes.length) := by
  refine (skipBlanks_meets past).bind fun _ _ past => ?_
  refine (past.still rfl).bind fun limits _ past => ?_
  refine (lexeme_meets past).bind fun bytes _ past => ?_
  refine (past.still rfl).bind fun _ _ past => ?_
  have kept : (Word.ofLexeme limits.wordLength bytes).bytes.length ≤ bytes.length :=
    List.length_take_le' _ _
  exact meets_pure (past.mono (Nat.add_le_add_left kept n))

/-- A session reads what its body reads. -/
theorem session_meets {body : Scan α} (expected : α → Nat)
    (meets : ∀ s : Reader, s.AdvancedFrom r n → body.Meets s fun value u => u.AdvancedFrom r (expected value))
    (past : t.AdvancedFrom r n) :
    (session body).Meets t fun result u => u.AdvancedFrom r (expected result.1) := by
  have inside := (meets (Readable.openSession t) ⟨past.size, past.inside, past.behind⟩).holds
  exact ⟨inside.size, inside.inside, inside.behind⟩

/-- A word that is not empty was found behind the place where it was looked for. -/
theorem word_meets (past : t.AdvancedFrom r n) :
    word.Meets t fun word u => u.AdvancedFrom r (n + word.bytes.length) := by
  refine (session_meets (fun word : Word => n + word.bytes.length)
    (fun _ past => rawWord_meets past) past).bind fun result u past => ?_
  obtain ⟨word, problems⟩ := result
  cases problems with
  | true => exact meets_pure (past.mono (Nat.add_le_add_left (Nat.zero_le _) n))
  | false => exact meets_pure past

theorem nextLine_meets (past : t.AdvancedFrom r n) : nextLine.Meets t fun _ u => u.AdvancedFrom r n :=
  take_meets _ _ _ past

end Scan

theorem Parse.meets_position {t : Reader} {rest : Nat → Parse β} {done : β → Reader → Prop}
    {failed : Error → Reader → Prop} (meets : (rest t.position).Meets t done failed) :
    ((liftM Scan.position : Parse Nat) >>= rest).Meets t done failed :=
  ⟨meets.value, meets.error⟩

end PdfObjects
