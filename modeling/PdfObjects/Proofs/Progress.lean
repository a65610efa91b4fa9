import PdfObjects.Proofs.Cursor
import PdfObjects.Proofs.Levels

/-! How far the cursor gets when an object is read. An object takes at least a byte, and an error never
leaves the cursor in front of where reading began, although much is put back on the way: words that did
not apply, keywords that end something else, and the byte after a payload, even if there was none. What
makes up for that byte is the keyword in front of the payload. -/
namespace PdfObjects

namespace Scan

variable {r t : Reader} {n m : Nat}

/-- Whatever is read ahead, the cursor comes back. -/
theorem lookahead_meets (past : t.AdvancedFrom r n) (body : Scan α) :
    (lookahead body).Meets t fun _ u => u.AdvancedFrom r n := by
  constructor
  apply past.run (lookahead body)
  have behind := past.behind
  have inside := past.inside
  have size := t.size_run body
  change r.position + n ≤ min t.position (body.run t).2.size
  omega

/-- What does not apply leaves the cursor in place. -/
theorem attempt_meets {body : Scan (Option α)} (past : t.AdvancedFrom r n)
    (meets : body.Meets t fun found u => found.isSome → u.AdvancedFrom r m) :
    (attempt body).Meets t fun found u =>
      match found with
      | some _ => u.AdvancedFrom r m
      | none => u.AdvancedFrom r n := by
  have back := (lookahead_meets past body).holds
  have applies := meets.holds
  have here : position.run t = (t.position, t) := rfl
  constructor
  simp only [attempt, lookahead, run_bind, here] at back ⊢
  cases found : (body.run t).1 with
  | some value =>
    rw [found] at applies
    exact applies rfl
  | none => exact back

/-- A keyword that is accepted has been read. -/
theorem accept_meets (keyword : Bytes) (past : t.AdvancedFrom r n) :
    (accept keyword).Meets t fun found u => u.AdvancedFrom r (if found then n + keyword.length else n) := by
  refine (attempt_meets (m := n + keyword.length) past ?_).bind fun found u past => ?_
  · refine (word_meets past).bind fun word u past => meets_pure ?_
    by_cases same : word.bytes = keyword
    · exact fun _ => same ▸ past
    · rw [if_neg same]
      exact fun never => nomatch never
  · cases found with
    | some _ => exact meets_pure past
    | none => exact meets_pure past

theorem referenceTail_meets (past : t.AdvancedFrom r n) :
    referenceTail.Meets t fun _ u => u.AdvancedFrom r n := by
  refine (attempt_meets (m := n) past ?_).mono fun found u past => ?_
  · refine (word_meets past).bind fun generation _ past => ?_
    have on := past.mono (Nat.le_add_right _ _)
    refine meets_ite (fun _ => meets_pure fun _ => on) fun _ => ?_
    exact (word_meets on).bind fun _ _ past => meets_pure fun _ => past.mono (Nat.le_add_right _ _)
  · cases found with
    | some _ => exact past
    | none => exact past

theorem lineEndingAt_meets (position : Nat) (past : t.AdvancedFrom r n) :
    (lineEndingAt position).Meets t fun _ u => u.AdvancedFrom r n :=
  (past.still rfl).bind fun _ _ past => (past.still rfl).bind fun _ _ past => meets_pure past

theorem trim_meets (stop : Nat) (past : t.AdvancedFrom r n) :
    (payloadEnd.trim stop).Meets t fun _ u => u.AdvancedFrom r n := by
  have last (pair single : Nat) {t : Reader} (past : t.AdvancedFrom r n) :
      (do
        let stop := if pair = 2 then stop - 2 else if single = 1 then stop - 1 else stop
        pure (if (← position) ≤ stop then some stop else none)).Meets t fun _ u => u.AdvancedFrom r n :=
    meets_position (meets_pure past)
  have second (pair : Nat) {t : Reader} (past : t.AdvancedFrom r n) :
      (do
        let single ← if pair ≠ 2 ∧ 1 ≤ stop then lineEndingAt (stop - 1) else pure 0
        let stop := if pair = 2 then stop - 2 else if single = 1 then stop - 1 else stop
        pure (if (← position) ≤ stop then some stop else none)).Meets t fun _ u => u.AdvancedFrom r n :=
    meets_ite (fun _ => (lineEndingAt_meets _ past).bind fun single _ => last pair single)
      fun _ => ⟨(last pair 0 past).holds⟩
  exact meets_ite (fun _ => (lineEndingAt_meets _ past).bind fun pair _ => second pair)
    fun _ => ⟨(second 0 past).holds⟩

/-- The end of a payload is searched for without moving. -/
theorem payloadEnd_meets (past : t.AdvancedFrom r n) : payloadEnd.Meets t fun _ u => u.AdvancedFrom r n := by
  unfold payloadEnd
  refine (lookahead_meets past _).bind fun stream _ past => ?_
  refine (lookahead_meets past _).bind fun object _ past => ?_
  cases stream with
  | none =>
    cases object with
    | none => exact meets_pure past
    | some stop => exact trim_meets stop past
  | some stop =>
    cases object with
    | none => exact trim_meets stop past
    | some other => exact trim_meets _ past

theorem endStreamFollows_meets (past : t.AdvancedFrom r n) :
    endStreamFollows.Meets t fun _ u => u.AdvancedFrom r n := by
  refine session_meets (fun _ => n) (fun s past => ?_) past
  apply meets_position
  refine (lineEndingAt_meets s.position past).bind fun count u later => ?_
  have behind := Nat.le_trans past.behind (Nat.le_add_right _ count)
  refine (seek_meets later (Nat.le_refl n) behind).bind fun _ _ past => ?_
  exact (rawWord_meets past).bind fun _ _ past => meets_pure (past.mono (Nat.le_add_right _ _))

end Scan

namespace Parse
open Scan

variable {r t : Reader} {n : Nat} {resolve : Resolver} {mode : Mode}

theorem skipPayload_meets {start : Nat} (length : Nat) (past : t.AdvancedFrom r n)
    (behind : r.position + n ≤ start) :
    (skipPayload start length).Meets t (fun _ u => u.AdvancedFrom r n) fun _ u => u.AdvancedFrom r n := by
  refine meets_ite (fun _ => ?_) fun _ => meets_pure past
  refine meets_lift_bind (seek_meets past (Nat.le_refl n) behind) fun _ _ past => ?_
  refine meets_lift_bind (past.still rfl) fun arrived _ past => ?_
  refine meets_ite (fun _ => ?_) fun _ => meets_throw past
  exact meets_lift (seek_meets past (Nat.le_refl n) (Nat.le_trans behind (Nat.le_add_right _ _)))

theorem searchedLength_meets {start : Nat} (past : t.AdvancedFrom r n) (behind : r.position + n ≤ start) :
    (searchedLength start).Meets t (fun _ u => u.AdvancedFrom r n) fun _ u => u.AdvancedFrom r n := by
  unfold searchedLength
  refine meets_lift_bind (payloadEnd_meets past) fun found _ past => ?_
  cases found with
  | none => exact meets_throw past
  | some stop => exact (skipPayload_meets _ past behind).bind fun _ _ past => meets_pure past

theorem payloadLength_meets {start : Nat} (declared : Option Nat) (past : t.AdvancedFrom r n)
    (behind : r.position + n ≤ start) :
    (payloadLength start declared).Meets t (fun _ u => u.AdvancedFrom r n) fun _ u => u.AdvancedFrom r n := by
  cases declared with
  | none => exact searchedLength_meets past behind
  | some length =>
    unfold payloadLength
    refine (skipPayload_meets length past behind).bind fun _ _ past => ?_
    refine meets_lift_bind (endStreamFollows_meets past) fun result _ past => ?_
    obtain ⟨found, problems⟩ := result
    refine meets_ite (fun _ => meets_throw_bind past) fun _ => ?_
    refine meets_ite (fun _ => meets_pure past) fun _ => ?_
    refine meets_lift_bind (seek_meets past (Nat.le_refl n) behind) fun _ _ past => ?_
    exact searchedLength_meets past behind

theorem payloadBytes_meets (start length : Nat) (past : t.AdvancedFrom r n) :
    (payloadBytes start length).Meets t (fun _ u => u.AdvancedFrom r n) fun _ u => u.AdvancedFrom r n := by
  refine meets_ite (fun _ => meets_pure past) fun _ => ?_
  refine meets_lift_bind (past.still rfl) fun found _ past => ?_
  cases found with
  | some bytes => exact meets_pure past
  | none => exact meets_throw past

/-- The last step goes back by a byte, whether or not there was one to be read. -/
theorem skipEndStream_meets (past : t.AdvancedFrom r (n + 1)) :
    skipEndStream.Meets t fun _ u => u.AdvancedFrom r n := by
  have behind := Nat.le_of_lt past.behind
  unfold skipEndStream
  apply Scan.meets_position
  refine (rawWord_meets past).bind fun word _ past => ?_
  refine (take_meets _ _ _ (past.mono (Nat.le_add_right _ _))).bind fun _ _ past => ?_
  refine (unread_meets past).bind fun _ u past => ?_
  apply Scan.meets_position
  refine (lineEndingAt_meets u.position past).bind fun _ _ past => ?_
  exact Scan.meets_ite (fun _ => seek_meets past (Nat.le_refl n) behind) fun _ => Scan.meets_pure past

/-- So a payload needs a byte in front of it, which its keyword provides. -/
theorem payload_meets (dict : Dictionary) (past : t.AdvancedFrom r (n + 1)) :
    (payload dict resolve).Meets t (fun _ u => u.AdvancedFrom r n) fun _ u => u.AdvancedFrom r n := by
  unfold payload
  refine meets_lift_bind (nextLine_meets past) fun _ u past => ?_
  apply meets_position
  have asked : documentSize.Meets u fun _ v => v = u := ⟨rfl⟩
  refine meets_lift_bind asked fun size _ same => ?_
  subst same
  have weaken (_ : Error) (u : Reader) (past : u.AdvancedFrom r (n + 1)) : u.AdvancedFrom r n :=
    past.mono (Nat.le_succ n)
  have measured declared := (payloadLength_meets declared past past.behind).mono (fun _ _ => id) weaken
  refine (measured _).bind fun length _ past => ?_
  have taken start := (payloadBytes_meets start length past).mono (fun _ _ => id) weaken
  refine (taken _).bind fun bytes _ past => ?_
  exact meets_lift_bind (skipEndStream_meets past) fun _ _ past => meets_pure past

/-- What a program has taken for certain, on top of what was read before: a byte if it succeeded. -/
def gain (n : Nat) : Except Error α → Nat
  | .ok _ => n + 1
  | .error _ => n

/-- A program that takes at least a byte if it succeeds, and never ends in front of its start. -/
def Advances (program : Parse α) : Prop :=
  ∀ {r t : Reader} {n : Nat}, t.AdvancedFrom r n →
    program.Meets t (fun _ u => u.AdvancedFrom r (n + 1)) fun _ u => u.AdvancedFrom r n

theorem Advances.outcome {program : Parse α} (advances : program.Advances) (past : t.AdvancedFrom r n) :
    (outcome program).Meets t (fun _ u => u.AdvancedFrom r n) fun _ u => u.AdvancedFrom r n :=
  meets_outcome ((advances past).mono (fun _ _ past => past.mono (Nat.le_succ n)) fun _ _ => id)

variable {element value : Parse Object}

theorem numberOrReference_meets (first : Bytes) (past : t.AdvancedFrom r n) :
    (numberOrReference first).Meets t (fun _ u => u.AdvancedFrom r n) fun _ u => u.AdvancedFrom r n := by
  unfold numberOrReference
  apply meets_position
  refine meets_lift_bind (referenceTail_meets past) fun tail _ past => ?_
  cases tail with
  | none => exact meets_pure past
  | some generation => exact meets_ite (fun _ => meets_throw past) fun _ => meets_pure past

theorem elements_meets (advances : element.Advances) (fuel : Nat) (taken : List Object)
    (past : t.AdvancedFrom r n) :
    (elements element fuel taken).Meets t (fun _ u => u.AdvancedFrom r n) fun _ u => u.AdvancedFrom r n := by
  induction fuel generalizing t taken with
  | zero => exact meets_pure past
  | succ fuel ih =>
    unfold elements
    refine (advances.outcome past).bind fun result _ past => ?_
    cases result with
    | ok object => exact ih _ past
    | error reason => exact meets_ite (fun _ => meets_throw past) fun _ => meets_pure past

theorem array_meets (advances : element.Advances) (past : t.AdvancedFrom r n) :
    (array element mode).Meets t (fun _ u => u.AdvancedFrom r n) fun _ u => u.AdvancedFrom r n := by
  unfold array
  refine meets_lift_bind (remaining_meets past) fun left _ past => ?_
  refine (elements_meets advances _ [] past).bind fun objects _ past => ?_
  refine meets_lift_bind (past.still rfl) fun last _ past => ?_
  exact meets_ite (fun _ => meets_pure past) fun _ => meets_position (meets_throw past)

theorem entries_meets (advances : value.Advances) (fuel : Nat) (dict : Dictionary)
    (past : t.AdvancedFrom r n) :
    (entries value mode fuel dict).Meets t (fun _ u => u.AdvancedFrom r n) fun _ u => u.AdvancedFrom r n := by
  induction fuel generalizing t dict with
  | zero => exact meets_position (meets_throw past)
  | succ fuel ih =>
    unfold entries
    refine meets_lift_bind (word_meets past) fun word u found => ?_
    have past := found.mono (Nat.le_add_right n _)
    apply meets_position
    refine meets_ite (fun _ => meets_throw_bind past) fun _ => ?_
    dsimp only
    cases KeyWord.ofWord word.bytes with
    | close => exact meets_pure past
    | endObject =>
      have behind : r.position + n ≤ u.position - word.bytes.length := by
        have reached := found.behind
        omega
      exact meets_lift_bind (seek_meets past (Nat.le_refl n) behind) fun _ _ past => meets_pure past
    | other => exact ih dict past
    | key name =>
      dsimp only
      refine meets_ite (fun _ => ?_) fun _ => ?_
      · exact meets_lift_bind (nextLine_meets past) fun _ _ past => meets_throw_bind past
      · refine (advances.outcome past).bind fun result _ past => ?_
        cases result with
        | ok object => exact ih _ past
        | error reason =>
          dsimp only
          refine meets_ite (fun _ => meets_throw past) fun _ => ?_
          refine meets_ite (fun _ => ih dict past) fun _ => ?_
          exact meets_lift_bind (nextLine_meets past) fun _ _ past => meets_throw past

/-- What a dictionary turns out to be: a stream if the keyword of one follows. -/
def opened (resolve : Resolver) (dict : Dictionary) : Parse Object := do
  if ← Scan.accept streamKeyword then pure (.stream dict (← payload dict resolve))
  else pure (.dictionary dict)

theorem opened_meets (dict : Dictionary) (past : t.AdvancedFrom r n) :
    (opened resolve dict).Meets t (fun _ u => u.AdvancedFrom r n) fun _ u => u.AdvancedFrom r n := by
  unfold opened
  refine meets_lift_bind (accept_meets streamKeyword past) fun found _ past => ?_
  cases found with
  | false => exact meets_pure past
  | true =>
    have keyword := past.mono (Nat.add_le_add_left (show 1 ≤ streamKeyword.length by decide) n)
    exact (payload_meets dict keyword).bind fun _ _ past => meets_pure past

theorem dictionary_meets (advances : value.Advances) (past : t.AdvancedFrom r n) :
    (dictionary value resolve mode).Meets t (fun _ u => u.AdvancedFrom r n) fun _ u => u.AdvancedFrom r n := by
  refine meets_lift_bind (remaining_meets past) fun left _ past => ?_
  exact (entries_meets advances _ [] past).bind fun dict _ past => opened_meets dict past

theorem rewinding_meets {program : Parse Object} {start : Nat}
    (behind : r.position + n ≤ start)
    (meets : program.Meets t (fun _ u => u.AdvancedFrom r (n + 1)) fun _ u => u.AdvancedFrom r n) :
    (rewinding start program).Meets t (fun _ u => u.AdvancedFrom r (n + 1)) fun _ u => u.AdvancedFrom r n := by
  have tried : (outcome program).Meets t (fun result u => u.AdvancedFrom r (gain n result))
      fun _ u => u.AdvancedFrom r n := meets_outcome meets
  refine tried.bind fun result u past => ?_
  cases result with
  | ok object => exact meets_pure past
  | error reason =>
    refine meets_ite (fun _ => ?_) fun _ => meets_throw past
    exact meets_lift_bind (seek_meets past (Nat.le_refl n) behind) fun _ _ past => meets_throw past

/-- An object of whatever kind takes at least the bytes of its first word. -/
theorem body_advances (levels : Nat) (mode : Mode) : (body resolve levels mode).Advances := by
  induction levels generalizing mode with
  | zero =>
    intro r t n past
    exact meets_lift_bind (past.still rfl) fun _ _ past => meets_throw past
  | succ levels ih =>
    intro r t n past
    have start := past.behind
    unfold body announced
    apply meets_position
    refine meets_lift_bind (word_meets past) fun word u found => ?_
    have past := found.mono (Nat.le_add_right n _)
    refine meets_ite (fun _ => meets_position (meets_throw_bind past)) fun nonempty => ?_
    have on : u.AdvancedFrom r (n + 1) := found.word nonempty
    have fails (_ : Error) (u : Reader) (past : u.AdvancedFrom r (n + 1)) : u.AdvancedFrom r n :=
      past.mono (Nat.le_succ n)
    refine meets_ite (fun _ => (numberOrReference_meets _ on).mono (fun _ _ => id) fails) fun _ => ?_
    cases Lead.ofWord word.bytes with
    | whole object => exact meets_pure on
    | literalString => exact meets_lift_bind (take_meets _ _ _ on) fun _ _ past => meets_pure past
    | hexString => exact meets_lift_bind (take_meets _ _ _ on) fun _ _ past => meets_pure past
    | array => exact rewinding_meets start ((array_meets (ih .loose) on).mono (fun _ _ => id) fails)
    | dictionary =>
      exact rewinding_meets start ((dictionary_meets (ih .loose) on).mono (fun _ _ => id) fails)
    | dictionaryEnd =>
      exact meets_lift_bind (seek_meets past (Nat.le_refl n) start) fun _ _ past =>
        meets_throw past
    | nothing => exact meets_throw past

theorem bodyFrom_advances (fuel : Nat) (mode : Mode) : (bodyFrom resolve fuel mode).Advances := by
  intro r t n past
  exact (body_advances _ mode past).alike (bodyFrom_levels Reader.nesting fuel t)

theorem anyObject_advances : (anyObject resolve mode).Advances := by
  intro r t n past
  exact (body_advances _ mode past).alike (anyObject_levels Reader.nesting t)

theorem headerNumber_meets {start : Nat} (fault : SyntaxFault) (past : t.AdvancedFrom r n)
    (behind : r.position + n ≤ start) :
    (headerNumber start fault).Meets t (fun _ u => u.AdvancedFrom r n) fun _ u => u.AdvancedFrom r n := by
  unfold headerNumber
  refine meets_lift_bind (word_meets past) fun word _ found => ?_
  have past := found.mono (Nat.le_add_right n _)
  refine meets_ite (fun _ => meets_pure past) fun _ => ?_
  exact meets_lift_bind (seek_meets past (Nat.le_refl n) behind) fun _ _ past => meets_throw past

theorem headerAndObject_advances : (headerAndObject resolve mode).Advances := by
  intro r t n past
  have start := past.behind
  unfold headerAndObject
  apply meets_position
  refine (headerNumber_meets _ past start).bind fun number _ past => ?_
  refine (headerNumber_meets _ past start).bind fun generation _ past => ?_
  refine meets_lift_bind (word_meets past) fun keyword _ found => ?_
  have past := found.mono (Nat.le_add_right n _)
  refine meets_ite (fun _ => ?_) fun _ => ?_
  · exact meets_lift_bind (seek_meets past (Nat.le_refl n) start) fun _ _ past =>
      meets_throw_bind past
  · exact (anyObject_advances past).bind fun _ _ past => meets_pure past

/-- As a session, where an error may take the place of a value. -/
theorem whole_advances {program : Parse α} (advances : program.Advances) :
    (whole program).Advances := by
  intro r t n past
  have fails {u : Reader} (past : u.AdvancedFrom r (n + 1)) : u.AdvancedFrom r n := past.mono (Nat.le_succ n)
  unfold whole
  have inside (s : Reader) (past : s.AdvancedFrom r n) :
      program.run.Meets s fun result u => u.AdvancedFrom r (gain n result) := Meets.run (advances past)
  refine meets_lift_bind (session_meets (gain n) inside past) fun result u past => ?_
  obtain ⟨result, problems⟩ := result
  refine meets_ite (fun _ => ?_) fun _ => ?_
  · cases result with
    | ok value => exact meets_throw_bind (fails past)
    | error reason => exact meets_throw_bind past
  · cases result with
    | ok value => exact meets_pure past
    | error reason => exact meets_throw past

theorem object_advances : (object resolve).Advances := whole_advances anyObject_advances

theorem indirect_advances : (indirect resolve mode).Advances :=
  whole_advances headerAndObject_advances

end Parse
end PdfObjects
