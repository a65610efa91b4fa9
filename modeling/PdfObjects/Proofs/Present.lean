import PdfObjects.Proofs.AtHand

/-! Over a document at hand nothing is ever missing. A payload has been measured before it is read, by
a length that leaves room behind it or by a keyword that was found, so its bytes are there; and no
other step reports missing data unless a problem was met. -/
namespace PdfObjects

namespace Scan

variable {t : Resident}

theorem run_bytes (program : Scan α) (t : Resident) : (program.run t).2.bytes = t.bytes :=
  (program.run_continues t).bytes

/-- A tag of at least one byte that was found ends inside the document. -/
theorem agrees_inside {tag : Bytes} (nonempty : tag ≠ [])
    (found : ((agrees tag).run t).1 = some true) :
    ((agrees tag).run t).2.position ≤ t.bytes.length := by
  cases tag with
  | nil => exact absurd rfl nonempty
  | cons expected tag =>
    have step : next.run t = t.next := rfl
    cases seen : t.bytes[t.position]? with
    | none => simp [agrees, step, Resident.next, seen] at found
    | some b =>
      have inside := (List.getElem?_eq_some_iff.mp seen).1
      simp only [agrees, run_bind, step, Resident.next, seen] at found ⊢
      split
      · exact ((agrees tag).run_continues _).inside inside
      · exact inside

theorem findFrom_inside {tag : Bytes} (nonempty : tag ≠ []) (fuel : Nat) {here : Nat}
    (found : ((findFrom tag fuel).run t).1 = some here) :
    ((findFrom tag fuel).run t).2.position ≤ t.bytes.length := by
  induction fuel generalizing t with
  | zero => cases found
  | succ fuel ih =>
    have inside := agrees_inside (t := t) nonempty
    simp only [findFrom, run_bind, position_run] at found ⊢
    revert inside found
    cases tried : (agrees tag).run t with
    | mk result after =>
      have bytes : after.bytes = t.bytes := by rw [← run_bytes (agrees tag) t, tried]
      intro found inside
      match result with
      | none => cases found
      | some true => exact inside rfl
      | some false =>
        have later := ih (t := ((seek (t.position + 1)).run after).2) found
        rwa [run_bytes, bytes] at later

theorem findTag_inside {tag : Bytes} {distance : Nat} (found : ((findTag tag).run t).1 = some distance) :
    ((findTag tag).run t).2.position ≤ t.bytes.length := by
  cases tag with
  | nil => cases found
  | cons first tag =>
    obtain ⟨here, reached, _⟩ := Option.map_eq_some_iff.mp found
    exact findFrom_inside (by simp) _ reached

theorem findWordFrom_inside (word : Bytes) (limit fuel : Nat) {start : Nat}
    (found : ((findWordFrom word limit fuel).run t).1 = some start) : start ≤ t.bytes.length := by
  induction fuel generalizing t with
  | zero => cases found
  | succ fuel ih =>
    have inside distance (found : ((findTag word).run t).1 = some distance) := findTag_inside found
    simp only [findWordFrom, run_bind] at found
    revert inside found
    cases tried : (findTag word).run t with
    | mk result after =>
      have bytes : after.bytes = t.bytes := by rw [← run_bytes (findTag word) t, tried]
      intro found inside
      cases result with
      | none => cases found
      | some distance =>
        have bound := inside distance rfl
        simp only [run_bind, position_run] at found
        split at found
        · cases found
          exact Nat.le_trans (Nat.sub_le _ _) bound
        · have later := ih found
          rwa [run_bytes, bytes] at later

/-- A keyword is found inside the document. -/
theorem findWord_inside {word : Bytes} {start : Nat} (found : ((findWord word).run t).1 = some start) :
    start ≤ t.bytes.length :=
  findWordFrom_inside word _ _ found

theorem trim_inside {stop last : Nat} (found : ((payloadEnd.trim stop).run t).1 = some last) :
    last ≤ stop := by
  have bounded (pair single : Nat) (u : Resident) (reached : (if u.position ≤
        (if pair = 2 then stop - 2 else if single = 1 then stop - 1 else stop) then
        some (if pair = 2 then stop - 2 else if single = 1 then stop - 1 else stop) else none) =
      some last) : last ≤ stop := by
    obtain ⟨_, same⟩ := Option.ite_none_right_eq_some.mp reached
    cases same
    split
    · omega
    · split <;> omega
  simp only [payloadEnd.trim] at found
  split at found
  · rw [run_bind] at found
    split at found
    · exact bounded _ _ _ found
    · exact bounded _ _ _ found
  · rw [run_bind] at found
    split at found
    · exact bounded _ _ _ found
    · exact bounded _ _ _ found

/-- A payload whose length is not known ends inside the document. -/
theorem payloadEnd_inside {stop : Nat} (found : (payloadEnd.run t).1 = some stop) :
    stop ≤ t.bytes.length := by
  have first start (found : ((findWord Payload.endStream).run t).1 = some start) :=
    findWord_inside found
  have second start (found : ((findWord Payload.endObject).run
      ((findWord Payload.endStream).run t).2).1 = some start) := findWord_inside found
  rw [run_bytes] at second
  simp only [payloadEnd, run_bind] at found
  revert found first second
  cases ((findWord Payload.endStream).run t).1 with
  | none =>
    cases ((findWord Payload.endObject).run ((findWord Payload.endStream).run t).2).1 with
    | none => intro found; cases found
    | some object =>
      intro found first second
      exact Nat.le_trans (trim_inside found) (second object rfl)
  | some stream =>
    cases ((findWord Payload.endObject).run ((findWord Payload.endStream).run t).2).1 with
    | none =>
      intro found first second
      exact Nat.le_trans (trim_inside found) (first stream rfl)
    | some object =>
      intro found first second
      exact Nat.le_trans (trim_inside found) (Nat.le_trans (Nat.min_le_left _ _) (first stream rfl))

end Scan

namespace Parse

/-- A program that never ends with a certain error, over any document at hand. -/
def Avoids (error : Error) (program : Parse α) : Prop :=
  ∀ t : Resident, (program.run.run t).1 ≠ .error error

variable {error other : Error} {resolve : Resolver} {mode : Mode}

theorem avoids_pure (value : α) : (pure value : Parse α).Avoids error := fun _ same => by cases same

theorem avoids_throw (different : other ≠ error) : (throw other : Parse α).Avoids error :=
  fun _ same => different (Except.error.inj same)

theorem avoids_lift (program : Scan α) : (liftM program : Parse α).Avoids error :=
  fun _ same => by cases same

/-- It is enough that the rest avoids the error for the values that can reach it. -/
theorem avoids_bind {first : Parse α} {rest : α → Parse β} (avoids : first.Avoids error)
    (later : ∀ (t : Resident) value, (first.run.run t).1 = .ok value → (rest value).Avoids error) :
    (first >>= rest).Avoids error := by
  intro t
  have here := avoids t
  have next := later t
  rw [run_bind]
  revert here next
  cases first.run.run t with
  | mk result after =>
    cases result with
    | error reason => exact fun here _ same => here (by cases same; rfl)
    | ok value => exact fun _ next => next value rfl after

theorem avoids_ite {condition : Prop} [Decidable condition] {first second : Parse α}
    (left : first.Avoids error) (right : second.Avoids error) :
    (if condition then first else second).Avoids error := by
  split
  · exact left
  · exact right

/-- What follows an error is never reached. -/
theorem avoids_throw_bind {rest : α → Parse β} (different : other ≠ error) :
    (throw other >>= rest).Avoids error :=
  avoids_bind (avoids_throw different) fun _ _ reached => by cases reached

/-- An outcome is an error only if the program can end with it. -/
theorem avoids_outcome {program : Parse α} {rest : Except Error α → Parse β}
    (avoids : program.Avoids error) (done : ∀ value, (rest (.ok value)).Avoids error)
    (failed : ∀ reason, reason ≠ error → (rest (.error reason)).Avoids error) :
    (outcome program >>= rest).Avoids error := by
  refine avoids_bind (fun _ same => by cases same) ?_
  intro t result reached
  cases result with
  | ok value => exact done value
  | error reason =>
    refine failed reason fun same => avoids t ?_
    rw [← same]
    exact Except.ok.inj reached

/-- A payload at hand is skipped without fail. -/
theorem skipPayload_run (start length : Nat) (t : Resident) :
    ∃ after, (skipPayload start length).run.run t = (.ok (), after) := by
  unfold skipPayload
  split <;> exact ⟨_, rfl⟩

theorem searchedLength_inside {start length : Nat} {t : Resident}
    (found : ((searchedLength start).run.run t).1 = .ok length) :
    length = 0 ∨ start + length ≤ t.bytes.length := by
  have inside stop (found : (Scan.payloadEnd.run t).1 = some stop) := Scan.payloadEnd_inside found
  simp only [searchedLength, run_bind_lift] at found
  revert found inside
  cases (Scan.payloadEnd.run t).1 with
  | none => intro found; cases found
  | some stop =>
    intro found inside
    have bound := inside stop rfl
    obtain ⟨after, skipped⟩ := skipPayload_run start (stop - start) (Scan.payloadEnd.run t).2
    rw [run_bind_ok skipped] at found
    cases found
    omega

/-- The length of a payload never reaches past the end of the document. -/
theorem payloadLength_inside {start length : Nat} {declared : Option Nat} {t : Resident}
    (fits : ∀ length, declared = some length → length = 0 ∨ start + length ≤ t.bytes.length)
    (found : ((payloadLength start declared).run.run t).1 = .ok length) :
    length = 0 ∨ start + length ≤ t.bytes.length := by
  cases declared with
  | none => exact searchedLength_inside found
  | some known =>
    obtain ⟨after, skipped⟩ := skipPayload_run start known t
    have bytes : after.bytes = t.bytes := by
      rw [← Scan.run_bytes (skipPayload start known).run t, skipped]
    simp only [payloadLength] at found
    rw [run_bind_ok skipped, run_bind_lift] at found
    have clear : (Scan.endStreamFollows.run after).1.2 = false := rfl
    simp only [clear, Bool.false_eq_true, ↓reduceIte] at found
    split at found
    · cases found
      exact fits length rfl
    · rw [run_bind_lift] at found
      have inside := searchedLength_inside found
      rwa [Scan.run_bytes, Scan.run_bytes, bytes] at inside

theorem searchedLength_avoids (different : ∀ position, Error.streamEndNotFound position ≠ error) (start : Nat) :
    (searchedLength start).Avoids error := by
  unfold searchedLength
  refine avoids_bind (avoids_lift _) fun _ found _ => ?_
  cases found with
  | none => exact avoids_throw (different start)
  | some stop =>
    refine avoids_bind (fun t => ?_) fun _ _ _ => avoids_pure _
    obtain ⟨after, skipped⟩ := skipPayload_run start (stop - start) t
    rw [skipped]
    simp

theorem payloadLength_avoids (different : ∀ position, Error.streamEndNotFound position ≠ error) (start : Nat)
    (declared : Option Nat) : (payloadLength start declared).Avoids error := by
  cases declared with
  | none => exact searchedLength_avoids different start
  | some known =>
    intro t
    obtain ⟨after, skipped⟩ := skipPayload_run start known t
    have clear : (Scan.endStreamFollows.run after).1.2 = false := rfl
    simp only [payloadLength]
    rw [run_bind_ok skipped, run_bind_lift]
    simp only [clear, Bool.false_eq_true, ↓reduceIte]
    split
    · simp
    · rw [run_bind_lift]
      exact searchedLength_avoids different start _

theorem payloadBytes_run {start length : Nat} {t : Resident}
    (inside : length = 0 ∨ start + length ≤ t.bytes.length) :
    ∃ bytes, (payloadBytes start length).run.run t = (.ok bytes, t) := by
  unfold payloadBytes
  split
  · exact ⟨_, rfl⟩
  · rename_i nonempty
    have present := inside.resolve_left nonempty
    refine ⟨(t.bytes.drop start).take length, ?_⟩
    have read : (Scan.block start length).run t =
        (some ((t.bytes.drop start).take length), t) := by
      simp only [Scan.block, Scan.run_perform, Readable.perform, Resident.block, if_pos present]
    rw [run_bind_lift, read]
    rfl

/-- A payload at hand is there to its last byte, so that nothing can go wrong but that its end is not found. -/
theorem payload_avoids (different : ∀ position, Error.streamEndNotFound position ≠ error) (dict : Dictionary) :
    (payload dict resolve).Avoids error := by
  intro t
  simp only [payload, run_bind_lift, Scan.position_run]
  generalize opened : (Scan.nextLine.run t).2 = u
  have size : Scan.documentSize.run u = (u.bytes.length, u) := rfl
  simp only [size]
  have fits length (known : (Payload.declaredLength dict resolve).filter
      (Payload.fits u.position u.bytes.length) = some length) :
      length = 0 ∨ u.position + length ≤ u.bytes.length := by
    have room := (Option.filter_eq_some_iff.mp known).2
    simp only [Payload.fits, Bool.or_eq_true, decide_eq_true_eq] at room
    omega
  generalize (Payload.declaredLength dict resolve).filter _ = declared at fits ⊢
  have avoids := payloadLength_avoids different u.position declared u
  have inside length (found : ((payloadLength u.position declared).run.run u).1 = .ok length) :=
    payloadLength_inside fits found
  revert avoids inside
  rw [run_bind]
  cases ran : (payloadLength u.position declared).run.run u with
  | mk result after =>
    have bytes : after.bytes = u.bytes := by
      have kept := Scan.run_bytes (payloadLength u.position declared).run u
      rwa [ran] at kept
    cases result with
    | error reason => exact fun avoids _ same => avoids (by cases same; rfl)
    | ok length =>
      intro _ inside
      obtain ⟨found, read⟩ := payloadBytes_run (t := after) (bytes ▸ inside length rfl)
      simp only [run_bind_ok read, run_bind_lift, run_pure]
      simp

theorem numberOrReference_avoids
    (different : ∀ number generation position, Error.invalidReference number generation position ≠ error)
    (first : Bytes) : (numberOrReference first).Avoids error := by
  unfold numberOrReference
  refine avoids_bind (avoids_lift _) fun _ here _ => avoids_bind (avoids_lift _) fun _ tail _ => ?_
  cases tail with
  | none => exact avoids_pure _
  | some generation =>
    dsimp only
    split
    · exact avoids_throw (different _ _ _)
    · exact avoids_pure _

variable {element value : Parse Object}

theorem elements_avoids (avoids : element.Avoids error) (fuel : Nat) (taken : List Object) :
    (elements element fuel taken).Avoids error := by
  induction fuel generalizing taken with
  | zero => exact avoids_pure _
  | succ fuel ih =>
    refine avoids_outcome avoids (fun object => ih _) fun reason different => ?_
    dsimp only
    split
    · exact avoids_throw different
    · exact avoids_pure _

theorem array_avoids (avoids : element.Avoids .dataUnavailable) :
    (array element mode).Avoids .dataUnavailable := by
  unfold array
  refine avoids_bind (avoids_lift _) fun _ left _ =>
    avoids_bind (elements_avoids avoids _ _) fun _ objects _ =>
      avoids_bind (avoids_lift _) fun _ last _ => ?_
  split
  · exact avoids_pure _
  · exact avoids_bind (avoids_lift _) fun _ here _ => avoids_throw (by simp)

theorem entries_avoids (avoids : value.Avoids .dataUnavailable) (fuel : Nat) (dict : Dictionary) :
    (entries value mode fuel dict).Avoids .dataUnavailable := by
  induction fuel generalizing dict with
  | zero => exact avoids_bind (avoids_lift _) fun _ here _ => avoids_throw (by simp)
  | succ fuel ih =>
    unfold entries
    refine avoids_bind (avoids_lift _) fun _ word _ => avoids_bind (avoids_lift _) fun _ here _ => ?_
    refine avoids_ite (avoids_throw_bind (by simp)) ?_
    dsimp only
    cases KeyWord.ofWord word.bytes with
    | close => exact avoids_pure _
    | endObject => exact avoids_bind (avoids_lift _) fun _ _ _ => avoids_pure _
    | other => exact ih dict
    | key name =>
      dsimp only
      refine avoids_ite (avoids_bind (avoids_lift _) fun _ _ _ => avoids_throw_bind (by simp)) ?_
      refine avoids_outcome avoids (fun object => ih _) fun reason different => ?_
      dsimp only
      split
      · exact avoids_throw different
      · split
        · exact ih dict
        · exact avoids_bind (avoids_lift _) fun _ _ _ => avoids_throw different

theorem dictionary_avoids (avoids : value.Avoids .dataUnavailable) :
    (dictionary value resolve mode).Avoids .dataUnavailable := by
  unfold dictionary
  refine avoids_bind (avoids_lift _) fun _ left _ =>
    avoids_bind (entries_avoids avoids _ _) fun _ dict _ =>
      avoids_bind (avoids_lift _) fun _ stream _ => ?_
  split
  · exact avoids_bind (payload_avoids (by simp) dict) fun _ bytes _ => avoids_pure _
  · exact avoids_pure _

theorem rewinding_avoids (start : Nat) (avoids : value.Avoids error) :
    (rewinding start value).Avoids error := by
  refine avoids_outcome avoids (fun object => avoids_pure _) fun reason different => ?_
  dsimp only
  split
  · exact avoids_bind (avoids_lift _) fun _ _ _ => avoids_throw different
  · exact avoids_throw different

/-- An object at hand, of whatever kind, is never reported missing. -/
theorem body_avoids (levels : Nat) (mode : Mode) :
    (body resolve levels mode).Avoids .dataUnavailable := by
  induction levels generalizing mode with
  | zero => exact avoids_bind (avoids_lift _) fun _ settings _ => avoids_throw (by simp)
  | succ levels ih =>
    unfold body announced
    refine avoids_bind (avoids_lift _) fun _ start _ => avoids_bind (avoids_lift _) fun _ word _ => ?_
    refine avoids_ite
      (avoids_bind (avoids_lift _) fun _ here _ => avoids_throw_bind (by simp)) ?_
    refine avoids_ite (numberOrReference_avoids (by simp) _) ?_
    cases Lead.ofWord word.bytes with
    | whole object => exact avoids_pure _
    | literalString => exact avoids_bind (avoids_lift _) fun _ bytes _ => avoids_pure _
    | hexString => exact avoids_bind (avoids_lift _) fun _ bytes _ => avoids_pure _
    | array => exact rewinding_avoids start (array_avoids (ih .loose))
    | dictionary => exact rewinding_avoids start (dictionary_avoids (ih .loose))
    | dictionaryEnd => exact avoids_bind (avoids_lift _) fun _ _ _ => avoids_throw (by simp)
    | nothing => exact avoids_throw (by simp)

theorem anyObject_avoids (mode : Mode) : (anyObject resolve mode).Avoids .dataUnavailable := by
  intro t
  rw [anyObject_run]
  exact body_avoids _ mode t

theorem headerNumber_avoids (start : Nat) (fault : SyntaxFault) :
    (headerNumber start fault).Avoids .dataUnavailable := by
  unfold headerNumber
  refine avoids_bind (avoids_lift _) fun _ word _ => ?_
  split
  · exact avoids_pure _
  · exact avoids_bind (avoids_lift _) fun _ _ _ => avoids_throw (by simp)

/-- Nor is an indirect object. -/
theorem headerAndObject_avoids (mode : Mode) :
    (headerAndObject resolve mode).Avoids .dataUnavailable := by
  unfold headerAndObject
  refine avoids_bind (avoids_lift _) fun _ start _ =>
    avoids_bind (headerNumber_avoids start _) fun _ number _ =>
      avoids_bind (headerNumber_avoids start _) fun _ generation _ =>
        avoids_bind (avoids_lift _) fun _ keyword _ => ?_
  exact avoids_ite (avoids_bind (avoids_lift _) fun _ _ _ => avoids_throw_bind (by simp))
    (avoids_bind (anyObject_avoids mode) fun _ object _ => avoids_pure _)

end Parse
end PdfObjects
