import PdfObjects.Proofs.Rewinding

/-! Arrays that are read strictly. Their elements end where one of them fails, and the array is accepted if
the word that was read last starts with the closing bracket. Mostly that is the word at which the element
failed. But a stream that has no end fails too, back at the start of its payload, and before that it may have
looked at the word behind its declared length: if that word is a bracket, the array is accepted although
nothing has closed it. There is no other way. -/
namespace PdfObjects

namespace Lexis

variable {text : Bytes} {limit place : Nat}

/-- The first byte of a word is where the word starts. -/
theorem word_head (positive : 0 < limit) :
    (word limit (text.drop place)).bytes.head? = text[nextWord text place]? := by
  rw [word, Word.ofLexeme, List.head?_take, if_neg (Nat.ne_of_gt positive), lexeme_head, List.drop_drop,
    List.head?_drop]
  rfl

/-- A closing bracket is a word of its own. -/
theorem lexeme_bracket (bracket : text[nextWord text place]? = some Byte.closeBracket) :
    lexeme (text.drop (nextWord text place)) = [Byte.closeBracket] := by
  obtain ⟨inside, here⟩ := List.getElem?_eq_some_iff.mp bracket
  rw [List.drop_eq_getElem_cons inside, here]
  rfl

end Lexis

namespace Reader
open Lexis (nextWord)

variable {text : Bytes} {t : Reader} {s : Resident}

/-- The bytes at hand, in place of a reader of them: whatever is run, the same comes of it, the word that was
read last included. -/
structure Shown (text : Bytes) (t : Reader) (s : Resident) : Prop where
  stands : s.Stands (text.drop t.position)
  bytes : s.bytes = text
  position : s.position = t.position
  limits : s.limits = t.limits
  lastWord : s.lastWord = t.lastWord
  run : ∀ (α : Type) (program : Scan α), (program.run s).1 = (program.run t).1 ∧
    (program.run s).2.position = (program.run t).2.position ∧
    (program.run s).2.lastWord = (program.run t).2.lastWord

theorem Covers.shown (covers : t.Covers text) : ∃ s, Shown text t s := by
  obtain ⟨document, whole, rfl⟩ := covers.whole
  have inside := covers.inside
  rw [whole.faithful.size] at inside
  refine ⟨(t.mirror document).unrecorded, ⟨⟨rfl, rfl⟩, inside⟩, rfl, rfl, rfl, rfl, fun α program => ?_⟩
  have last := (whole.resident_run (program >>= fun _ => Scan.lastWord)).1
  exact ⟨(whole.resident_run program).1, (whole.resident_run program).2, last⟩

/-- A word that is read is the last one. -/
theorem Covers.word_last (covers : t.Covers text) :
    (Scan.word.run t).2.lastWord = (Scan.word.run t).1.bytes := by
  obtain ⟨s, shown⟩ := covers.shown
  obtain ⟨same, _, last⟩ := shown.run _ Scan.word
  rw [← same, ← last, Scan.word_run shown.stands.toHasAhead]
  rfl

theorem Covers.word_head (covers : t.Covers text) :
    (Scan.word.run t).1.bytes.head? = text[nextWord text t.position]? := by
  rw [covers.word.1, Lexis.word_head]
  exact Nat.lt_of_lt_of_le (by decide) (Nat.le_max_right _ _)

/-- A closing bracket is read as one, and the cursor is behind it. -/
theorem Covers.word_bracket (covers : t.Covers text)
    (bracket : text[nextWord text t.position]? = some Byte.closeBracket) :
    (Scan.word.run t).1 = ⟨[Byte.closeBracket], false⟩ ∧
      (Scan.word.run t).2.position = nextWord text t.position + 1 :=
  covers.word_eq (by decide) ((covers.word_iff (by decide)).mpr (Lexis.lexeme_bracket bracket))

end Reader

namespace Payload

/-- The payload of a stream starts at a place, and has no end. But the dictionary declares a length that
leaves room for a keyword, and the word behind it is a closing bracket. -/
structure Misleads (dict : Dictionary) (resolve : Resolver) (text : Bytes) (place : Nat) : Prop where
  declares : ∃ length, declaredLength dict resolve = some length ∧ fits place text.length length = true ∧
    text[Lexis.nextWord text (place + length)]? = some Byte.closeBracket
  endless : Endless text place

variable {dict : Dictionary} {resolve : Resolver} {text : Bytes} {place : Nat}

/-- Behind the end of a text no keyword stands. -/
theorem stop_inside (stop : Scan.isStop text place = true) : place < text.length := by
  obtain ⟨keyword, rest, terminal, same, _⟩ := stop_keyword stop
  obtain ⟨letters, starts⟩ := keyword_cons terminal rest
  by_contra outside
  rw [List.drop_eq_nil_of_le (Nat.le_of_not_lt outside), starts] at same
  cases same

/-- So whether a payload has an end can be found out. -/
theorem endless_iff {start : Nat} : Endless text start ↔ Scan.isStop text start = true ∨
    ∀ place < text.length, start ≤ place → Scan.isStop text place = false := by
  refine or_congr_right ⟨fun none place _ behind => none place behind, fun none place behind => ?_⟩
  by_contra stop
  rw [Bool.not_eq_false] at stop
  cases stop.symm.trans (none place (stop_inside stop) behind)

instance (text : Bytes) (start : Nat) : Decidable (Endless text start) := decidable_of_iff' _ endless_iff

/-- The keyword that ends a stream is no bracket. -/
theorem Misleads.doubted (misleads : Misleads dict resolve text place) :
    Doubted dict resolve (text.drop place) := by
  obtain ⟨length, declared, _, bracket⟩ := misleads.declares
  intro content gap rest trusted
  obtain rfl : content.length = length := Option.some.inj (trusted.declared.symm.trans declared)
  have behind : text.drop (place + content.length) = gap ++ (endStream ++ rest) := by
    rw [← List.drop_drop, trusted.split, List.drop_left]
  have starts : Lexis.skipped false (endStream ++ rest) = 0 := rfl
  rw [Lexis.nextWord, behind, Lexis.skipped_isGap trusted.closed, starts, Nat.add_zero, ← List.head?_drop,
    ← List.drop_drop, behind, List.drop_left] at bracket
  cases bracket

end Payload

namespace Parse
open Scan (Finishes Reaches)
open Lexis (nextWord)

/-- Where the payload of a stream starts whose keyword is looked for at `v`: behind the line of the keyword. -/
def payloadStart (text : Bytes) (v : Reader) : Nat :=
  let behind := ((Scan.accept streamKeyword).run v).2.position
  behind + Lexis.lineLength (text.drop behind)

/-- How the elements of an array come to an end that strict reading accepts: the next one is looked for at
`w`, where so many levels are left to it, and the cursor is left at a place. -/
inductive ArrayEnd (resolve : Resolver) (text : Bytes) : (levels : Nat) → (w : Reader) → (place : Nat) → Prop
  | closed (bracket : text[nextWord text w.position]? = some Byte.closeBracket) :
    ArrayEnd resolve text (levels + 1) w (nextWord text w.position + 1)
  | misled (opens : (Scan.word.run w).1.bytes = [Byte.less, Byte.less])
      (read : Finishes (entryRound (body resolve levels .loose) .loose) [] (Scan.word.run w).2 (.ok dict) v)
      (keyword : ((Scan.accept streamKeyword).run v).1 = true)
      (misleads : Payload.Misleads dict resolve text (payloadStart text v)) :
    ArrayEnd resolve text (levels + 1) w (payloadStart text v)

variable {resolve : Resolver} {levels : Nat} {mode : Mode} {t u w last : Reader} {dict : Dictionary}
  {objects : List Object} {text : Bytes} {e : Error} {place : Nat}

/-- What applies is not put back. -/
theorem attempt_taken {body : Scan (Option α)} {value : α}
    (found : ((Scan.attempt body).run t).1 = some value) :
    (body.run t).1 = some value ∧ ((Scan.attempt body).run t).2 = (body.run t).2 := by
  have here : Scan.position.run t = (t.position, t) := rfl
  simp only [Scan.attempt, Scan.run_bind, here] at found ⊢
  cases result : (body.run t).1 with
  | none =>
    rw [result] at found
    cases found
  | some other =>
    rw [result] at found
    exact ⟨found, rfl⟩

/-- The letter of a reference is the last word read. -/
theorem referenceTail_last (covers : t.Covers text) {generation : Nat}
    (found : (Scan.referenceTail.run t).1 = some generation) :
    (Scan.referenceTail.run t).2.lastWord = Bytes.ofAscii ['R'] := by
  obtain ⟨read, same⟩ := attempt_taken found
  rw [Scan.referenceTail, same]
  have second := (covers.run Scan.word).word_last
  simp only [Scan.run_bind] at read ⊢
  by_cases number : (!(Scan.word.run t).1.isNumber) = true
  · rw [if_pos number] at read
    cases read
  · rw [if_neg number] at read ⊢
    simp only [Scan.run_bind, Scan.run_pure] at read ⊢
    rw [second]
    exact (Option.ite_none_right_eq_some.mp read).1

/-- A keyword that is accepted is the last word read. -/
theorem accept_last (covers : t.Covers text) {keyword : Bytes}
    (found : ((Scan.accept keyword).run t).1 = true) :
    ((Scan.accept keyword).run t).2.lastWord = keyword := by
  simp only [Scan.accept, Scan.run_bind, Scan.run_pure] at found ⊢
  obtain ⟨_, taken⟩ := Option.isSome_iff_exists.mp found
  obtain ⟨read, same⟩ := attempt_taken taken
  rw [same]
  simp only [Scan.run_bind, Scan.run_pure] at read ⊢
  rw [covers.word_last]
  exact (Option.ite_none_right_eq_some.mp read).1

/-- A reference to an impossible number has been read up to its letter. -/
theorem numberOrReference_last {first : Bytes} (covers : t.Covers text)
    (failed : ((numberOrReference first).run.run t).1 = .error e) :
    ((numberOrReference first).run.run t).2.lastWord = Bytes.ofAscii ['R'] := by
  have here : Scan.position.run t = (t.position, t) := rfl
  have letter : ∀ generation, (Scan.referenceTail.run t).1 = some generation →
      (Scan.referenceTail.run t).2.lastWord = Bytes.ofAscii ['R'] := fun _ => referenceTail_last covers
  rw [numberOrReference, run_bind_lift, here, run_bind_lift] at failed ⊢
  generalize Scan.referenceTail.run t = tail at letter failed ⊢
  obtain ⟨found, last⟩ := tail
  cases found with
  | none => cases failed
  | some generation =>
    dsimp only at failed ⊢
    by_cases impossible : Numeral.saturating first = 0 ∨ Numeral.saturating first = Numeral.maxUnsigned
    · rw [if_pos impossible, run_throw]
      exact letter generation rfl
    · rw [if_neg impossible] at failed
      cases failed

/-- A payload of which no end is found leaves the cursor at its start, and the word behind its length as the
last one. -/
theorem payload_fails (covers : t.Covers text) {start : Nat}
    (starts : start = t.position + Lexis.lineLength (text.drop t.position))
    (doubted : Payload.Doubted dict resolve (text.drop start)) (endless : Payload.Endless text start) :
    ∃ last, (payload dict resolve).run.run t = (.error (.streamEndNotFound start), last) ∧
      last.position = start ∧ last.lastWord =
        match (Payload.declaredLength dict resolve).filter (Payload.fits start text.length) with
        | none => t.lastWord
        | some length => (Lexis.word t.limits.wordLength (text.drop (start + length))).bytes := by
  obtain ⟨s, shown⟩ := covers.shown
  have wide : 16 ≤ s.limits.wordLength := shown.limits ▸ Nat.le_max_right _ _
  have here : s.position + Lexis.lineLength (text.drop t.position) = start := by rw [shown.position, starts]
  rw [starts, ← List.drop_drop] at doubted
  have ran := payload_endless shown.stands wide doubted (by rw [shown.bytes, here]; exact endless)
  rw [here] at ran
  obtain ⟨same, place, word⟩ := shown.run _ (payload dict resolve).run
  rw [ran] at same place word
  refine ⟨_, Prod.ext same.symm rfl, place.symm.trans here, ?_⟩
  have moved : (s.move (Lexis.lineLength (text.drop t.position))).position = start := here
  have bytes : (s.move (Lexis.lineLength (text.drop t.position))).bytes = text := shown.bytes
  have kept : (s.move (Lexis.lineLength (text.drop t.position))).lastWord = t.lastWord := shown.lastWord
  rw [← word, Resident.keep_lastWord, checkedWord, moved, bytes]
  cases (Payload.declaredLength dict resolve).filter (Payload.fits start text.length) with
  | none => exact kept
  | some length =>
    dsimp only
    rw [Resident.move_limits, shown.limits]

/-- A payload is read, or no end of it is found. -/
theorem payload_cases (covers : t.Covers text) (dict : Dictionary) (resolve : Resolver) {start : Nat}
    (starts : start = t.position + Lexis.lineLength (text.drop t.position)) :
    (∃ content, ((payload dict resolve).run.run t).1 = .ok content) ∨
      Payload.Doubted dict resolve (text.drop start) ∧ Payload.Endless text start := by
  obtain ⟨s, shown⟩ := covers.shown
  have wide : 16 ≤ s.limits.wordLength := shown.limits ▸ Nat.le_max_right _ _
  have here : s.position + Lexis.lineLength (text.drop t.position) = start := by rw [shown.position, starts]
  have split : text.drop start = (text.drop t.position).drop (Lexis.lineLength (text.drop t.position)) := by
    rw [List.drop_drop, starts]
  have same := (shown.run _ (payload dict resolve).run).1
  rcases Payload.terminated_or_endless dict resolve text start with ⟨content, _, _, _, ended⟩ | endless
  · refine .inl ⟨content, same.symm.trans ?_⟩
    cases ended with
    | trusted trusted =>
      rw [split] at trusted
      obtain ⟨kept, ran⟩ := payload_trusted shown.stands wide trusted
      rw [ran]
    | searched doubted searched =>
      rw [split] at doubted
      obtain ⟨kept, ran⟩ := payload_searched shown.stands wide doubted
        (by rw [shown.bytes, here]; exact searched)
      rw [ran]
  · exact .inr endless

/-- What fails with a bracket as the last word, not because nesting is too deep, and leaves the cursor at a
place. -/
def FailsAtBracket (place : Nat) (ended : Except Error α × Reader) : Prop :=
  (∃ e, ended.1 = .error e ∧ e.isNestingLimit = false) ∧
    ended.2.lastWord.head? = some Byte.closeBracket ∧ ended.2.position = place

/-- A stream fails in this way only if the word behind its length misleads. -/
theorem opened_fails_iff (covers : t.Covers text) :
    FailsAtBracket place ((opened resolve dict).run.run t) ↔
      ((Scan.accept streamKeyword).run t).1 = true ∧ place = payloadStart text t ∧
        Payload.Misleads dict resolve text (payloadStart text t) := by
  have after := covers.run (Scan.accept streamKeyword)
  have positive : 0 < ((Scan.accept streamKeyword).run t).2.limits.wordLength :=
    Nat.lt_of_lt_of_le (by decide) (Nat.le_max_right _ _)
  rw [opened, run_bind_lift]
  cases found : ((Scan.accept streamKeyword).run t).1 with
  | false =>
    constructor
    · rintro ⟨⟨_, ⟨⟩, _⟩, _⟩
    · rintro ⟨⟨⟩, _⟩
  | true =>
    have keyword := accept_last covers found
    have start : payloadStart text t = ((Scan.accept streamKeyword).run t).2.position +
      Lexis.lineLength (text.drop ((Scan.accept streamKeyword).run t).2.position) := rfl
    rw [if_pos rfl]
    constructor
    · rintro ⟨⟨e, failed, _⟩, bracket, there⟩
      rcases payload_cases after dict resolve start with ⟨content, read⟩ | ⟨doubted, endless⟩
      · rw [run_bind_ok (Prod.ext read rfl)] at failed
        cases failed
      · obtain ⟨last, ran, starts, word⟩ := payload_fails after start doubted endless
        rw [run_bind_error ran] at bracket there
        refine ⟨rfl, there.symm.trans starts, ?_, endless⟩
        cases declared : (Payload.declaredLength dict resolve).filter
            (Payload.fits (payloadStart text t) text.length) with
        | none =>
          rw [declared] at word
          rw [word, keyword] at bracket
          cases bracket
        | some length =>
          rw [declared] at word
          rw [word, Lexis.word_head positive] at bracket
          obtain ⟨known, fits⟩ := Option.filter_eq_some_iff.mp declared
          exact ⟨length, known, fits, bracket⟩
    · rintro ⟨_, there, misleads⟩
      obtain ⟨last, ran, starts, word⟩ := payload_fails after start misleads.doubted misleads.endless
      obtain ⟨length, declared, fits, bracket⟩ := misleads.declares
      rw [run_bind_error ran]
      refine ⟨⟨_, rfl, rfl⟩, ?_, starts.trans there.symm⟩
      rw [Option.filter_eq_some_iff.mpr ⟨declared, fits⟩] at word
      rw [word, Lexis.word_head positive, bracket]

/-- Going back has nothing to do with it. -/
theorem rewinding_fails_iff {program : Parse Object} {start : Nat} :
    FailsAtBracket place ((rewinding start program).run.run t) ↔ FailsAtBracket place (program.run.run t) := by
  rw [rewinding, run_bind_outcome]
  cases program.run.run t with
  | mk result last =>
    cases result with
    | ok object => rfl
    | error e =>
      dsimp only
      by_cases deep : e.isNestingLimit = true
      · have never (u : Reader) : ¬ FailsAtBracket place ((.error e, u) : Except Error Object × Reader) := by
          rintro ⟨⟨_, ⟨⟩, flat⟩, _⟩
          cases flat.symm.trans deep
        rw [if_pos deep]
        exact iff_of_false (never _) (never _)
      · rw [if_neg deep]
        rfl

/-- A dictionary fails in this way only behind its entries: at the end of the document there is no word. -/
theorem body_dictionary_fails_iff (covers : w.Covers text)
    (opens : (Scan.word.run w).1.bytes = [Byte.less, Byte.less]) :
    FailsAtBracket place ((body resolve (levels + 1) .loose).run.run w) ↔
      ∃ dict v, Finishes (entryRound (body resolve levels .loose) .loose) [] (Scan.word.run w).2 (.ok dict) v ∧
        FailsAtBracket place ((opened resolve dict).run.run v) := by
  have start := covers.run Scan.word
  have advances : (body resolve levels .loose).Advances := body_advances levels .loose
  rw [body_dictionary covers opens, rewinding_fails_iff]
  constructor
  · have rounds := entries_finishes advances .loose [] start.inside
    cases ran : (entries (body resolve levels .loose) .loose
        ((Scan.word.run w).2.size - (Scan.word.run w).2.position + 1) []).run.run (Scan.word.run w).2 with
    | mk result v =>
      rw [ran] at rounds
      rw [dictionary_rounds advances start.inside rounds]
      obtain ⟨held, u, taken, ends⟩ := rounds.reaches
      have here := taken.preserves (fun _ _ covers => covers.run _) start
      cases result with
      | ok dict => exact fun fails => ⟨dict, v, rounds, fails⟩
      | error e =>
        rintro ⟨⟨_, ⟨⟩, flat⟩, bracket, _⟩
        rcases entryRound_error ends with ⟨empty, _, same⟩ | ⟨_, _, deep, _⟩
        · dsimp only at same bracket
          rw [same, here.word_last, List.isEmpty_iff.mp empty] at bracket
          cases bracket
        · cases flat.symm.trans deep
  · rintro ⟨dict, v, finishes, fails⟩
    rw [dictionary_rounds advances start.inside finishes]
    exact fails

/-- No object starts with a closing bracket. -/
theorem body_bracket (covers : t.Covers text) (found : (Scan.word.run t).1.bytes = [Byte.closeBracket]) :
    (body resolve (levels + 1) mode).run.run t =
      (.error (.unexpectedWord t.position [Byte.closeBracket]), (Scan.word.run t).2) := by
  have here : Scan.position.run t = (t.position, t) := rfl
  rw [body, announced, run_bind_lift, here, run_bind_lift, (covers.word_eq (by decide) found).1]
  rfl

/-- What is no dictionary fails in this way only with a bracket as its first word. -/
theorem body_other_fails_iff (covers : w.Covers text)
    (other : (Scan.word.run w).1.bytes ≠ [Byte.less, Byte.less]) :
    FailsAtBracket place ((body resolve (levels + 1) .loose).run.run w) ↔
      text[nextWord text w.position]? = some Byte.closeBracket ∧ place = nextWord text w.position + 1 := by
  by_cases bracket : text[nextWord text w.position]? = some Byte.closeBracket
  · obtain ⟨word, behind⟩ := covers.word_bracket bracket
    rw [body_bracket covers (congrArg Word.bytes word), FailsAtBracket, covers.word_last, behind, word]
    constructor
    · rintro ⟨_, _, there⟩
      exact ⟨bracket, there.symm⟩
    · rintro ⟨_, there⟩
      exact ⟨⟨_, rfl, rfl⟩, rfl, there.symm⟩
  · refine iff_of_false ?_ fun both => bracket both.1
    rw [← covers.word_head, ← covers.word_last] at bracket
    by_cases array : (Scan.word.run w).1.bytes = [Byte.openBracket]
    · rintro ⟨⟨e, failed, flat⟩, _⟩
      obtain ⟨_, _, _, _, deep⟩ := body_array_error covers array failed
      cases flat.symm.trans deep
    · have childless : Childless w ((body resolve (levels + 1) .loose).run.run w) :=
        body_childless array other
      generalize (body resolve (levels + 1) .loose).run.run w = ended at childless ⊢
      cases childless with
      | reads plain => rintro ⟨⟨_, ⟨⟩, _⟩, _⟩
      | refers failed =>
        rintro ⟨_, letter, _⟩
        have read := numberOrReference_last (covers.run Scan.word) (congrArg Prod.fst failed)
        rw [failed] at read
        rw [read] at letter
        cases letter
      | refuses flat word =>
        rw [← word] at bracket
        exact fun fails => bracket fails.2.1

/-- An element fails in this way where the array is closed, or at a stream that misleads. -/
theorem body_fails_iff (covers : w.Covers text) :
    FailsAtBracket place ((body resolve levels .loose).run.run w) ↔ ArrayEnd resolve text levels w place := by
  cases levels with
  | zero =>
    constructor
    · rintro ⟨⟨_, ⟨⟩, ⟨⟩⟩, _⟩
    · rintro ⟨⟩
  | succ levels =>
    by_cases dictionary : (Scan.word.run w).1.bytes = [Byte.less, Byte.less]
    · rw [body_dictionary_fails_iff covers dictionary]
      constructor
      · rintro ⟨dict, v, read, fails⟩
        have after := read.preserves (fun _ _ covers => covers.run _) (covers.run Scan.word)
        obtain ⟨keyword, there, misleads⟩ := (opened_fails_iff after).mp fails
        rw [there]
        exact .misled dictionary read keyword misleads
      · intro ends
        cases ends with
        | closed bracket =>
          rw [← covers.word_head, dictionary] at bracket
          cases bracket
        | misled _ read keyword misleads =>
          have after := read.preserves (fun _ _ covers => covers.run _) (covers.run Scan.word)
          exact ⟨_, _, read, (opened_fails_iff after).mpr ⟨keyword, rfl, misleads⟩⟩
    · rw [body_other_fails_iff covers dictionary]
      constructor
      · rintro ⟨bracket, rfl⟩
        exact .closed bracket
      · intro ends
        cases ends with
        | closed bracket => exact ⟨bracket, rfl⟩
        | misled opens => exact absurd opens dictionary

/-- A dictionary, or a stream, is no array. -/
theorem opened_plain {o : Object} (ran : ((opened resolve dict).run.run t).1 = .ok o) : o.asArray = none := by
  rw [opened, run_bind_lift] at ran
  split at ran
  · rw [run_bind] at ran
    split at ran <;> cases ran
    rfl
  · cases ran
    rfl

/-- Only what starts with a bracket is read as an array. -/
theorem body_array_opens (covers : t.Covers text)
    (ran : ((body resolve (levels + 1) mode).run.run t).1 = .ok (.array objects)) :
    (Scan.word.run t).1.bytes = [Byte.openBracket] := by
  by_contra array
  by_cases angles : (Scan.word.run t).1.bytes = [Byte.less, Byte.less]
  · rw [body_dictionary covers angles, rewinding_outcome, dictionary, run_bind_lift, run_bind] at ran
    split at ran
    · rename_i dict after _
      change ((opened resolve dict).run.run after).1 = _ at ran
      cases opened_plain ran
    · cases ran
  · have childless : Childless t ((body resolve (levels + 1) mode).run.run t) :=
      body_childless array angles
    generalize (body resolve (levels + 1) mode).run.run t = ended at childless ran
    cases childless with
    | reads plain =>
      cases ran
      cases plain
    | refers failed => cases ran
    | refuses flat word => cases ran

/-- An array that is read has come to the end of its elements, and the last word is good enough. -/
theorem array_closed {element : Parse Object} (advances : element.Advances) (inside : t.position ≤ t.size)
    (ran : (array element mode).run.run t = (.ok (.array objects), last)) :
    Finishes (elementRound element) [] t (.ok objects) last ∧
      (mode = .loose ∨ last.lastWord.head? = some Byte.closeBracket) := by
  have rounds := elements_finishes advances [] inside
  have left : Scan.remaining.run t = (t.size - t.position, t) := rfl
  cases read : (elements element (t.size - t.position + 1) []).run.run t with
  | mk result v =>
    rw [read] at rounds
    cases result with
    | ok found =>
      rw [array_ends advances inside rounds] at ran
      split at ran
      · rename_i good
        cases ran
        exact ⟨rounds, good⟩
      · cases ran
    | error e =>
      rw [array, run_bind_lift, left, run_bind_error read] at ran
      cases ran

/-- A round that ends an array without an error has met an element that fails for another reason. -/
theorem elementRound_ends {element : Parse Object} {taken : List Object}
    (ran : (elementRound element taken).run t = (.done (.ok objects), last)) :
    objects = taken.reverse ∧ ∃ e, element.run.run t = (.error e, last) ∧ e.isNestingLimit = false := by
  rw [elementRound_run] at ran
  cases read : element.run.run t with
  | mk result after =>
    rw [read] at ran
    cases result with
    | ok object => cases ran
    | error e =>
      rw [afterElement] at ran
      by_cases deep : e.isNestingLimit = true
      · rw [if_pos deep] at ran
        cases ran
      · rw [if_neg deep] at ran
        cases ran
        exact ⟨rfl, e, rfl, Bool.eq_false_iff.mpr deep⟩

/-- What is read strictly as an array. -/
theorem body_strict_array_iff (covers : t.Covers text) :
    (((body resolve levels .strict).run.run t).1 = .ok (.array objects) ∧
        ((body resolve levels .strict).run.run t).2.position = place) ↔
      ∃ w, InArray resolve levels t objects.reverse w ∧ ArrayEnd resolve text (levels - 1) w place := by
  cases levels with
  | zero =>
    constructor
    · rintro ⟨⟨⟩, _⟩
    · rintro ⟨_, _, ⟨⟩⟩
  | succ levels =>
    have start := covers.run Scan.word
    have advances : (body resolve levels .loose).Advances := body_advances levels .loose
    constructor
    · rintro ⟨read, there⟩
      have opens := body_array_opens covers read
      rw [body_array covers opens] at read there
      cases ran : (array (body resolve levels .loose) .strict).run.run (Scan.word.run t).2 with
      | mk result last =>
        rw [rewinding_outcome, ran] at read
        cases read
        rw [rewinding_ok ran] at there
        obtain ⟨rounds, closed⟩ := array_closed advances start.inside ran
        obtain ⟨taken, w, reaches, ends⟩ := rounds.reaches
        obtain ⟨rfl, e, failed, flat⟩ := elementRound_ends ends
        rw [List.reverse_reverse]
        have inside : InArray resolve (levels + 1) t taken w := ⟨opens, reaches⟩
        refine ⟨w, inside, (body_fails_iff (inside.covers covers)).mp ?_⟩
        rw [Nat.add_sub_cancel, failed]
        exact ⟨⟨e, rfl, flat⟩, closed.resolve_left nofun, there⟩
    · rintro ⟨w, inside, ends⟩
      obtain ⟨⟨e, failed, flat⟩, bracket, there⟩ := (body_fails_iff (inside.covers covers)).mpr ends
      have rounds := inside.finishes (Prod.ext failed rfl)
      rw [if_neg (Bool.eq_false_iff.mp flat), List.reverse_reverse] at rounds
      have read : (array (body resolve levels .loose) .strict).run.run (Scan.word.run t).2 = _ :=
        array_ends advances start.inside rounds
      rw [if_pos (.inr bracket)] at read
      rw [body_array covers inside.opens, rewinding_ok read]
      exact ⟨rfl, there⟩

/-- An indirect object is an array if the heading is right and an array stands behind it. -/
theorem headerAndObject_array (covers : t.Covers text) :
    (∃ i, ((headerAndObject resolve mode).run.run t).1 = .ok i ∧ i.object = .array objects) ∧
        ((headerAndObject resolve mode).run.run t).2.position = place ↔
      (Lexis.heading t.limits.wordLength (text.drop t.position)).fault t.position = none ∧
        ((anyObject resolve mode).run.run
          (t.seek (t.position + Lexis.headingReach (text.drop t.position)))).1 = .ok (.array objects) ∧
        ((anyObject resolve mode).run.run
          (t.seek (t.position + Lexis.headingReach (text.drop t.position)))).2.position = place := by
  have ran := headerAndObject_cases covers resolve mode
  cases fault : (Lexis.heading t.limits.wordLength (text.drop t.position)).fault t.position with
  | some e =>
    rw [fault] at ran
    rw [ran.1]
    refine iff_of_false ?_ nofun
    rintro ⟨⟨_, ⟨⟩, _⟩, _⟩
  | none =>
    rw [fault] at ran
    rw [ran.1, ran.2]
    refine Iff.trans (and_congr_left fun _ => ?_) (and_iff_right rfl).symm
    cases ((anyObject resolve mode).run.run
      (t.seek (t.position + Lexis.headingReach (text.drop t.position)))).1 with
    | error e => exact iff_of_false nofun nofun
    | ok object =>
      constructor
      · rintro ⟨_, ⟨⟩, rfl⟩
        rfl
      · rintro ⟨⟩
        exact ⟨_, rfl, rfl⟩

/-- What is read strictly as an indirect object that is an array. -/
theorem headerAndObject_strict_array_iff (covers : t.Covers text) :
    (∃ i, ((headerAndObject resolve .strict).run.run t).1 = .ok i ∧ i.object = .array objects) ∧
        ((headerAndObject resolve .strict).run.run t).2.position = place ↔
      (Lexis.heading t.limits.wordLength (text.drop t.position)).fault t.position = none ∧
        ∃ w, InArray resolve (t.options.maxDepth - t.depth)
            (t.seek (t.position + Lexis.headingReach (text.drop t.position))) objects.reverse w ∧
          ArrayEnd resolve text (t.options.maxDepth - t.depth - 1) w place := by
  have read (u : Reader) : (anyObject resolve .strict).run.run u =
      (body resolve (u.options.maxDepth - u.depth) .strict).run.run u :=
    anyObject_levels Reader.nesting u
  have options (place : Nat) : (t.seek place).options = t.options := rfl
  have depth (place : Nat) : (t.seek place).depth = t.depth := rfl
  rw [headerAndObject_array covers, read, options, depth, body_strict_array_iff (covers.seek _)]

/-- In front of the payload of a stream that misleads stands the end of a line. -/
theorem payloadStart_before (covers : t.Covers text)
    (misleads : Payload.Misleads dict resolve text (payloadStart text t)) :
    ∃ b, text[payloadStart text t - 1]? = some b ∧ Byte.isLineEnding b = true := by
  obtain ⟨length, _, _, bracket⟩ := misleads.declares
  obtain ⟨within, _⟩ := List.getElem?_eq_some_iff.mp bracket
  rw [nextWord] at within
  obtain ⟨s, shown⟩ := (covers.run (Scan.accept streamKeyword)).shown
  have further : text.drop (payloadStart text t) ≠ [] := fun none => by
    have short := List.drop_eq_nil_iff.mp none
    omega
  rw [payloadStart, ← List.drop_drop] at further
  have line := line_starts shown.stands further
  rw [shown.bytes, shown.position] at line
  have inside : payloadStart text t ≤ text.length := by omega
  exact (line.before inside).2

/-- The cursor is left behind a bracket if and only if that is the one at which the elements ended. -/
theorem ArrayEnd.before (ends : ArrayEnd resolve text levels w place) (covers : w.Covers text) :
    text[place - 1]? = some Byte.closeBracket ↔
      text[nextWord text w.position]? = some Byte.closeBracket ∧ place = nextWord text w.position + 1 := by
  cases ends with
  | closed bracket => exact iff_of_true bracket ⟨bracket, rfl⟩
  | misled opens read keyword misleads =>
    have after := read.preserves (fun _ _ covers => covers.run _) (covers.run Scan.word)
    obtain ⟨b, before, ending⟩ := payloadStart_before after misleads
    apply iff_of_false
    · intro bracket
      cases before.symm.trans bracket
      cases ending
    · rintro ⟨bracket, _⟩
      rw [← covers.word_head, opens] at bracket
      cases bracket

end Parse

namespace Reader
open Lexis (nextWord)

variable {document : Bytes} {r : Reader}

/-- When an array is read strictly. Take any reader of a whole document, with the cursor inside. An indirect
object that is an array is read from there, and the cursor is left at a place, if and only if the heading is
right and some elements of an array behind it come to an end in one of two ways: at the closing bracket, or
at a stream that has no end, whose dictionary declares a length behind which a bracket is the next word. In
either case the byte in front of the cursor is a bracket if and only if the elements ended with it. -/
theorem Whole.strict_array (whole : r.Whole document) (inside : r.position ≤ r.size) (resolve : Resolver)
    (objects : List Object) (place : Nat) :
    let text := document.drop r.origin
    let heading := Lexis.heading r.limits.wordLength (text.drop r.position)
    let behind := r.seek (r.position + Lexis.headingReach (text.drop r.position))
    let levels := r.options.maxDepth - r.depth
    let read := (Parse.indirect resolve .strict).run.run r
    ((∃ i, read.1 = .ok i ∧ i.object = .array objects) ∧ read.2.position = place ↔
      heading.fault r.position = none ∧ ∃ w, Parse.InArray resolve levels behind objects.reverse w ∧
        Parse.ArrayEnd resolve text (levels - 1) w place) ∧
    ∀ w, Parse.InArray resolve levels behind objects.reverse w →
      Parse.ArrayEnd resolve text (levels - 1) w place →
        (text[place - 1]? = some Byte.closeBracket ↔
          text[nextWord text w.position]? = some Byte.closeBracket ∧ place = nextWord text w.position + 1) := by
  have covers := whole.covers inside
  obtain ⟨same, there⟩ := whole.whole_same (Parse.headerAndObject resolve .strict)
  constructor
  · rw [Parse.indirect, same, there]
    exact Parse.headerAndObject_strict_array_iff covers
  · intro w taken ends
    exact ends.before (taken.covers (covers.seek _))

/-- An array that nothing closes. Its only element would be a stream, which has no end either. -/
def unclosedText : Bytes := Bytes.ofAscii "1 0 obj[<</Length 1>>stream\nx]".toList

/-- Where the first element is looked for. -/
def unclosedReader : Reader := (Scan.word.run ((ofText unclosedText {}).seek 7)).2

/-- The dictionary of the stream ends, and the keyword follows. -/
theorem unclosedReader_head :
    ∃ v, Scan.Finishes (Parse.entryRound (Parse.body (fun _ => none) 1022 .loose) .loose) []
        (Scan.word.run unclosedReader).2 (.ok [(Payload.lengthKey, .integer 1)]) v ∧
      ((Scan.accept Parse.streamKeyword).run v).1 = true ∧ Parse.payloadStart unclosedText v = 28 := by
  have advances : (Parse.body (fun _ => none) 1022 .loose).Advances := Parse.body_advances 1022 .loose
  have inside : (Scan.word.run unclosedReader).2.position ≤ (Scan.word.run unclosedReader).2.size := by
    decide +kernel
  exact ⟨_, Parse.entries_finishes advances .loose [] inside, by decide +kernel, by decide +kernel⟩

/-- It is accepted all the same, without elements, and what stands in front of the cursor is the end of a
line. -/
theorem unclosedText_accepted :
    (∃ i, ((Parse.indirect (fun _ => none) .strict).run.run (ofText unclosedText {})).1 = .ok i ∧
      i.object = .array []) ∧
    ((Parse.indirect (fun _ => none) .strict).run.run (ofText unclosedText {})).2.position = 28 ∧
    unclosedText[28 - 1]? ≠ some Byte.closeBracket := by
  have taken : Parse.InArray (fun _ => none) 1024 ((ofText unclosedText {}).seek 7) [] unclosedReader :=
    ⟨rfl, .here _ _⟩
  obtain ⟨v, read, keyword, start⟩ := unclosedReader_head
  have misleads : Payload.Misleads [(Payload.lengthKey, .integer 1)] (fun _ => none) unclosedText
      (Parse.payloadStart unclosedText v) := by
    rw [start]
    exact ⟨⟨1, rfl, rfl, rfl⟩, by decide +kernel⟩
  have ends := Parse.ArrayEnd.misled rfl read keyword misleads
  rw [start] at ends
  have strict := (ofText_whole unclosedText {}).strict_array (Nat.zero_le _) (fun _ => none) [] 28
  obtain ⟨accepted, place⟩ := strict.1.mpr ⟨rfl, unclosedReader, taken, ends⟩
  have bracket := strict.2 unclosedReader taken ends
  exact ⟨accepted, place, fun found => absurd (bracket.mp found).1 (by decide +kernel)⟩

end Reader
end PdfObjects
