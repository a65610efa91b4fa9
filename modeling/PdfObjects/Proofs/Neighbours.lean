import PdfObjects.Proofs.StreamEnds

/-! What is read behind a stream. The reader goes past one more word there, since a payload that was
searched for ends in front of its keyword. Where the keyword has been read already, that word is the
neighbour of the stream: it is given back only if it ends the object and its line. At the end of the
document the last byte is given back, whatever it belongs to. -/
namespace PdfObjects

namespace Lexis

/-- Where the next word of a text starts, from a place on, or where the text ends. -/
def nextWord (text : Bytes) (place : Nat) : Nat := place + skipped false (text.drop place)

/-- Whether a byte is blank and ends no line. -/
def isPadding (b : UInt8) : Bool := Byte.isWhitespace b && !Byte.isLineEnding b

/-- How many such blanks a text starts with. -/
def padding (text : Bytes) : Nat := (text.takeWhile isPadding).length

/-- Where passing them comes to rest: in front of what ends them, or else of the last byte. -/
def resting (text : Bytes) (place : Nat) : Nat :=
  min (place + padding (text.drop place)) (text.length - 1)

/-- Whether the next word is the keyword that ends an object, and its line ends behind it. -/
def closesObject (text : Bytes) (place : Nat) : Bool :=
  lexeme (text.drop (nextWord text place)) == Payload.endObject &&
    endingLength (text.drop (resting text (place + reach (text.drop place)))) != 0

variable {text : Bytes} {place other : Nat}

theorem skipped_le (comment : Bool) (text : Bytes) : skipped comment text ≤ text.length := by
  induction text generalizing comment with
  | nil => cases comment <;> exact Nat.le_refl _
  | cons b text ih =>
    cases comment with
    | true => exact Nat.succ_le_succ (ih _)
    | false =>
      simp only [skipped]
      split
      · exact Nat.succ_le_succ (ih _)
      · split
        · exact Nat.succ_le_succ (ih _)
        · exact Nat.zero_le _

theorem reach_le (text : Bytes) : reach text ≤ text.length := by
  have short := skipped_le false text
  have whole := congrArg List.length (lexeme_take (text.drop (skipped false text)))
  rw [List.length_take, List.length_drop] at whole
  unfold reach
  omega

theorem le_nextWord (text : Bytes) (place : Nat) : place ≤ nextWord text place := Nat.le_add_right _ _

/-- A word that is there takes some bytes. -/
theorem nextWord_lt (further : nextWord text place < text.length) :
    nextWord text place < place + reach (text.drop place) := by
  have some : 0 < (lexeme (text.drop (nextWord text place))).length := by
    have nonempty : text.drop (nextWord text place) ≠ [] := fun none =>
      absurd (List.drop_eq_nil_iff.mp none) (Nat.not_le_of_lt further)
    obtain ⟨b, rest, same⟩ := List.exists_cons_of_ne_nil nonempty
    have first := lexeme_head (text.drop (nextWord text place))
    rw [same, List.head?_cons] at first
    rw [same]
    exact List.length_pos_of_mem (List.mem_of_head? first)
  unfold nextWord at some ⊢
  rw [← List.drop_drop] at some
  unfold reach
  omega

/-- Padding is skipped with the other blanks. -/
theorem nextWord_padding {count : Nat} (within : count ≤ padding (text.drop place)) :
    nextWord text (place + count) = nextWord text place := by
  have padded : ∀ b ∈ (text.drop place).take count, isPadding b = true := by
    intro b member
    have longer : (text.drop place).take count <+: (text.drop place).takeWhile isPadding := by
      refine List.prefix_of_prefix_length_le (List.take_prefix _ _) (List.takeWhile_prefix _) ?_
      rw [List.length_take]
      exact Nat.le_trans (Nat.min_le_left _ _) within
    exact List.mem_takeWhile_imp (longer.subset member)
  have blank : ((text.drop place).take count).all Byte.isWhitespace = true :=
    List.all_eq_true.mpr fun b member => (Bool.and_eq_true_iff.mp (padded b member)).1
  have length : ((text.drop place).take count).length = count := by
    refine List.length_take_of_le (Nat.le_trans within ?_)
    exact (List.takeWhile_prefix isPadding).length_le
  have skip := skipped_gap blank ((text.drop place).drop count)
  rw [List.take_append_drop, length, List.drop_drop] at skip
  unfold nextWord
  rw [skip, Nat.add_assoc]

/-- At rest, the next word is the one behind the padding, unless the document ends before it. -/
theorem nextWord_resting (inside : place < text.length) :
    nextWord text (resting text place) = nextWord text place := by
  obtain ⟨count, same⟩ : ∃ count, resting text place = place + count :=
    ⟨resting text place - place, by unfold resting; omega⟩
  have within : count ≤ padding (text.drop place) := by
    unfold resting at same
    omega
  rw [same, nextWord_padding within]

/-- Behind a word that has been read, resting loses nothing if there is anything left. -/
theorem nextWord_resting_iff {b : UInt8} (before : text[place - 1]? = some b) (inner : isInner b = true)
    (inside : place ≤ text.length) :
    nextWord text (resting text place) = nextWord text place ↔ place < text.length := by
  refine ⟨fun same => ?_, nextWord_resting⟩
  by_contra outside
  have last : place = text.length := Nat.le_antisymm inside (Nat.le_of_not_lt outside)
  obtain ⟨index, _⟩ := List.getElem?_eq_some_iff.mp before
  have here : resting text place = place - 1 := by
    unfold resting
    omega
  have starts : text.drop (place - 1) = b :: text.drop (place - 1 + 1) := by
    rw [List.drop_eq_getElem_cons index, (List.getElem?_eq_some_iff.mp before).2]
  obtain ⟨_, blank, comment⟩ := inner_class inner
  have stays : nextWord text (place - 1) = place - 1 := by
    rw [nextWord, starts, skipped_start blank comment, Nat.add_zero]
  have further := le_nextWord text place
  rw [here, stays] at same
  omega

/-- Behind the word after that, the word itself is lost, unless the last byte makes up for it. -/
theorem nextWord_behind_iff : nextWord text (resting text (place + reach (text.drop place))) =
    nextWord text place ↔ nextWord text (text.length - 1) = nextWord text place := by
  by_cases last : resting text (place + reach (text.drop place)) = text.length - 1
  · rw [last]
  · have short : resting text (place + reach (text.drop place)) < text.length - 1 :=
      Nat.lt_of_le_of_ne (Nat.min_le_right _ _) last
    have behind : place + reach (text.drop place) ≤ resting text (place + reach (text.drop place)) := by
      unfold resting at short ⊢
      omega
    have reached : nextWord text place ≤ place + reach (text.drop place) := by
      unfold nextWord reach
      omega
    have passed : nextWord text place < resting text (place + reach (text.drop place)) :=
      Nat.lt_of_lt_of_le (nextWord_lt (by omega)) behind
    have here := le_nextWord text (resting text (place + reach (text.drop place)))
    have there := le_nextWord text (text.length - 1)
    omega

end Lexis

namespace Scan
open Lexis (isPadding padding nextWord resting closesObject)

variable {t u : Resident} {ahead : Bytes}

/-- Padding is passed, and one byte more if there is one. -/
theorem consume_padding (text : Bytes) :
    (Lexis.consume (fun _ b => if Byte.isWhitespace b && !Byte.isLineEnding b then Verdict.more ()
      else .through ()) (fun _ => ()) () text).2 = min (padding text + 1) text.length := by
  induction text with
  | nil => rfl
  | cons b text ih =>
    by_cases padded : (Byte.isWhitespace b && !Byte.isLineEnding b) = true
    · have more : padding (b :: text) = padding text + 1 := by
        simp only [padding, List.takeWhile_cons, isPadding, padded, ↓reduceIte, List.length_cons]
      simp only [Lexis.consume, padded, ↓reduceIte, ih, more, List.length_cons]
      omega
    · have none : padding (b :: text) = 0 := by
        simp only [padding, List.takeWhile_cons, isPadding, padded, Bool.false_eq_true, ↓reduceIte,
          List.length_nil]
      simp only [Lexis.consume, padded, Bool.false_eq_true, ↓reduceIte, none, List.length_cons]
      omega

/-- The reader comes to rest behind the next word, and goes back if that ends the object. -/
theorem skipEndStream_rests (quiet : t.trailerEnds = none) (within : t.position ≤ t.bytes.length)
    (wide : 16 ≤ t.limits.wordLength) : (Parse.skipEndStream.run t).2.position =
      if closesObject t.bytes t.position then t.position
      else resting t.bytes (t.position + Lexis.reach (t.bytes.drop t.position)) := by
  obtain ⟨ahead, stands⟩ : ∃ ahead, t.Stands ahead := ⟨_, t.hasAhead_drop quiet, within⟩
  have read : rawWord.run t = _ := word_run stands.toHasAhead
  have standing := (stands.toHasAhead.drop (Lexis.reach ahead)).keep
    (Lexis.word t.limits.wordLength ahead).bytes
  have passed := take_run (fun _ b => if Byte.isWhitespace b && !Byte.isLineEnding b then
    Verdict.more () else .through ()) (fun _ => ()) () standing
  rw [consume_padding] at passed
  have short := Lexis.reach_le ahead
  have total := stands.toHasAhead.length
  have rest : ahead.drop (Lexis.reach ahead) = t.bytes.drop (t.position + Lexis.reach ahead) := by
    rw [← stands.ahead, List.drop_drop]
  have here : min (t.position + Lexis.reach ahead + min (padding (ahead.drop (Lexis.reach ahead)) + 1)
      (ahead.drop (Lexis.reach ahead)).length - 1) t.bytes.length =
        resting t.bytes (t.position + Lexis.reach ahead) := by
    unfold resting
    rw [← rest, List.length_drop]
    omega
  have back : unread.run (((t.move (Lexis.reach ahead)).keep (Lexis.word t.limits.wordLength ahead).bytes).move
      (min (padding (ahead.drop (Lexis.reach ahead)) + 1) (ahead.drop (Lexis.reach ahead)).length)) =
        ((), { t with
          position := resting t.bytes (t.position + Lexis.reach ahead)
          lastWord := (Lexis.word t.limits.wordLength ahead).bytes }) := by
    rw [← here]
    rfl
  have keyword : (Lexis.word t.limits.wordLength ahead).bytes = Payload.endObject ↔
      Lexis.lexeme (ahead.drop (Lexis.skipped false ahead)) = Payload.endObject :=
    Lexis.word_bytes_iff (Nat.lt_of_lt_of_le (by decide) wide)
  have word : Lexis.lexeme (t.bytes.drop (nextWord t.bytes t.position)) =
      Lexis.lexeme (ahead.drop (Lexis.skipped false ahead)) := by
    rw [nextWord, ← List.drop_drop, stands.ahead]
  have closes : closesObject t.bytes t.position = true ↔
      (Lexis.word t.limits.wordLength ahead).bytes = Payload.endObject ∧
        Lexis.endingLength (t.bytes.drop (resting t.bytes (t.position + Lexis.reach ahead))) ≠ 0 := by
    rw [keyword, closesObject, word, stands.ahead, Bool.and_eq_true, beq_iff_eq, bne_iff_ne]
  simp only [Parse.skipEndStream, run_bind, position_run, read, passed, back, lineEndingAt_length, closes,
    stands.ahead]
  split
  · exact Nat.min_eq_left within
  · rfl

/-- Only the place of the next word matters to what is read from there on. -/
theorem word_alike (bytes : u.bytes = t.bytes) (limits : u.limits = t.limits)
    (quiet : t.trailerEnds = none) (silent : u.trailerEnds = none)
    (same : nextWord t.bytes u.position = nextWord t.bytes t.position) : word.run u = word.run t := by
  have text : (t.bytes.drop u.position).drop (Lexis.skipped false (t.bytes.drop u.position)) =
      (t.bytes.drop t.position).drop (Lexis.skipped false (t.bytes.drop t.position)) := by
    rw [List.drop_drop, List.drop_drop]
    exact congrArg t.bytes.drop same
  have reach : u.position + Lexis.reach (t.bytes.drop u.position) =
      t.position + Lexis.reach (t.bytes.drop t.position) := by
    unfold nextWord at same
    rw [Lexis.reach, Lexis.reach, text]
    omega
  rw [word_run (t.hasAhead_drop quiet), word_run (u.hasAhead_drop silent), bytes, limits]
  simp only [Lexis.word, text, Resident.move, Resident.keep, bytes, limits, reach, quiet, silent]

end Scan

namespace Parse
open Lexis (nextWord)

/-- What two readings of an object come to, apart from where an error says that the object started. -/
inductive Alike : (first second : Except Error Object × Resident) → Prop where
  | read (object : Object) (t : Resident) : Alike (.ok object, t) (.ok object, t)
  | failed {e f : Error} (t u : Resident) (kind : e.isNestingLimit = f.isNestingLimit)
    (deep : e.isNestingLimit = true → e = f) : Alike (.error e, t) (.error f, u)

variable {resolve : Resolver} {mode : Mode} {t u : Resident}

theorem Alike.refl (result : Except Error Object × Resident) : Alike result result := by
  obtain ⟨result, t⟩ := result
  cases result with
  | ok object => exact .read object t
  | error e => exact .failed t t rfl fun _ => rfl

/-- Where to go back to matters to nothing but the place. -/
theorem rewinding_alike (program : Parse Object) (here there : Nat) (t : Resident) :
    Alike ((rewinding here program).run.run t) ((rewinding there program).run.run t) := by
  rw [rewinding, rewinding, run_bind_outcome, run_bind_outcome]
  cases (program.run.run t).1 with
  | ok object => exact .refl _
  | error e =>
    dsimp only
    by_cases deep : e.isNestingLimit = true
    · rw [if_pos deep, if_pos deep]
      exact .failed _ _ rfl fun _ => rfl
    · rw [if_neg deep, if_neg deep]
      exact .refl _

/-- An object starts with its first word, wherever the reader stood before that. -/
theorem body_alike (same : Scan.word.run u = Scan.word.run t) (limits : u.limits = t.limits)
    (levels : Nat) :
    Alike ((body resolve levels mode).run.run u) ((body resolve levels mode).run.run t) := by
  cases levels with
  | zero =>
    rw [body, tooDeep, run_bind_lift, run_bind_lift, Scan.settings_run, Scan.settings_run, limits]
    exact .failed _ _ rfl fun _ => rfl
  | succ levels =>
    rw [body, announced, run_bind_lift, Scan.position_run, run_bind_lift, same, run_bind_lift, Scan.position_run,
      run_bind_lift]
    generalize Scan.word.run t = read
    obtain ⟨word, after⟩ := read
    dsimp only
    by_cases empty : word.isEmpty = true
    · rw [if_pos empty, if_pos empty]
      exact .failed _ _ rfl fun _ => rfl
    by_cases numeric : word.numeric = true
    · rw [if_neg empty, if_neg empty, if_pos numeric, if_pos numeric]
      exact .refl _
    rw [if_neg empty, if_neg empty, if_neg numeric, if_neg numeric]
    cases Lead.ofWord word.bytes with
    | whole | literalString | hexString => exact .refl _
    | array | dictionary => exact rewinding_alike _ _ _ _
    | dictionaryEnd | nothing => exact .failed _ _ rfl (by rintro ⟨⟩)

theorem bodyFrom_alike (same : Scan.word.run u = Scan.word.run t) (limits : u.limits = t.limits)
    (depth : Nat) :
    Alike ((bodyFrom resolve depth mode).run.run u) ((bodyFrom resolve depth mode).run.run t) := by
  rw [bodyFrom_levels Resident.nesting, bodyFrom_levels Resident.nesting, limits]
  exact body_alike same limits _

theorem entries_alike (same : Scan.word.run u = Scan.word.run t) (value : Parse Object) (fuel : Nat)
    (dict : Dictionary) : (entries value mode (fuel + 1) dict).run.run u =
      (entries value mode (fuel + 1) dict).run.run t := by
  obtain ⟨rest, split⟩ : ∃ rest,
      entries value mode (fuel + 1) dict = (liftM Scan.word : Parse Word) >>= rest := by
    rw [entries]
    exact ⟨_, rfl⟩
  rw [split, run_bind_lift, run_bind_lift, same]

theorem elements_alike (same : Scan.word.run u = Scan.word.run t) (limits : u.limits = t.limits)
    (depth fuel : Nat) (taken : List Object) :
    ((elements (bodyFrom resolve depth .loose) fuel taken).run.run u).1 =
      ((elements (bodyFrom resolve depth .loose) fuel taken).run.run t).1 := by
  cases fuel with
  | zero => rfl
  | succ fuel =>
    have alike := @bodyFrom_alike resolve .loose t u same limits depth
    rw [elements, run_bind_outcome, run_bind_outcome]
    generalize (bodyFrom resolve depth .loose).run.run u = first at alike
    generalize (bodyFrom resolve depth .loose).run.run t = second at alike
    cases alike with
    | read object after => rfl
    | @failed e f _ _ kind deep =>
      dsimp only
      by_cases limit : e.isNestingLimit = true
      · rw [if_pos limit, if_pos (kind ▸ limit), deep limit]
        rfl
      · rw [if_neg limit, if_neg (kind ▸ limit)]
        rfl

end Parse

namespace Payload
open Lexis (nextWord closesObject)

variable {dict : Dictionary} {resolve : Resolver} {text content between rest : Bytes} {start behind : Nat}

/-- Whether the reader comes to rest in front of the word behind a stream. If the payload was searched for,
there has to be anything at all behind the keyword. If its length was trusted, that word has to end the
object and its line, or it has to be the next one even from the last byte of the document. -/
def Spares (dict : Dictionary) (resolve : Resolver) (text : Bytes) (start behind : Nat) : Prop :=
  (Doubted dict resolve (text.drop start) ∧ behind < text.length) ∨
    (¬ Doubted dict resolve (text.drop start) ∧ (closesObject text behind = true ∨
      nextWord text (text.length - 1) = nextWord text behind))

/-- The word that starts with the keyword, and what is behind it. -/
theorem Terminated.word (ended : Terminated dict resolve text start content between endStream rest) :
    text.drop start =
      content ++ between ++ Lexis.lexeme (endStream ++ rest) ++ rest.dropWhile Lexis.isInner := by
  rw [ended.split, endStream_solid.lexeme, List.append_assoc, List.append_assoc, List.append_assoc,
    List.takeWhile_append_dropWhile]

/-- Behind that word is a place in the document, and before that place is its last letter. -/
theorem Terminated.inside (ended : Terminated dict resolve text start content between endStream rest)
    (place : behind = start + (content ++ between ++ Lexis.lexeme (endStream ++ rest)).length) :
    behind ≤ text.length ∧ ∃ b, text[behind - 1]? = some b ∧ Lexis.isInner b = true := by
  have split := ended.word
  have nonempty : Lexis.lexeme (endStream ++ rest) ≠ [] := by
    rw [endStream_solid.lexeme]
    exact List.append_ne_nil_of_left_ne_nil endStream_solid.nonempty _
  have positive := List.length_pos_iff.mpr nonempty
  have length := congrArg List.length split
  rw [List.length_drop, List.length_append] at length
  have total := @List.length_append _ (content ++ between) (Lexis.lexeme (endStream ++ rest))
  refine ⟨by omega, (Lexis.lexeme (endStream ++ rest)).getLast nonempty, ?_, ?_⟩
  · have index : behind - 1 =
        start + ((content ++ between ++ Lexis.lexeme (endStream ++ rest)).length - 1) := by omega
    rw [index, ← List.getElem?_drop, split, List.getElem?_append_left (by omega), ← List.getLast?_eq_getElem?,
      List.getLast?_append_of_ne_nil _ nonempty, List.getLast?_eq_some_getLast nonempty]
  · have member := List.getLast_mem nonempty
    generalize (Lexis.lexeme (endStream ++ rest)).getLast nonempty = b at member
    rw [endStream_solid.lexeme] at member
    rcases List.mem_append.mp member with letter | letter
    · exact List.all_eq_true.mp endStream_solid.inner b letter
    · exact List.mem_takeWhile_imp letter

end Payload

namespace Reader
open Lexis (nextWord resting closesObject)

/-- From two readers on, the same is read: by every program that starts with a word, by the rest of an
array and by the rest of a dictionary. -/
structure ReadsAlike (resolve : Resolver) (r s : Reader) : Prop where
  word : ∀ (α : Type) (rest : Word → Scan α),
    ((Scan.word >>= rest).run r).1 = ((Scan.word >>= rest).run s).1 ∧
      ((Scan.word >>= rest).run r).2.position = ((Scan.word >>= rest).run s).2.position
  elements : ∀ depth fuel taken,
    ((Parse.elements (Parse.bodyFrom resolve depth .loose) fuel taken).run.run r).1 =
      ((Parse.elements (Parse.bodyFrom resolve depth .loose) fuel taken).run.run s).1
  entries : ∀ value mode fuel dict,
    ((Parse.entries value mode (fuel + 1) dict).run.run r).1 =
      ((Parse.entries value mode (fuel + 1) dict).run.run s).1

variable {document content between rest : Bytes} {r s : Reader} {resolve : Resolver} {dict : Dictionary}
  {start behind : Nat}

theorem Whole.reads_alike (whole : r.Whole document) (other : s.Whole document)
    (origin : s.origin = r.origin) (limits : s.limits = r.limits)
    (same : nextWord (document.drop r.origin) s.position = nextWord (document.drop r.origin) r.position) :
    ReadsAlike resolve s r := by
  have bytes : (s.mirror document).unrecorded.bytes = (r.mirror document).unrecorded.bytes :=
    congrArg document.drop origin
  have alike := Scan.word_alike bytes limits rfl rfl same
  constructor
  · intro α rest
    obtain ⟨first, here⟩ := other.resident_run (Scan.word >>= rest)
    obtain ⟨second, there⟩ := whole.resident_run (Scan.word >>= rest)
    rw [← first, ← here, ← second, ← there, Scan.run_bind, Scan.run_bind, alike]
    exact ⟨rfl, rfl⟩
  · intro depth fuel taken
    rw [← (other.resident_run (Parse.elements _ fuel taken).run).1,
      ← (whole.resident_run (Parse.elements _ fuel taken).run).1]
    exact Parse.elements_alike alike limits depth fuel taken
  · intro value mode fuel dict
    rw [← (other.resident_run (Parse.entries value mode (fuel + 1) dict).run).1,
      ← (whole.resident_run (Parse.entries value mode (fuel + 1) dict).run).1]
    exact congrArg Prod.fst (Parse.entries_alike alike value fuel dict)

/-- Where the reader comes to rest behind a stream. -/
theorem OpensStream.rests (whole : r.Whole document) (opens : r.OpensStream document resolve dict start)
    (ended : Payload.Terminated dict resolve (document.drop r.origin) start content between
      Payload.endStream rest)
    (place : behind = start + (content ++ between ++ Lexis.lexeme (Payload.endStream ++ rest)).length) :
    (Payload.Doubted dict resolve ((document.drop r.origin).drop start) →
      ((Parse.object resolve).run.run r).2.position = resting (document.drop r.origin) behind) ∧
    (¬ Payload.Doubted dict resolve ((document.drop r.origin).drop start) →
      ((Parse.object resolve).run.run r).2.position =
        if closesObject (document.drop r.origin) behind then behind
        else resting (document.drop r.origin)
          (behind + Lexis.reach ((document.drop r.origin).drop behind))) := by
  have inside := (ended.inside place).1
  have split := ended.split
  have closed := ended.closed
  have behindPayload : behind =
      start + content.length + (between ++ Lexis.lexeme (Payload.endStream ++ rest)).length := by
    rw [place, List.append_assoc, List.length_append, Nat.add_assoc]
  obtain ⟨v, ahead, stands, wide, bytes, first, text, reads⟩ := opens.payload whole
  rw [← bytes] at split text ended inside ⊢
  cases ended with
  | trusted trusted =>
    refine ⟨fun doubted => absurd trusted (doubted _ _ _), fun _ => ?_⟩
    rw [text] at trusted
    obtain ⟨kept, ran⟩ := Parse.payload_trusted stands wide trusted
    have here : v.position + (Lexis.lineLength ahead + (content ++ between ++
        Lexis.lexeme (Payload.endStream ++ rest)).length) = behind := by
      rw [place, ← first, Nat.add_assoc]
    have rests := @Scan.skipEndStream_rests ((v.move (Lexis.lineLength ahead + (content ++ between ++
      Lexis.lexeme (Payload.endStream ++ rest)).length)).keep kept) stands.unrecorded (here.trans_le inside) wide
    rw [(reads _ _ ran nofun).2, rests, Resident.keep_position, Resident.move_position, here]
    rfl
  | searched doubted searched =>
    refine ⟨fun _ => ?_, fun trusted => absurd doubted trusted⟩
    rw [text] at doubted
    rw [← first] at searched
    obtain ⟨kept, ran⟩ := Parse.payload_searched stands wide doubted searched
    have here : v.position + (Lexis.lineLength ahead + content.length) = start + content.length := by
      rw [← first, Nat.add_assoc]
    have below : v.bytes.drop (start + content.length) = between ++ (Payload.endStream ++ rest) := by
      rw [← List.drop_drop, split, List.drop_left]
    have reach := Payload.endStream_solid.reach_eq closed rest
    have other : closesObject v.bytes (start + content.length) = false := by
      rw [closesObject, nextWord, ← List.drop_drop, below, Payload.endStream_solid.behind_gap closed,
        List.drop_left, Payload.endStream_solid.lexeme]
      rfl
    have short : start + content.length ≤ v.bytes.length := by omega
    have rests := @Scan.skipEndStream_rests ((v.move (Lexis.lineLength ahead + content.length)).keep kept)
      stands.unrecorded (here.trans_le short) wide
    rw [(reads _ _ ran nofun).2, rests, Resident.keep_position, Resident.move_position, here]
    change (if closesObject v.bytes (start + content.length) then _ else resting v.bytes
      (start + content.length + Lexis.reach (v.bytes.drop (start + content.length)))) = _
    rw [other, below, reach, behindPayload]
    rfl

/-- What happens to the word behind a stream. Take any reader of a whole document, let it stand at a
dictionary behind which a stream is opened, and let the payload end at the keyword that ends a stream. Then
the stream is read, and the next word that is read is the first one behind that keyword if and only if that
word is spared. If it is, everything behind the keyword is read as if the cursor stood right there, so
leaving the stream out of an array or a dictionary takes away no neighbour of it. -/
theorem Whole.keeps_neighbour (whole : r.Whole document) (opens : r.OpensStream document resolve dict start)
    (ended : Payload.Terminated dict resolve (document.drop r.origin) start content between
      Payload.endStream rest)
    (place : behind = start + (content ++ between ++ Lexis.lexeme (Payload.endStream ++ rest)).length) :
    ((Parse.object resolve).run.run r).1 = .ok (.stream dict content) ∧
    (nextWord (document.drop r.origin) ((Parse.object resolve).run.run r).2.position =
        nextWord (document.drop r.origin) behind ↔
      Payload.Spares dict resolve (document.drop r.origin) start behind) ∧
    (Payload.Spares dict resolve (document.drop r.origin) start behind →
      ReadsAlike resolve ((Parse.object resolve).run.run r).2
        (((Parse.object resolve).run.run r).2.seek behind)) := by
  obtain ⟨inside, b, letter, inner⟩ := ended.inside place
  obtain ⟨searched, trusted⟩ := opens.rests whole ended place
  have neighbour : nextWord (document.drop r.origin) ((Parse.object resolve).run.run r).2.position =
        nextWord (document.drop r.origin) behind ↔
      Payload.Spares dict resolve (document.drop r.origin) start behind := by
    by_cases doubted : Payload.Doubted dict resolve ((document.drop r.origin).drop start)
    · rw [searched doubted, Lexis.nextWord_resting_iff letter inner inside]
      exact ⟨fun further => .inl ⟨doubted, further⟩, fun spared => spared.elim And.right
        fun other => absurd doubted other.1⟩
    · rw [trusted doubted]
      have only : Payload.Spares dict resolve (document.drop r.origin) start behind ↔
          closesObject (document.drop r.origin) behind = true ∨
            nextWord (document.drop r.origin) ((document.drop r.origin).length - 1) =
              nextWord (document.drop r.origin) behind := by
        simp only [Payload.Spares, doubted, false_and, not_false_eq_true, true_and, false_or]
      rw [only]
      by_cases closes : closesObject (document.drop r.origin) behind = true
      · rw [if_pos closes]
        exact ⟨fun _ => .inl closes, fun _ => rfl⟩
      · rw [if_neg closes, Lexis.nextWord_behind_iff]
        exact ⟨.inr, fun spared => spared.resolve_left closes⟩
  refine ⟨opens.reads whole ended, neighbour, fun spared => ?_⟩
  have after := whole.run (Parse.object resolve).run
  have origin := (Reader.continues.run (Parse.object resolve).run r).origin
  have size := after.faithful.size
  generalize ((Parse.object resolve).run.run r).2 = last at *
  have there : (last.seek behind).Whole document := ⟨after.gate, after.origin, after.window⟩
  have stays : (last.seek behind).position = behind := by
    refine Nat.min_eq_left ?_
    rw [size, origin]
    exact inside
  refine there.reads_alike after rfl rfl ?_
  rw [stays]
  change nextWord (document.drop last.origin) _ = nextWord (document.drop last.origin) _
  rw [origin]
  exact neighbour.mpr spared

/-- A stream in front of the last two elements of an array. -/
def elementsText : Bytes := Bytes.ofAscii "<</Length 1>>stream\nx\nendstream 2 3]".toList

/-- A stream in front of the keyword that ends its object. -/
def closedText : Bytes := Bytes.ofAscii "<</Length 1>>stream\nx\nendstream  \nendobj\n".toList

def lengthOne : Dictionary := [(Payload.lengthKey, .integer 1)]

/-- The first of the elements is swallowed, but the keyword is not. -/
theorem elementsText_swallowed : let here := ((Parse.object fun _ => none).run.run (ofText elementsText {})).2
    let there := ((Parse.object fun _ => none).run.run (ofText closedText {})).2
    nextWord elementsText here.position ≠ nextWord elementsText 31 ∧
      nextWord closedText there.position = nextWord closedText 31 := by
  have opens : (ofText elementsText {}).OpensStream elementsText (fun _ => none) lengthOne 20 :=
    ⟨rfl, [], Bytes.ofAscii "\nx\nendstream 2 3]".toList, rfl, Lexis.ends_cons rfl _, rfl, rfl⟩
  have opened : (ofText closedText {}).OpensStream closedText (fun _ => none) lengthOne 20 :=
    ⟨rfl, [], Bytes.ofAscii "\nx\nendstream  \nendobj\n".toList, rfl, Lexis.ends_cons rfl _, rfl, rfl⟩
  have trusted : Payload.Trusted lengthOne (fun _ => none) (elementsText.drop 20) ['x'.toUInt8]
      [Byte.lineFeed] (Bytes.ofAscii " 2 3]".toList) := ⟨rfl, rfl, rfl⟩
  have other : Payload.Trusted lengthOne (fun _ => none) (closedText.drop 20) ['x'.toUInt8]
      [Byte.lineFeed] (Bytes.ofAscii "  \nendobj\n".toList) := ⟨rfl, rfl, rfl⟩
  have first := ((ofText_whole elementsText {}).keeps_neighbour opens (.trusted trusted) rfl).2.1
  have second := ((ofText_whole closedText {}).keeps_neighbour opened (.trusted other) rfl).2.1
  refine ⟨fun same => ?_, second.mpr (.inr ⟨fun doubted => doubted _ _ _ other, .inl rfl⟩)⟩
  rcases first.mp same with ⟨doubted, _⟩ | ⟨_, closes | last⟩
  · exact doubted _ _ _ trusted
  · exact absurd closes (by decide +kernel)
  · exact absurd last (by decide +kernel)

end Reader
end PdfObjects
