import PdfObjects.Proofs.Neighbours
import PdfObjects.Proofs.Rounds

/-! Dictionaries that are not closed. The keyword that ends an object may turn up wherever a word is read
in a dictionary or in what is nested there: for a key, for a value, for an element, or behind a stream. It
ends the dictionary only where a key is looked for, and only if no array is in between; then it ends every
dictionary around that place and is left to whoever comes next. Everywhere else it is taken for a word
without a meaning, and reading goes on behind it. -/
namespace PdfObjects

namespace Lexis

variable {text keyword : Bytes} {place : Nat}

/-- Where a keyword stands, it is the next word. -/
theorem Solid.nextWord_eq (solid : Solid keyword) (here : Lexis.lexeme (text.drop place) = keyword) :
    nextWord text place = place := by
  obtain ⟨rest, _, behind⟩ := solid.lexeme_eq here
  rw [nextWord, behind, solid.starts, Nat.add_zero]

end Lexis

namespace Reader
open Lexis (nextWord)

/-- A reader of a whole document. This is the text of the document proper, and the cursor is inside. -/
structure Covers (text : Bytes) (t : Reader) : Prop where
  whole : ∃ document, t.Whole document ∧ document.drop t.origin = text
  inside : t.position ≤ t.size

variable {text keyword : Bytes} {t u : Reader}

theorem Covers.run (covers : t.Covers text) (program : Scan α) : (program.run t).2.Covers text := by
  obtain ⟨document, whole, same⟩ := covers.whole
  have origin := (continues.run program t).origin
  exact ⟨⟨document, whole.run program, origin ▸ same⟩, inside_run program covers.inside⟩

theorem Covers.size (covers : t.Covers text) : t.size = text.length := by
  obtain ⟨document, whole, rfl⟩ := covers.whole
  exact whole.faithful.size

/-- The cursor can go back to where it was. -/
theorem Covers.seek_back (later : u.Covers text) (covers : t.Covers text) :
    ((Scan.seek t.position).run u).2.position = t.position := by
  refine Nat.min_eq_left ?_
  rw [later.size, ← covers.size]
  exact covers.inside

/-- The next word and its end follow from the text. -/
theorem Covers.word (covers : t.Covers text) :
    (Scan.word.run t).1 = Lexis.word t.limits.wordLength (text.drop t.position) ∧
      (Scan.word.run t).2.position = t.position + Lexis.reach (text.drop t.position) := by
  obtain ⟨document, whole, rfl⟩ := covers.whole
  obtain ⟨same, place⟩ := whole.resident_run Scan.word
  obtain ⟨first, second⟩ := Scan.word_place (t.mirror document).unrecorded
  exact ⟨same.symm.trans first, place.symm.trans second⟩

theorem Covers.word_iff (covers : t.Covers text) (short : keyword.length < 16) :
    (Scan.word.run t).1.bytes = keyword ↔
      Lexis.lexeme (text.drop (nextWord text t.position)) = keyword := by
  have wide : 16 ≤ t.limits.wordLength := Nat.le_max_right _ _
  rw [covers.word.1, Lexis.word_bytes_iff (Nat.lt_of_lt_of_le short wide), List.drop_drop]
  rfl

/-- A short word is known in full, and so is its place. -/
theorem Covers.word_eq (covers : t.Covers text) (short : keyword.length < 16)
    (found : (Scan.word.run t).1.bytes = keyword) :
    (Scan.word.run t).1 = ⟨keyword, keyword.all Byte.isNumeric⟩ ∧
      (Scan.word.run t).2.position = nextWord text t.position + keyword.length := by
  have lexeme := (covers.word_iff short).mp found
  rw [nextWord, ← List.drop_drop] at lexeme
  obtain ⟨same, place⟩ := covers.word
  rw [Lexis.word, lexeme] at same
  rw [Lexis.reach, lexeme, ← Nat.add_assoc] at place
  have kept : keyword.take t.limits.wordLength = keyword := by
    rw [same] at found
    exact found
  rw [same, Word.ofLexeme, kept]
  exact ⟨rfl, place⟩

/-- The keyword that ends an object is no number. -/
theorem Covers.endObject (covers : t.Covers text) (found : (Scan.word.run t).1.bytes = Payload.endObject) :
    (Scan.word.run t).1 = ⟨Payload.endObject, false⟩ ∧
      (Scan.word.run t).2.position = nextWord text t.position + Payload.endObject.length :=
  covers.word_eq (by decide) found

/-- Back at its place, it is read again. -/
theorem Covers.endObject_again (covers : t.Covers text) (other : u.Covers text)
    (found : (Scan.word.run t).1.bytes = Payload.endObject) (back : u.position = nextWord text t.position) :
    (Scan.word.run u).1.bytes = Payload.endObject ∧ nextWord text u.position = nextWord text t.position := by
  have short : Payload.endObject.length < 16 := by decide
  have lexeme := (covers.word_iff short).mp found
  have stays := Payload.endObject_solid.nextWord_eq lexeme
  rw [← back] at stays lexeme
  rw [← back]
  exact ⟨(other.word_iff short).mpr (by rw [stays, lexeme]), stays⟩

/-- Only the keyword of a stream is accepted for one. -/
theorem Covers.accept_other (covers : t.Covers text)
    (other : (Scan.word.run t).1.bytes ≠ Parse.streamKeyword) :
    ((Scan.accept Parse.streamKeyword).run t).1 = false ∧
      ((Scan.accept Parse.streamKeyword).run t).2.position = t.position := by
  have here : Scan.position.run t = (t.position, t) := rfl
  simp only [Scan.accept, Scan.attempt, Scan.run_bind, here, if_neg other, Scan.run_pure]
  refine ⟨rfl, Nat.min_eq_left ?_⟩
  rw [size_run]
  exact covers.inside

/-- Behind a stream the reader goes back to where it stood, or it does not come to rest in front of the
keyword. -/
theorem Covers.skipEndStream_passes (covers : t.Covers text)
    (found : (Scan.word.run t).1.bytes = Payload.endObject)
    (moved : (Parse.skipEndStream.run t).2.position ≠ t.position) :
    nextWord text t.position < (Parse.skipEndStream.run t).2.position := by
  have behind := (covers.endObject found).2
  have inside := (covers.run Scan.word).inside
  rw [(covers.run Scan.word).size, behind] at inside
  rw [covers.word.2] at behind
  have within := covers.inside
  rw [covers.size] at within
  obtain ⟨document, whole, rfl⟩ := covers.whole
  have rests := @Scan.skipEndStream_rests (t.mirror document).unrecorded rfl within (Nat.le_max_right _ _)
  rw [(whole.resident_run Parse.skipEndStream).2] at rests
  change _ = if Lexis.closesObject (document.drop t.origin) t.position then t.position
    else Lexis.resting (document.drop t.origin)
      (t.position + Lexis.reach ((document.drop t.origin).drop t.position)) at rests
  split at rests
  · exact absurd rests moved
  · have letters : 1 < Payload.endObject.length := by decide
    rw [rests, behind, Lexis.resting]
    omega

end Reader

namespace Parse
open Scan (Finishes Reaches Round)
open Lexis (nextWord)

/-- Inside a dictionary that starts at `t`: with these entries taken, the next word of it is looked for at
`w`. So many levels of nesting are left to the dictionary itself. -/
structure InDictionary (resolve : Resolver) (levels : Nat) (t : Reader) (dict : Dictionary) (w : Reader) :
    Prop where
  opens : (Scan.word.run t).1.bytes = [Byte.less, Byte.less]
  taken : Reaches (entryRound (body resolve (levels - 1) .loose) .loose) [] (Scan.word.run t).2 dict w

/-- Inside an array that starts at `t`, in the same way. -/
structure InArray (resolve : Resolver) (levels : Nat) (t : Reader) (objects : List Object) (w : Reader) :
    Prop where
  opens : (Scan.word.run t).1.bytes = [Byte.openBracket]
  taken : Reaches (elementRound (body resolve (levels - 1) .loose)) [] (Scan.word.run t).2 objects w

/-- A dictionary that starts at `t` ends at a place, where the cursor is left, with what it holds by then. -/
def EndsAt (resolve : Resolver) (levels : Nat) (t : Reader) (place : Nat) : Prop :=
  ∃ dict w last, InDictionary resolve levels t dict w ∧ w.position ≤ place ∧
    (body resolve levels .loose).run.run t = (.ok (.dictionary dict), last) ∧ last.position = place

/-- What a run comes to is anything but that nesting is too deep. -/
def Shallow (result : Except Error α) : Prop := ∀ e, result = .error e → e.isNestingLimit = false

/-- A run gets behind a place, unless nesting turns out to be too deep. -/
def Passes (place : Nat) (ended : Except Error α × Reader) : Prop :=
  Shallow ended.1 → place < ended.2.position

/-- How an array goes on behind what was read for an element. -/
def afterElement (objects : List Object) :
    Except Error Object → Round (List Object) (Except Error (List Object))
  | .ok object => .again (if object.isStream then objects else object :: objects)
  | .error e => .done (if e.isNestingLimit then .error e else .ok objects.reverse)

/-- How a dictionary goes on behind what was read for a value. -/
def afterValue (name : Bytes) (dict : Dictionary) :
    Except Error Object → Round Dictionary (Except Error Dictionary)
  | .ok object => .again (if isEntry name object then dict.insert name object else dict)
  | .error e => if e.isNestingLimit then .done (.error e) else .again dict

/-- Reads a payload, without a step behind it. -/
def payloadAlone (dict : Dictionary) (resolve : Resolver) : Parse Bytes := do
  Scan.nextLine
  let start ← Scan.position
  let size ← Scan.documentSize
  let declared := (Payload.declaredLength dict resolve).filter (Payload.fits start size)
  payloadBytes start (← payloadLength start declared)

/-- Where a word is met while an object is read. -/
inductive Site where
  /-- Where a dictionary looks for a key, around which there are only dictionaries. -/
  | key
  /-- Where a dictionary in an array looks for a key. -/
  | enclosed
  /-- At the start of a value. -/
  | value
  /-- At the start of an element. -/
  | element
  /-- Behind a stream, if the reader does not come back there. -/
  | tail
  deriving DecidableEq

/-- The same place as it is seen from an array around it. -/
def Site.within : Site → Site
  | .key => .enclosed
  | site => site

theorem Site.within_ne (site : Site) : site.within ≠ .key := by cases site <;> decide

/-- While an object that may nest so many levels deep is read from `t`, a word is met at `v`. -/
inductive ReachesSite (resolve : Resolver) : (levels : Nat) → Site → (t v : Reader) → Prop
  | key (inside : InDictionary resolve (levels + 1) t dict v) : ReachesSite resolve (levels + 1) .key t v
  | value (inside : InDictionary resolve (levels + 2) t dict w)
      (names : KeyWord.ofWord (Scan.word.run w).1.bytes = .key name) :
      ReachesSite resolve (levels + 2) .value t (Scan.word.run w).2
  | element (inside : InArray resolve (levels + 2) t objects v) :
      ReachesSite resolve (levels + 2) .element t v
  | tail (opens : (Scan.word.run t).1.bytes = [Byte.less, Byte.less])
      (closed : Finishes (entryRound (body resolve levels .loose) .loose) [] (Scan.word.run t).2 (.ok dict) w)
      (keyword : ((Scan.accept streamKeyword).run w).1 = true)
      (taken : (payloadAlone dict resolve).run.run ((Scan.accept streamKeyword).run w).2 = (.ok content, v))
      (moved : (skipEndStream.run v).2.position ≠ v.position) : ReachesSite resolve (levels + 1) .tail t v
  | entry (inside : InDictionary resolve (levels + 1) t dict w)
      (names : KeyWord.ofWord (Scan.word.run w).1.bytes = .key name)
      (later : ReachesSite resolve levels site (Scan.word.run w).2 v) :
      ReachesSite resolve (levels + 1) site t v
  | item (inside : InArray resolve (levels + 1) t objects w) (later : ReachesSite resolve levels site w v) :
      ReachesSite resolve (levels + 1) site.within t v

variable {resolve : Resolver} {levels : Nat} {mode : Mode} {t u v w last : Reader} {dict : Dictionary}
  {objects : List Object} {text content : Bytes} {element value : Parse Object} {site : Site}

theorem body_array (covers : t.Covers text) (opens : (Scan.word.run t).1.bytes = [Byte.openBracket]) :
    (body resolve (levels + 1) mode).run.run t =
      (rewinding t.position (array (body resolve levels .loose) mode)).run.run (Scan.word.run t).2 := by
  have here : Scan.position.run t = (t.position, t) := rfl
  rw [body, announced, run_bind_lift, here, run_bind_lift, (covers.word_eq (by decide) opens).1]
  rfl

theorem body_dictionary (covers : t.Covers text)
    (opens : (Scan.word.run t).1.bytes = [Byte.less, Byte.less]) :
    (body resolve (levels + 1) mode).run.run t =
      (rewinding t.position (dictionary (body resolve levels .loose) resolve mode)).run.run
        (Scan.word.run t).2 := by
  have here : Scan.position.run t = (t.position, t) := rfl
  rw [body, announced, run_bind_lift, here, run_bind_lift, (covers.word_eq (by decide) opens).1]
  rfl

/-- The keyword starts no object, and has been read. -/
theorem body_endObject (covers : t.Covers text)
    (found : (Scan.word.run t).1.bytes = Payload.endObject) :
    (body resolve (levels + 1) mode).run.run t =
      (.error (.unexpectedWord t.position Payload.endObject), (Scan.word.run t).2) := by
  have here : Scan.position.run t = (t.position, t) := rfl
  rw [body, announced, run_bind_lift, here, run_bind_lift, (covers.endObject found).1]
  rfl

/-- An array whose elements come to an end is read, unless it is read strictly and the last word is not the
bracket. -/
theorem array_ends (advances : element.Advances) (inside : t.position ≤ t.size)
    (finishes : Finishes (elementRound element) [] t (.ok objects) last) :
    (array element mode).run.run t =
      if mode = .loose ∨ last.lastWord.head? = some Byte.closeBracket then (.ok (.array objects), last)
      else (.error (.badSyntax last.position .arrayNotTerminated), last) := by
  have left : Scan.remaining.run t = (t.size - t.position, t) := rfl
  have held : Scan.lastWord.run last = (last.lastWord, last) := rfl
  obtain ⟨same, there⟩ := (elements_finishes advances [] inside).unique finishes
  rw [array, run_bind_lift, left, run_bind_ok (Prod.ext same there), run_bind_lift, held]
  split <;> rfl

/-- An array is what its rounds come to. -/
theorem array_rounds {result : Except Error (List Object)} (advances : element.Advances)
    (inside : t.position ≤ t.size) (finishes : Finishes (elementRound element) [] t result last) :
    (array element .loose).run.run t = (result.map .array, last) := by
  cases result with
  | ok objects => exact array_ends advances inside finishes
  | error e =>
    have left : Scan.remaining.run t = (t.size - t.position, t) := rfl
    obtain ⟨same, there⟩ := (elements_finishes advances [] inside).unique finishes
    rw [array, run_bind_lift, left]
    exact run_bind_error (Prod.ext same there)

/-- So is a dictionary, apart from what makes a stream of it. -/
theorem dictionary_rounds {result : Except Error Dictionary} (advances : value.Advances)
    (inside : t.position ≤ t.size) (finishes : Finishes (entryRound value mode) [] t result last) :
    (dictionary value resolve mode).run.run t =
      match result with
      | .ok dict => (opened resolve dict).run.run last
      | .error e => (.error e, last) := by
  have left : Scan.remaining.run t = (t.size - t.position, t) := rfl
  obtain ⟨same, there⟩ := (entries_finishes advances mode [] inside).unique finishes
  have ran : (entries value mode (t.size - t.position + 1) []).run.run t = (result, last) :=
    Prod.ext same there
  rw [dictionary, run_bind_lift, left]
  cases result with
  | ok dict => exact run_bind_ok ran
  | error e => exact run_bind_error ran

theorem InDictionary.covers (inside : InDictionary resolve levels t dict w) (covers : t.Covers text) :
    w.Covers text := inside.taken.preserves (fun _ _ covers => covers.run _) (covers.run Scan.word)

theorem InArray.covers (inside : InArray resolve levels t objects w) (covers : t.Covers text) :
    w.Covers text :=
  inside.taken.preserves (fun _ _ covers => covers.run _) (covers.run Scan.word)

theorem shallow_or_deep (result : Except Error α) :
    Shallow result ∨ ∃ e, result = .error e ∧ e.isNestingLimit = true := by
  cases result with
  | ok value => exact .inl nofun
  | error e =>
    by_cases deep : e.isNestingLimit = true
    · exact .inr ⟨e, rfl, deep⟩
    · exact .inl fun _ same => by cases same; exact Bool.eq_false_iff.mpr deep

theorem passes_deep {place : Nat} {e : Error} (deep : e.isNestingLimit = true) :
    Passes place ((.error e, last) : Except Error α × Reader) :=
  fun shallow => Bool.noConfusion (deep.symm.trans (shallow e rfl))

/-- Nothing is taken back but by an error of nesting. -/
theorem passes_rewinding {program : Parse Object} {place start : Nat}
    (passes : Passes place (program.run.run t)) :
    Passes place ((rewinding start program).run.run t) := by
  rw [rewinding, run_bind_outcome]
  cases ran : program.run.run t with
  | mk result last =>
    rw [ran] at passes
    cases result with
    | ok object => exact passes
    | error e =>
      by_cases deep : e.isNestingLimit = true
      · dsimp only
        rw [if_pos deep]
        exact passes_deep deep
      · dsimp only
        rw [if_neg deep]
        exact passes

theorem rewinding_ok {program : Parse Object} {start : Nat} {object : Object}
    (ran : program.run.run t = (.ok object, last)) :
    (rewinding start program).run.run t = (.ok object, last) := by
  rw [rewinding, run_bind_outcome, ran]
  rfl

/-- Everything is taken back by an error of nesting. -/
theorem rewinding_deep {program : Parse Object} {start : Nat} {e : Error}
    (ran : program.run.run t = (.error e, last)) (deep : e.isNestingLimit = true) :
    (rewinding start program).run.run t = (.error e, ((Scan.seek start).run last).2) := by
  rw [rewinding, run_bind_outcome, ran]
  dsimp only
  rw [if_pos deep]
  rfl

theorem Meets.passes {program : Parse Object} {place : Nat} (behind : place < w.position)
    (meets : program.Meets t (fun _ u => u.AdvancedFrom w 0) fun _ u => u.AdvancedFrom w 0) :
    Passes place (program.run.run t) := by
  have past : program.run.Meets t fun _ u => u.AdvancedFrom w 0 := meets.run
  exact fun _ => Nat.lt_of_lt_of_le behind past.holds.behind

/-- A dictionary that has come behind a place ends behind it. -/
theorem InDictionary.passes {place : Nat} (inside : InDictionary resolve (levels + 1) t dict w)
    (covers : t.Covers text) (behind : place < w.position) :
    Passes place ((body resolve (levels + 1) .loose).run.run t) := by
  have start := covers.run Scan.word
  have here := (inside.covers covers).inside
  have advances : (body resolve levels .loose).Advances := body_advances levels .loose
  have rounds := entries_finishes advances .loose dict here
  have ends : (entries (body resolve levels .loose) .loose (w.size - w.position + 1) dict).Meets w
      (fun _ u => u.AdvancedFrom w 0) fun _ u => u.AdvancedFrom w 0 :=
    entries_meets advances _ dict (Reader.advancedFrom_self here)
  rw [body_dictionary covers inside.opens]
  apply passes_rewinding
  cases ran : (entries (body resolve levels .loose) .loose (w.size - w.position + 1) dict).run.run w with
  | mk result last =>
    rw [ran] at rounds
    rw [dictionary_rounds advances start.inside (inside.taken.finishes rounds)]
    cases result with
    | ok dict => exact (opened_meets dict (ends.value dict last ran)).passes behind
    | error e => exact fun _ => Nat.lt_of_lt_of_le behind (ends.error e last ran).behind

/-- So does an array. -/
theorem InArray.passes {place : Nat} (inside : InArray resolve (levels + 1) t objects w)
    (covers : t.Covers text) (behind : place < w.position) :
    Passes place ((body resolve (levels + 1) .loose).run.run t) := by
  have start := covers.run Scan.word
  have here := (inside.covers covers).inside
  have advances : (body resolve levels .loose).Advances := body_advances levels .loose
  have rounds := elements_finishes advances objects here
  have ends := elements_meets advances (w.size - w.position + 1) objects (Reader.advancedFrom_self here)
  rw [body_array covers inside.opens]
  apply passes_rewinding
  rw [array_rounds advances start.inside (inside.taken.finishes rounds)]
  have past : ((elements (body resolve levels .loose) (w.size - w.position + 1) objects).run.Meets w
    fun _ u => u.AdvancedFrom w 0) := ends.run
  exact fun _ => Nat.lt_of_lt_of_le behind past.holds.behind

/-- A round for an element. -/
theorem elementRound_run (element : Parse Object) (objects : List Object) (t : Reader) :
    (elementRound element objects).run t =
      (afterElement objects (element.run.run t).1, (element.run.run t).2) := by
  rw [elementRound, Scan.run_bind]
  cases (element.run.run t).1 <;> rfl

/-- A round for a key and its value. -/
theorem entryRound_run (value : Parse Object) (dict : Dictionary) {name : Bytes}
    (names : KeyWord.ofWord (Scan.word.run t).1.bytes = .key name) :
    (entryRound value .loose dict).run t = (afterValue name dict (value.run.run (Scan.word.run t).2).1,
      (value.run.run (Scan.word.run t).2).2) := by
  have nonempty : (Scan.word.run t).1.isEmpty = false := by
    cases bytes : (Scan.word.run t).1.bytes with
    | nil =>
      rw [bytes] at names
      cases names
    | cons b rest => rw [Word.isEmpty, bytes, List.isEmpty_cons]
  have here (u : Reader) : Scan.position.run u = (u.position, u) := rfl
  have lenient : (name.isEmpty && decide (Mode.loose = .strict)) = false := Bool.and_false _
  simp only [entryRound, Scan.run_bind, here, nonempty, names, lenient, Bool.false_eq_true, ↓reduceIte]
  cases (value.run.run (Scan.word.run t).2).1 with
  | ok object => rfl
  | error e =>
    dsimp only [afterValue]
    split <;> rfl

/-- The round that finds the end of the object puts it back. -/
theorem entryRound_endObject (value : Parse Object) (dict : Dictionary) (covers : t.Covers text)
    (found : (Scan.word.run t).1.bytes = Payload.endObject) :
    ∃ last, (entryRound value .loose dict).run t = (.done (.ok dict), last) ∧ last.Covers text ∧
      last.position = nextWord text t.position := by
  obtain ⟨same, behind⟩ := covers.endObject found
  have here (u : Reader) : Scan.position.run u = (u.position, u) := rfl
  have after := covers.run Scan.word
  refine ⟨((Scan.seek (nextWord text t.position)).run (Scan.word.run t).2).2, ?_, after.run _, ?_⟩
  · simp only [entryRound, Scan.run_bind, here, same, behind, Nat.add_sub_cancel]
    rfl
  · refine Nat.min_eq_left (Nat.le_trans ?_ after.inside)
    rw [behind]
    exact Nat.le_add_right _ _

/-- Whatever a value comes to, the dictionary goes on behind it, unless nesting is too deep. -/
theorem InDictionary.goes_on {name : Bytes} {result : Except Error Object}
    (inside : InDictionary resolve (levels + 1) t dict w)
    (names : KeyWord.ofWord (Scan.word.run w).1.bytes = .key name)
    (ran : (body resolve levels .loose).run.run (Scan.word.run w).2 = (result, last))
    (shallow : Shallow result) : ∃ dict, InDictionary resolve (levels + 1) t dict last := by
  have round := entryRound_run (body resolve levels .loose) dict names
  rw [ran] at round
  cases result with
  | ok object => exact ⟨_, inside.opens, inside.taken.again round⟩
  | error e =>
    simp only [afterValue, shallow e rfl, Bool.false_eq_true, ↓reduceIte] at round
    exact ⟨dict, inside.opens, inside.taken.again round⟩

/-- A value that is nested too deep ends its dictionary, and the cursor goes back. -/
theorem InDictionary.fails {name : Bytes} {e : Error} (inside : InDictionary resolve (levels + 1) t dict w)
    (covers : t.Covers text) (names : KeyWord.ofWord (Scan.word.run w).1.bytes = .key name)
    (ran : (body resolve levels .loose).run.run (Scan.word.run w).2 = (.error e, last))
    (deep : e.isNestingLimit = true) :
    ∃ u, (body resolve (levels + 1) .loose).run.run t = (.error e, u) ∧ u.position = t.position := by
  have round := entryRound_run (body resolve levels .loose) dict names
  rw [ran] at round
  simp only [afterValue, deep, ↓reduceIte] at round
  rw [body_dictionary covers inside.opens, rewinding_deep (dictionary_rounds (body_advances levels .loose)
    (covers.run Scan.word).inside (inside.taken.finishes (.done round))) deep]
  have later := ((inside.covers covers).run Scan.word).run (body resolve levels .loose).run
  rw [ran] at later
  exact ⟨_, rfl, later.seek_back covers⟩

/-- If a value gets behind a place, its dictionary does. -/
theorem InDictionary.nested {name : Bytes} {place : Nat}
    (inside : InDictionary resolve (levels + 1) t dict w) (covers : t.Covers text)
    (names : KeyWord.ofWord (Scan.word.run w).1.bytes = .key name)
    (passes : Passes place ((body resolve levels .loose).run.run (Scan.word.run w).2)) :
    Passes place ((body resolve (levels + 1) .loose).run.run t) := by
  cases ran : (body resolve levels .loose).run.run (Scan.word.run w).2 with
  | mk result last =>
    rw [ran] at passes
    rcases shallow_or_deep result with shallow | ⟨e, rfl, deep⟩
    · obtain ⟨dict, later⟩ := inside.goes_on names ran shallow
      exact later.passes covers (passes shallow)
    · obtain ⟨u, failed, _⟩ := inside.fails covers names ran deep
      rw [failed]
      exact passes_deep deep

theorem InArray.goes_on {object : Object} (inside : InArray resolve (levels + 1) t objects w)
    (ran : (body resolve levels .loose).run.run w = (.ok object, last)) :
    ∃ objects, InArray resolve (levels + 1) t objects last := by
  have round := elementRound_run (body resolve levels .loose) objects w
  rw [ran] at round
  exact ⟨_, inside.opens, inside.taken.again round⟩

/-- Where an element fails, its array ends, -/
theorem InArray.finishes {e : Error} (inside : InArray resolve (levels + 1) t objects w)
    (ran : (body resolve levels .loose).run.run w = (.error e, last)) :
    Finishes (elementRound (body resolve levels .loose)) [] (Scan.word.run t).2
      (if e.isNestingLimit then .error e else .ok objects.reverse) last := by
  have round := elementRound_run (body resolve levels .loose) objects w
  rw [ran] at round
  exact inside.taken.finishes (.done round)

/-- and the cursor goes back if the element is nested too deep. -/
theorem InArray.fails {e : Error} (inside : InArray resolve (levels + 1) t objects w)
    (covers : t.Covers text) (ran : (body resolve levels .loose).run.run w = (.error e, last))
    (deep : e.isNestingLimit = true) :
    ∃ u, (body resolve (levels + 1) .loose).run.run t = (.error e, u) ∧ u.position = t.position := by
  have ends := inside.finishes ran
  rw [if_pos deep] at ends
  rw [body_array covers inside.opens,
    rewinding_deep (array_rounds (body_advances levels .loose) (covers.run Scan.word).inside ends) deep]
  have later := (inside.covers covers).run (body resolve levels .loose).run
  rw [ran] at later
  exact ⟨_, rfl, later.seek_back covers⟩

/-- If an element gets behind a place, its array does: it goes on behind the element or ends with it. -/
theorem InArray.nested {place : Nat} (inside : InArray resolve (levels + 1) t objects w)
    (covers : t.Covers text)
    (passes : Passes place ((body resolve levels .loose).run.run w)) :
    Passes place ((body resolve (levels + 1) .loose).run.run t) := by
  cases ran : (body resolve levels .loose).run.run w with
  | mk result last =>
    rw [ran] at passes
    cases result with
    | ok object =>
      obtain ⟨objects, later⟩ := inside.goes_on ran
      exact later.passes covers (passes nofun)
    | error e =>
      by_cases deep : e.isNestingLimit = true
      · obtain ⟨u, failed, _⟩ := inside.fails covers ran deep
        rw [failed]
        exact passes_deep deep
      · have ends := inside.finishes ran
        rw [if_neg deep] at ends
        rw [body_array covers inside.opens]
        apply passes_rewinding
        rw [array_rounds (body_advances levels .loose) (covers.run Scan.word).inside ends]
        intro _
        exact passes fun _ same => by cases same; exact Bool.eq_false_iff.mpr deep

/-- Where a dictionary comes to the end of the object for a key, it ends. -/
theorem InDictionary.ends (inside : InDictionary resolve (levels + 1) t dict w) (covers : t.Covers text)
    (found : (Scan.word.run w).1.bytes = Payload.endObject) :
    EndsAt resolve (levels + 1) t (nextWord text w.position) := by
  have start := covers.run Scan.word
  have here := inside.covers covers
  obtain ⟨last, round, after, place⟩ :=
    entryRound_endObject (body resolve levels .loose) dict here found
  have again := (here.endObject_again after found place).1
  obtain ⟨refused, stays⟩ := after.accept_other (by rw [again]; decide)
  refine ⟨dict, w, _, inside, Lexis.le_nextWord _ _, ?_, stays.trans place⟩
  rw [body_dictionary covers inside.opens]
  apply rewinding_ok
  rw [dictionary_rounds (body_advances levels .loose) start.inside (inside.taken.finishes (.done round))]
  dsimp only
  rw [opened, run_bind_lift, refused]
  rfl

theorem payload_alone (ran : (payloadAlone dict resolve).run.run t = (.ok content, u)) :
    (payload dict resolve).run.run t = (.ok content, (skipEndStream.run u).2) := by
  simp only [payloadAlone, run_bind_lift] at ran
  simp only [payload, run_bind_lift]
  rw [run_bind] at ran
  split at ran
  · rename_i length after measured
    rw [run_bind_ok measured, run_bind_ok ran, run_bind_lift, run_pure]
  · cases ran

/-- A stream, with the step behind its payload. -/
theorem opened_alone (keyword : ((Scan.accept streamKeyword).run w).1 = true)
    (ran : (payloadAlone dict resolve).run.run ((Scan.accept streamKeyword).run w).2 = (.ok content, v)) :
    (opened resolve dict).run.run w = (.ok (.stream dict content), (skipEndStream.run v).2) := by
  rw [opened, run_bind_lift, keyword, if_pos rfl, run_bind_ok (payload_alone ran), run_pure]

theorem ReachesSite.covers (reaches : ReachesSite resolve levels site t v) (covers : t.Covers text) :
    v.Covers text := by
  induction reaches with
  | key inside => exact inside.covers covers
  | value inside => exact (inside.covers covers).run Scan.word
  | element inside => exact inside.covers covers
  | @tail t levels dict w v content opens closed keyword taken =>
    have ended := closed.preserves (fun _ _ covers => covers.run _) (covers.run Scan.word)
    have after := (ended.run (Scan.accept streamKeyword)).run (payloadAlone dict resolve).run
    rwa [taken] at after
  | entry inside _ _ ih => exact ih ((inside.covers covers).run Scan.word)
  | item inside _ ih => exact ih (inside.covers covers)

theorem ReachesSite.opens (reaches : ReachesSite resolve levels site t v) :
    (Scan.word.run t).1.bytes ≠ [] := by
  have start {opening : Bytes} (opens : (Scan.word.run t).1.bytes = opening) (some : opening ≠ []) :
      (Scan.word.run t).1.bytes ≠ [] := opens ▸ some
  cases reaches with
  | key inside | value inside | entry inside => exact start inside.opens nofun
  | element inside | item inside => exact start inside.opens nofun
  | tail opens => exact start opens nofun

/-- A word is met only where a level of nesting is left. -/
theorem ReachesSite.positive (reaches : ReachesSite resolve levels site t v) :
    ∃ fewer, levels = fewer + 1 := by
  cases reaches <;> exact ⟨_, rfl⟩

/-- The keyword at the start of an object is passed. -/
theorem body_passes (covers : t.Covers text) (found : (Scan.word.run t).1.bytes = Payload.endObject) :
    Passes (nextWord text t.position) ((body resolve (levels + 1) mode).run.run t) := by
  rw [body_endObject covers found]
  intro _
  rw [(covers.endObject found).2]
  exact Nat.lt_add_of_pos_right (by decide)

/-- What the keyword that ends an object comes to, wherever it is met. -/
theorem ReachesSite.ends (reaches : ReachesSite resolve levels site t v) (covers : t.Covers text)
    (found : (Scan.word.run v).1.bytes = Payload.endObject) :
    (site = .key → EndsAt resolve levels t (nextWord text v.position)) ∧
      (site ≠ .key → Passes (nextWord text v.position) ((body resolve levels .loose).run.run t)) := by
  induction reaches with
  | key inside => exact ⟨fun _ => inside.ends covers found, fun other => absurd rfl other⟩
  | value inside names =>
    have here := (inside.covers covers).run Scan.word
    exact ⟨nofun, fun _ => inside.nested covers names (body_passes here found)⟩
  | element inside =>
    have here := inside.covers covers
    exact ⟨nofun, fun _ => inside.nested covers (body_passes here found)⟩
  | tail opens closed keyword taken moved =>
    have here := (ReachesSite.tail opens closed keyword taken moved).covers covers
    refine ⟨nofun, fun _ => ?_⟩
    rw [body_dictionary covers opens]
    apply passes_rewinding
    rw [dictionary_rounds (body_advances _ .loose) (covers.run Scan.word).inside closed]
    dsimp only
    rw [opened_alone keyword taken]
    dsimp only [Passes]
    exact fun _ => here.skipEndStream_passes found moved
  | entry inside names later ih =>
    have here := (inside.covers covers).run Scan.word
    obtain ⟨key, other⟩ := ih here found
    refine ⟨fun same => ?_, fun different => inside.nested covers names (other different)⟩
    obtain ⟨_, _, last, _, _, ran, place⟩ := key same
    obtain ⟨dict, goesOn⟩ := inside.goes_on names ran nofun
    have after := goesOn.covers covers
    obtain ⟨again, stays⟩ := (later.covers here).endObject_again after found place
    rw [← stays]
    exact goesOn.ends covers again
  | @item t levels objects w site v inside later ih =>
    have here := inside.covers covers
    obtain ⟨key, other⟩ := ih here found
    refine ⟨fun same => absurd same site.within_ne, fun _ => ?_⟩
    by_cases same : site = .key
    · -- The dictionary has put the keyword back, and the array reads it for an element.
      obtain ⟨_, _, last, _, _, ran, place⟩ := key same
      obtain ⟨fewer, rfl⟩ := later.positive
      obtain ⟨objects, goesOn⟩ := inside.goes_on ran
      have after := goesOn.covers covers
      obtain ⟨again, stays⟩ := (later.covers here).endObject_again after found place
      rw [← stays]
      exact goesOn.nested covers (body_passes after again)
    · exact inside.nested covers (other same)

end Parse

namespace Reader
open Lexis (nextWord)

variable {document : Bytes} {r v : Reader} {resolve : Resolver} {site : Parse.Site}

theorem Whole.covers (whole : r.Whole document) (inside : r.position ≤ r.size) :
    r.Covers (document.drop r.origin) := ⟨⟨document, whole, rfl⟩, inside⟩

/-- Behind the last byte there is no word. -/
theorem Whole.inside_of_word (whole : r.Whole document) (some : (Scan.word.run r).1.bytes ≠ []) :
    r.position ≤ r.size := by
  by_contra outside
  have none : (document.drop r.origin).drop r.position = [] := by
    rw [whole.faithful.size] at outside
    exact List.drop_of_length_le (Nat.le_of_not_le outside)
  refine some ?_
  rw [← (whole.resident_run Scan.word).1, (Scan.word_place _).1]
  change (Lexis.word _ ((document.drop r.origin).drop r.position)).bytes = []
  rw [none]
  exact List.take_nil

/-- What the end of an object does to a dictionary that is not closed. Take any reader of a whole document,
and let the keyword that ends an object be met while an object is read there. If it is met where a key is
looked for and there are only dictionaries around, then a dictionary is read; it holds what had been taken
when the cursor was still in front of the keyword, and the cursor is left at the keyword. Wherever else it
is met, reading goes on behind it, whatever it comes to, unless nesting is too deep. -/
theorem Whole.dictionary_ends (whole : r.Whole document)
    (reaches : Parse.ReachesSite resolve (r.limits.nesting - r.limits.depth) site r v)
    (met : (Scan.word.run v).1.bytes = Payload.endObject) :
    (site = .key → ∃ dict w, Parse.InDictionary resolve (r.limits.nesting - r.limits.depth) r dict w ∧
      w.position ≤ nextWord (document.drop r.origin) v.position ∧
      ((Parse.object resolve).run.run r).1 = .ok (.dictionary dict) ∧
      ((Parse.object resolve).run.run r).2.position = nextWord (document.drop r.origin) v.position) ∧
    (site ≠ .key →
      Parse.Passes (nextWord (document.drop r.origin) v.position) ((Parse.object resolve).run.run r)) := by
  have covers := whole.covers (whole.inside_of_word reaches.opens)
  obtain ⟨key, other⟩ := reaches.ends covers met
  obtain ⟨same, place⟩ := whole.whole_same (Parse.anyObject resolve .loose)
  rw [Parse.anyObject_levels nesting] at same place
  constructor
  · intro here
    obtain ⟨dict, w, last, inside, before, ran, stops⟩ := key here
    rw [ran] at same place
    exact ⟨dict, w, inside, before, same, place.trans stops⟩
  · intro elsewhere shallow
    rw [Parse.object, place]
    exact other elsewhere fun e failed => shallow e (same.trans failed)

/-- The end of an object in place of a key, two dictionaries deep. -/
def keylessText : Bytes := Bytes.ofAscii "<</A<< endobj /B 2>>".toList

/-- The end of an object in place of a value. -/
def valuelessText : Bytes := Bytes.ofAscii "<</A endobj /B 2>>".toList

/-- Both dictionaries end at it, but where it stands for a value it is passed. -/
theorem valuelessText_passes :
    (∃ dict, ((Parse.object fun _ => none).run.run (ofText keylessText {})).1 = .ok (.dictionary dict)) ∧
      ((Parse.object fun _ => none).run.run (ofText keylessText {})).2.position = 7 ∧
      5 < ((Parse.object fun _ => none).run.run (ofText valuelessText {})).2.position := by
  have outer : Parse.InDictionary (fun _ => none) 1024 (ofText keylessText {}) []
      (Scan.word.run (ofText keylessText {})).2 := ⟨rfl, .here _ _⟩
  have inner : Parse.InDictionary (fun _ => none) 1023
      (Scan.word.run (Scan.word.run (ofText keylessText {})).2).2 []
      (Scan.word.run (Scan.word.run (Scan.word.run (ofText keylessText {})).2).2).2 := ⟨rfl, .here _ _⟩
  have key : Parse.ReachesSite (fun _ => none) 1024 .key (ofText keylessText {}) _ :=
    .entry outer rfl (.key inner)
  have mapping : Parse.InDictionary (fun _ => none) 1024 (ofText valuelessText {}) []
      (Scan.word.run (ofText valuelessText {})).2 := ⟨rfl, .here _ _⟩
  have value : Parse.ReachesSite (fun _ => none) 1024 .value (ofText valuelessText {}) _ := .value mapping rfl
  obtain ⟨dict, w, _, _, read, place⟩ := ((ofText_whole keylessText {}).dictionary_ends key rfl).1 rfl
  refine ⟨⟨dict, read⟩, place, ?_⟩
  refine ((ofText_whole valuelessText {}).dictionary_ends value rfl).2 nofun ?_
  intro e failed
  have read : ((Parse.object fun _ => none).run.run (ofText valuelessText {})).1 =
    .ok (.dictionary [(['B'.toUInt8], .integer 2)]) := rfl
  rw [read] at failed
  cases failed

end Reader
end PdfObjects
