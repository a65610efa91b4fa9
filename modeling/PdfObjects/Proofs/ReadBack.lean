import PdfObjects.Proofs.Closing
import PdfObjects.Proofs.Expectations

/-! Objects of any kind, read back from their written form. The induction is over the parts of an object,
in any text that is closed behind it. Each container takes one level of nesting; if an object needs more
levels than there are, some part of it does, or its closing bracket, and the first that does ends the
whole with the cursor back at the start. -/
namespace PdfObjects

open Lexis (IsWord Ends Closed)

namespace Parse

variable {resolve : Resolver} {levels : Nat} {mode : Mode} {t : Resident} {gap rest : Bytes}

/-- A program that ends because nesting is too deep. -/
def Refuses (program : Parse α) (t : Resident) : Prop :=
  ∃ after, program.run.run t = (.error (.nestingLimit t.limits.nesting), after)

/-- A program that takes so many levels. If there are as many it yields a value, and otherwise it is
refused. -/
structure Takes (need levels : Nat) (program : Parse α) (t : Resident) (value : α)
    (after : Resident) : Prop where
  reads : need ≤ levels → program.run.run t = (.ok value, after)
  refuses : levels < need → Refuses program t

/-- A first step that takes some levels, and a rest that takes some. -/
theorem Takes.step {first need : Nat} {program : Parse α} {value : α} {after : Resident}
    (passes : first ≤ levels → ∃ (later : Parse α) (u : Resident),
      program.run.run t = later.run.run u ∧ u.limits = t.limits ∧
        Takes need levels later u value after)
    (refuses : levels < first → Refuses program t) :
    Takes (max first need) levels program t value after := by
  constructor
  · intro enough
    obtain ⟨later, u, same, _, takes⟩ := passes (by omega)
    rw [same, takes.reads (by omega)]
  · intro short
    by_cases fits : first ≤ levels
    · obtain ⟨later, u, same, limits, takes⟩ := passes fits
      obtain ⟨refusedAt, refused⟩ := takes.refuses (by omega)
      exact ⟨refusedAt, by rw [same, refused, limits]⟩
    · exact refuses (Nat.lt_of_not_le fits)

theorem rewinding_run {program : Parse Object} {start : Nat} {after : Resident} {o : Object}
    (ran : program.run.run t = (.ok o, after)) :
    (rewinding start program).run.run t = (.ok o, after) := by
  rw [rewinding, run_bind_outcome, ran]
  rfl

/-- Where nesting is too deep, the cursor goes back. -/
theorem rewinding_refused {program : Parse Object} {start : Nat} (refused : Refuses program t)
    (inside : start ≤ t.bytes.length) :
    ∃ after, (rewinding start program).run.run t =
      (.error (.nestingLimit t.limits.nesting), after) ∧ after.position = start := by
  obtain ⟨after, ran⟩ := refused
  have same : after.bytes = t.bytes := by
    have continues := (Scan.run_continues program.run t).bytes
    rwa [ran] at continues
  refine ⟨{ after with position := start }, ?_, rfl⟩
  rw [rewinding, run_bind_outcome, ran]
  change (liftM (Scan.seek start) >>= fun _ => throw (.nestingLimit t.limits.nesting) :
    Parse Object).run.run after = _
  rw [run_bind_lift, Scan.seek_run (same ▸ inside)]
  rfl

/-- A reader in front of an object that was written, where the text behind it is closed. -/
structure Before (t : Resident) (gap : Bytes) (o : Object) (rest : Bytes) : Prop where
  stands : t.Stands (gap ++ (o.render ++ rest))
  blank : gap.all Byte.isWhitespace = true
  closed : Closed rest
  wide : 16 ≤ t.limits.wordLength
  writable : o.Writable t.limits.wordLength

/-- An object is read back if it does not need more levels than there are. Otherwise it is refused, and
the cursor ends where it was. -/
def ReadsBack (resolve : Resolver) (o : Object) : Prop :=
  ∀ levels mode t gap rest, Before t gap o rest →
    (o.height ≤ levels →
      Reads (body resolve levels mode) t (gap.length + o.render.length) o) ∧
    (levels < o.height → ∃ after, (body resolve levels mode).run.run t =
      (.error (.nestingLimit t.limits.nesting), after) ∧ after.position = t.position)

/-- The bracket that ends an array is read like an element, one level deeper. -/
theorem body_run_bracket (stands : t.Stands ([Byte.closeBracket] ++ rest))
    (wide : 16 ≤ t.limits.wordLength) :
    (body resolve (levels + 1) mode).run.run t =
      (.error (.unexpectedWord t.position [Byte.closeBracket]),
        (t.move 1).keep [Byte.closeBracket]) := by
  have fits : [Byte.closeBracket].length ≤ t.limits.wordLength := Nat.le_trans (by decide) wide
  rw [@body_run_piece resolve levels mode t [] [Byte.closeBracket] rest stands rfl
    (Object.closeBracket_word rest) fits]
  rfl

theorem Before.behind {o : Object} (before : Before t gap o rest) (kept : Bytes) :
    ((t.move (gap.length + o.render.length)).keep kept).Stands rest := by
  have later := before.stands.append.append.keep kept
  rwa [Resident.move_move] at later

theorem elements_step {element : Parse Object} {first : Object} {after : Resident}
    (ran : element.run.run t = (.ok first, after)) (value : first.isStream = false) (fuel : Nat)
    (taken : List Object) :
    (elements element (fuel + 1) taken).run.run t =
      (elements element fuel (first :: taken)).run.run after := by
  rw [elements, run_bind_outcome, ran]
  simp only [value, Bool.false_eq_true, ↓reduceIte]

theorem elements_refused {element : Parse Object} (refused : Refuses element t) (fuel : Nat)
    (taken : List Object) : Refuses (elements element (fuel + 1) taken) t := by
  obtain ⟨after, ran⟩ := refused
  refine ⟨after, ?_⟩
  rw [elements, run_bind_outcome, ran]
  rfl

/-- Elements are taken one after the other, up to the bracket behind them. If one of them needs more
levels than there are, or the bracket does, nothing is taken. -/
theorem elements_run {objects : List Object} (each : ∀ o ∈ objects, ReadsBack resolve o)
    (writable : Object.WritableElements t.limits.wordLength objects)
    (wide : 16 ≤ t.limits.wordLength) (stands : t.Stands (Object.listed gap objects ++ rest))
    (blank : gap.all Byte.isWhitespace = true) {fuel : Nat} (enough : objects.length < fuel)
    (taken : List Object) :
    Takes (max 1 (Object.heightElements objects)) levels
      (elements (body resolve levels .loose) fuel taken) t (taken.reverse ++ objects)
      ((t.move (Object.listed gap objects).length).keep [Byte.closeBracket]) := by
  induction objects generalizing t gap fuel taken with
  | nil =>
    obtain ⟨fuel, rfl⟩ := Nat.exists_eq_succ_of_ne_zero (Nat.ne_of_gt enough)
    cases levels with
    | zero =>
      refine ⟨fun above => ?_, fun _ => elements_refused ⟨t, rfl⟩ fuel taken⟩
      simp at above
    | succ levels =>
      refine ⟨fun _ => ?_, fun short => ?_⟩
      · rw [elements, run_bind_outcome, body_run_bracket stands wide, List.append_nil]
        rfl
      · simp [Object.heightElements] at short
  | cons first later ih =>
    obtain ⟨fuel, rfl⟩ := Nat.exists_eq_succ_of_ne_zero (Nat.ne_of_gt (Nat.zero_lt_of_lt enough))
    have before : Before t gap first (Object.renderElements later ++ rest) :=
      { stands := by simpa [Object.listed] using stands
        blank
        closed := Object.closed_elements writable.2
        wide
        writable := writable.1 }
    obtain ⟨reads, refuses⟩ := each first List.mem_cons_self levels .loose t gap _ before
    have total : (Object.listed gap (first :: later)).length = gap.length + first.render.length +
        (Object.listed [Byte.space] later).length := by
      rw [Object.listed_space]
      simp [Object.listed, Nat.add_assoc]
    rw [Object.heightElements, Nat.max_left_comm, total]
    apply Takes.step
    · intro fits
      obtain ⟨kept, ran⟩ := reads fits
      have behind := before.behind kept
      rw [← Object.listed_space] at behind
      have taking := @ih ((t.move (gap.length + first.render.length)).keep kept) [Byte.space]
        (fun o member => each o (List.mem_cons_of_mem first member)) writable.2 wide behind rfl fuel
        (Nat.lt_of_succ_lt_succ enough) (first :: taken)
      simp only [List.reverse_cons, List.append_assoc, List.cons_append, List.nil_append,
        Resident.keep_move, Resident.keep_keep, Resident.move_move] at taking
      exact ⟨_, _, elements_step ran before.writable.isStream_eq fuel taken, rfl, taking⟩
    · intro short
      obtain ⟨after, refused, _⟩ := refuses short
      exact elements_refused ⟨after, refused⟩ fuel taken

/-- A word where a dictionary expects a key. -/
theorem entries_run_piece {value : Parse Object} {piece : Bytes} {fuel : Nat} {dict : Dictionary}
    (stands : t.Stands ([Byte.space] ++ (piece ++ rest))) (isWord : IsWord piece rest)
    (fits : piece.length ≤ t.limits.wordLength) :
    (entries value mode (fuel + 1) dict).run.run t =
      (match KeyWord.ofWord piece with
        | .close => pure dict
        | .endObject => do
          Scan.seek (t.position + (1 + piece.length) - piece.length)
          pure dict
        | .other => entries value mode fuel dict
        | .key key => do
          if key.isEmpty && mode = .strict then
            Scan.nextLine
            throw (.badSyntax (t.position + (1 + piece.length) - piece.length) .emptyKey)
          match ← outcome value with
          | .ok object =>
            entries value mode fuel (if isEntry key object then dict.insert key object else dict)
          | .error e =>
            if e.isNestingLimit then throw e
            else if mode = .loose then entries value mode fuel dict
            else
              Scan.nextLine
              throw e : Parse Dictionary).run.run ((t.move (1 + piece.length)).keep piece) := by
  have read := (Scan.word_run_piece stands rfl isWord fits).1
  rw [List.length_singleton] at read
  have some := ne_true_of_eq_false (isWord.isEmpty (piece.all Byte.isNumeric))
  simp only [entries, run_bind_lift, Scan.position_run, read, Resident.keep_position, Resident.move_position]
  exact congrArg (fun program : Parse Dictionary => program.run.run _) (if_neg some)

/-- The reader behind the key of an entry. -/
def behindKey (t : Resident) (key : Bytes) : Resident :=
  (t.move (1 + (Name.render key).length)).keep (Name.render key)

/-- A key that was written, and whatever is read as its value. -/
theorem entries_run_key {value : Parse Object} {key : Bytes}
    (stands : t.Stands ([Byte.space] ++ (Name.render key ++ rest))) (ends : Ends rest)
    (some : key ≠ []) (fits : Name.Fits t.limits.wordLength key) (fuel : Nat) (dict : Dictionary) :
    (entries value mode (fuel + 1) dict).run.run t =
      (do
        match ← outcome value with
        | .ok object =>
          entries value mode fuel (if isEntry key object then dict.insert key object else dict)
        | .error e =>
          if e.isNestingLimit then throw e
          else if mode = .loose then entries value mode fuel dict
          else
            Scan.nextLine
            throw e : Parse Dictionary).run.run (behindKey t key) := by
  have word : KeyWord.ofWord (Name.render key) = .key key := by
    simp [Name.render, KeyWord.ofWord, Name.decode_encode fits.1]
  have nonempty : key.isEmpty = false := by simpa using some
  rw [entries_run_piece stands (Object.name_word key ends) fits.2, word]
  simp only [nonempty, Bool.false_and, Bool.false_eq_true, ↓reduceIte]
  rfl

/-- An entry whose key is above those before it goes to the end. -/
theorem entries_step {value : Parse Object} {key : Bytes} {object : Object} {after : Resident}
    {dict : Dictionary} (stands : t.Stands ([Byte.space] ++ (Name.render key ++ rest)))
    (ends : Ends rest) (writable : Object.WritableEntry t.limits.wordLength (key, object))
    (ran : value.run.run (behindKey t key) = (.ok object, after))
    (last : ∀ entry ∈ dict, entry.1 < key) (fuel : Nat) :
    (entries value mode (fuel + 1) dict).run.run t =
      (entries value mode fuel (dict ++ [(key, object)])).run.run after := by
  obtain ⟨some, fits, present, writable⟩ := writable
  have kept : isEntry key object = true := by
    simp [isEntry, writable.isStream_eq, present, some]
  rw [entries_run_key stands ends some fits, run_bind_outcome, ran]
  simp only [kept, ↓reduceIte, Dictionary.insert, Keyed.insert_last last]

theorem entries_refused {value : Parse Object} {key : Bytes} {object : Object}
    (stands : t.Stands ([Byte.space] ++ (Name.render key ++ rest))) (ends : Ends rest)
    (writable : Object.WritableEntry t.limits.wordLength (key, object))
    (refused : Refuses value (behindKey t key)) (fuel : Nat) (dict : Dictionary) :
    Refuses (entries value mode (fuel + 1) dict) t := by
  obtain ⟨after, ran⟩ := refused
  refine ⟨after, ?_⟩
  rw [entries_run_key stands ends writable.1 writable.2.1, run_bind_outcome, ran]
  rfl

/-- Entries are taken one after the other, up to the brackets behind them. Their order is the one in which
they are kept. -/
theorem entries_run {items : Dictionary} (each : ∀ item ∈ items, ReadsBack resolve item.2)
    (writable : Object.WritableEntries t.limits.wordLength items) (wide : 16 ≤ t.limits.wordLength)
    (stands : t.Stands (Object.renderEntries items ++ rest)) {fuel : Nat}
    (enough : items.length < fuel) {dict : Dictionary} (ordered : Keyed.Ordered (dict ++ items)) :
    Takes (Object.heightEntries items) levels
      (entries (body resolve levels .loose) mode fuel dict) t (dict ++ items)
      ((t.move (Object.renderEntries items).length).keep [Byte.greater, Byte.greater]) := by
  induction items generalizing t fuel dict with
  | nil =>
    obtain ⟨fuel, rfl⟩ := Nat.exists_eq_succ_of_ne_zero (Nat.ne_of_gt enough)
    have fits : [Byte.greater, Byte.greater].length ≤ t.limits.wordLength :=
      Nat.le_trans (by decide) wide
    refine ⟨fun _ => ?_, fun short => absurd short (Nat.not_lt_zero _)⟩
    rw [entries_run_piece stands (Lexis.isWord_pair (.inr rfl)) fits, List.append_nil]
    rfl
  | cons item later ih =>
    obtain ⟨fuel, rfl⟩ := Nat.exists_eq_succ_of_ne_zero (Nat.ne_of_gt (Nat.zero_lt_of_lt enough))
    obtain ⟨key, value⟩ := item
    have ends := Lexis.ends_space (value.render ++ (Object.renderEntries later ++ rest))
    rw [Object.entries_text] at stands
    have before : Before (behindKey t key) [Byte.space] value
        (Object.renderEntries later ++ rest) :=
      { stands := by simpa [behindKey] using stands.append.append.keep (Name.render key)
        blank := rfl
        closed := Object.closed_entries later
        wide
        writable := writable.1.2.2.2 }
    have total := congrArg List.length (Object.entries_text key value later [])
    simp only [List.append_nil, List.length_append, List.length_singleton] at total
    have last (entry : Bytes × Object) (member : entry ∈ dict) : entry.1 < key :=
      (List.pairwise_append.mp ordered).2.2 entry member (key, value) List.mem_cons_self
    obtain ⟨reads, refuses⟩ := each (key, value) List.mem_cons_self levels .loose _ _ _ before
    rw [Object.heightEntries, Object.heightEntry, total]
    apply Takes.step
    · intro fits
      obtain ⟨kept, ran⟩ := reads fits
      have step := @entries_step mode _ _ _ _ _ _ dict stands ends writable.1 ran last fuel
      have taking := @ih
        (((behindKey t key).move ([Byte.space].length + value.render.length)).keep kept)
        (fun item member => each item (List.mem_cons_of_mem (key, value) member)) writable.2 wide
        (before.behind kept) fuel (Nat.lt_of_succ_lt_succ enough) (dict ++ [(key, value)])
        (by simpa using ordered)
      simp only [List.append_assoc, List.cons_append, List.nil_append, behindKey,
        Resident.keep_move, Resident.keep_keep, Resident.move_move, List.length_singleton,
        Nat.add_assoc] at taking step
      exact ⟨_, _, step, rfl, taking⟩
    · intro short
      obtain ⟨after, refused, _⟩ := refuses short
      exact entries_refused stands ends writable.1 ⟨after, refused⟩ fuel dict

theorem array_run {element : Parse Object} {ahead : Bytes} {objects : List Object}
    {after : Resident} (standing : t.HasAhead ahead)
    (ran : (elements element (ahead.length + 1) []).run.run t = (.ok objects, after))
    (ended : after.lastWord.head? = some Byte.closeBracket) :
    (array element mode).run.run t = (.ok (.array objects), after) := by
  rw [array, run_bind_lift, Scan.remaining_run standing, run_bind_ok ran, run_bind_lift,
    Scan.lastWord_run, if_pos (.inr ended)]
  rfl

theorem array_refused {element : Parse Object} {ahead : Bytes} (standing : t.HasAhead ahead)
    (refused : Refuses (elements element (ahead.length + 1) []) t) :
    Refuses (array element mode) t := by
  obtain ⟨after, ran⟩ := refused
  refine ⟨after, ?_⟩
  rw [array, run_bind_lift, Scan.remaining_run standing, run_bind_error ran]

theorem dictionary_run {value : Parse Object} {ahead kept : Bytes} {dict : Dictionary}
    {after : Resident} (standing : t.HasAhead ahead)
    (ran : (entries value mode (ahead.length + 1) []).run.run t = (.ok dict, after))
    (noStream : (Scan.accept streamKeyword).run after = (false, after.keep kept)) :
    (dictionary value resolve mode).run.run t = (.ok (.dictionary dict), after.keep kept) := by
  rw [dictionary, run_bind_lift, Scan.remaining_run standing, run_bind_ok ran, run_bind_lift, noStream]
  rfl

theorem dictionary_refused {value : Parse Object} {ahead : Bytes} (standing : t.HasAhead ahead)
    (refused : Refuses (entries value mode (ahead.length + 1) []) t) :
    Refuses (dictionary value resolve mode) t := by
  obtain ⟨after, ran⟩ := refused
  refine ⟨after, ?_⟩
  rw [dictionary, run_bind_lift, Scan.remaining_run standing, run_bind_error ran]

/-- A container is read back if what stands behind its opening bracket is, with one level less. -/
theorem readsBack_container {o : Object} {opening inside : Bytes} {need : Nat}
    {program : Nat → Mode → Parse Object} (height : o.height = need + 1)
    (text : ∀ rest, o.render ++ rest = opening ++ (inside ++ rest))
    (isWord : ∀ rest, IsWord opening rest) (short : opening.length ≤ 16)
    (opens : ∀ levels mode (t : Resident) gap rest, t.Stands (gap ++ (opening ++ rest)) →
      gap.all Byte.isWhitespace = true → opening.length ≤ t.limits.wordLength →
      (body resolve (levels + 1) mode).run.run t =
        (rewinding t.position (program levels mode)).run.run
          ((t.move (gap.length + opening.length)).keep opening))
    (runs : ∀ levels mode (t : Resident) rest, t.Stands (inside ++ rest) → Closed rest →
      16 ≤ t.limits.wordLength → o.Writable t.limits.wordLength →
      (need ≤ levels → Reads (program levels mode) t inside.length o) ∧
        (levels < need → Refuses (program levels mode) t)) :
    ReadsBack resolve o := by
  intro levels mode t gap rest before
  rw [height]
  cases levels with
  | zero => exact ⟨fun enough => absurd enough (by omega), fun _ => ⟨t, rfl, rfl⟩⟩
  | succ levels =>
    obtain ⟨stands, blank, closed, wide, writable⟩ := before
    have fits := Nat.le_trans short wide
    rw [text] at stands
    have lead := opens levels mode t gap _ stands blank fits
    have later := (Scan.word_run_piece stands blank (isWord _) fits).2
    obtain ⟨reads, refuses⟩ := runs levels mode _ rest later closed wide writable
    constructor
    · intro enough
      obtain ⟨kept, ran⟩ := reads (by omega)
      refine ⟨kept, ?_⟩
      have total := congrArg List.length (text [])
      simp only [List.append_nil, List.length_append] at total
      rw [lead, rewinding_run ran, total]
      simp only [Resident.keep_move, Resident.keep_keep, Resident.move_move, Nat.add_assoc]
    · intro short
      obtain ⟨after, ran, place⟩ := rewinding_refused (refuses (by omega)) stands.within
      exact ⟨after, lead.trans ran, place⟩

/-- An array is read back if its elements are. -/
theorem readsBack_array {objects : List Object} (each : ∀ o ∈ objects, ReadsBack resolve o) :
    ReadsBack resolve (.array objects) := by
  apply readsBack_container rfl (Object.array_text objects) Object.bracket_word (by decide)
  · intro levels mode t gap rest stands blank fits
    rw [body_run_piece stands blank (Object.bracket_word rest) fits]
    rfl
  · intro levels mode t rest stands closed wide writable
    obtain ⟨taking, refusing⟩ := @elements_run resolve levels t [] rest objects each writable wide
      stands rfl _ (Object.length_listed objects rest) []
    constructor
    · intro enough
      exact ⟨_, array_run stands.toHasAhead (taking enough) rfl⟩
    · intro short
      exact array_refused stands.toHasAhead (refusing short)

/-- A dictionary is read back if its values are. -/
theorem readsBack_dictionary {items : Dictionary} (each : ∀ item ∈ items, ReadsBack resolve item.2) :
    ReadsBack resolve (.dictionary items) := by
  have isWord (rest : Bytes) : IsWord [Byte.less, Byte.less] rest := Lexis.isWord_pair (.inl rfl)
  apply readsBack_container rfl (Object.dictionary_text items) isWord (by decide)
  · intro levels mode t gap rest stands blank fits
    rw [body_run_piece stands blank (isWord rest) fits]
    rfl
  · intro levels mode t rest stands closed wide writable
    obtain ⟨taking, refusing⟩ := @entries_run resolve levels mode t rest items each writable.2 wide
      stands _ (Object.length_renderEntries items rest) [] writable.1
    constructor
    · intro enough
      have behind := stands.append.keep [Byte.greater, Byte.greater]
      obtain ⟨kept, noStream⟩ := @Scan.accept_run _ _ streamKeyword _ behind rfl closed.notStream
      refine ⟨kept, ?_⟩
      rw [dictionary_run stands.toHasAhead (taking enough) noStream, Resident.keep_keep]
      rfl
    · intro short
      exact dictionary_refused stands.toHasAhead (refusing short)

/-- An object that takes one level is read back if it is read wherever there is one. -/
theorem readsBack_atom {o : Object} (height : o.height = 1)
    (reads : ∀ {levels mode t gap rest}, Before t gap o rest →
      Reads (body resolve (levels + 1) mode) t (gap.length + o.render.length) o) :
    ReadsBack resolve o := by
  intro levels mode t gap rest before
  rw [height]
  cases levels with
  | zero => exact ⟨fun above => absurd above (by omega), fun _ => ⟨t, rfl, rfl⟩⟩
  | succ levels => exact ⟨fun _ => reads before, fun above => absurd above (by omega)⟩

/-- Every object is read back, as its parts are. -/
theorem readsBack (o : Object) : ReadsBack resolve o := by
  induction o using Object.parts_induction with
  | step o parts =>
    cases o with
    | null =>
      refine readsBack_atom rfl fun before => ?_
      exact Object.reads_keyword before.stands before.blank (Object.null_word before.closed.ends)
        (Nat.le_trans (by decide) before.wide) (by decide) rfl
    | boolean value =>
      refine readsBack_atom rfl fun before => ?_
      have isWord := Object.boolean_word value before.closed.ends
      cases value with
      | true =>
        exact Object.reads_keyword before.stands before.blank isWord
          (Nat.le_trans (by decide) before.wide) (by decide) rfl
      | false =>
        exact Object.reads_keyword before.stands before.blank isWord
          (Nat.le_trans (by decide) before.wide) (by decide) rfl
    | integer n =>
      exact readsBack_atom rfl fun before =>
        Object.reads_integer before.stands before.blank before.closed before.wide before.writable
    | real x =>
      exact readsBack_atom rfl fun before => before.writable.elim
    | string string hex =>
      refine readsBack_atom rfl fun before => ?_
      cases hex with
      | true => exact Object.reads_hexString before.stands before.blank before.wide
      | false => exact Object.reads_literalString before.stands before.blank before.wide
    | name name =>
      exact readsBack_atom rfl fun before =>
        Object.reads_name before.stands before.blank before.closed.ends before.writable
    | array objects => exact readsBack_array parts
    | dictionary items =>
      exact readsBack_dictionary fun item member => parts item.2 (List.mem_map_of_mem member)
    | stream items payload => exact fun _ _ _ _ _ before => before.writable.elim
    | reference number generation =>
      refine readsBack_atom rfl fun before => ?_
      obtain ⟨present, below, small⟩ := before.writable
      exact Object.reads_reference before.stands before.blank before.closed.ends before.wide present
        below small

end Parse
end PdfObjects
