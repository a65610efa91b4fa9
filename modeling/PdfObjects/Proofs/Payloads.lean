import PdfObjects.Proofs.Sticky
import PdfObjects.Proofs.Streams
import PdfObjects.Proofs.Trailers

/-! Streams as they stand in a document, between whatever blanks, comments and line endings. Where a
dictionary ends is left to the reading of dictionaries; behind it comes the keyword that opens a stream,
then the end of that line, and then the payload. If the dictionary declares its length rightly, nothing in
the payload is looked at, so it may hold anything, its own terminators included. -/
namespace PdfObjects

namespace Lexis

variable {text gap opening after more : Bytes}

/-- Whether a text consists of blanks and closed comments only, behind the start of a comment or not. -/
def isGap : (comment : Bool) → Bytes → Bool
  | comment, [] => !comment
  | false, b :: rest =>
    if Byte.isWhitespace b then isGap false rest else b == Byte.percent && isGap true rest
  | true, b :: rest => isGap (!Byte.isLineEnding b) rest

/-- All of it is skipped, and then skipping goes on. -/
theorem skipped_isGap {comment : Bool} (closed : isGap comment gap = true) (text : Bytes) :
    skipped comment (gap ++ text) = gap.length + skipped false text := by
  induction gap generalizing comment with
  | nil =>
    cases comment with
    | true => cases closed
    | false => simp
  | cons b gap ih =>
    cases comment with
    | true =>
      simp only [isGap] at closed
      simp only [List.cons_append, skipped, ih closed, List.length_cons]
      omega
    | false =>
      simp only [isGap] at closed
      by_cases blank : Byte.isWhitespace b = true
      · simp only [blank, ↓reduceIte] at closed
        simp only [List.cons_append, skipped, blank, ↓reduceIte, ih closed, List.length_cons]
        omega
      · simp only [blank, Bool.false_eq_true, ↓reduceIte, Bool.and_eq_true, beq_iff_eq] at closed
        obtain ⟨rfl, inside⟩ := closed
        simp only [List.cons_append, skipped, blank, Bool.false_eq_true, ↓reduceIte, ih inside,
          List.length_cons]
        omega

/-- The line endings. -/
def lineEndings : List Bytes :=
  [[Byte.carriageReturn], [Byte.lineFeed], [Byte.carriageReturn, Byte.lineFeed]]

/-- A line ending, or nothing, in front of a text that does not start with a line ending. -/
theorem endingLength_append {ending : Bytes} (kind : ending = [] ∨ ending ∈ lineEndings)
    {b : UInt8} (plain : Byte.isLineEnding b = false) (rest : Bytes) :
    endingLength (ending ++ b :: rest) = ending.length := by
  simp only [Byte.isLineEnding, Bool.or_eq_false_iff, beq_eq_false_iff_ne] at plain
  simp only [lineEndings, List.mem_cons, List.not_mem_nil, or_false] at kind
  have other : Byte.lineFeed ≠ Byte.carriageReturn := by decide
  rcases kind with rfl | rfl | rfl | rfl <;> simp [endingLength, plain, other]

/-- More text changes nothing about the end of a line, unless it starts with a line feed. -/
theorem Terminates.append (ends : Terminates opening after) (other : more.head? ≠ some Byte.lineFeed) :
    Terminates opening (after ++ more) := by
  cases ends with
  | pair => exact .pair _
  | feed => exact .feed _
  | lone alone =>
    refine .lone ?_
    cases after with
    | nil => exact other
    | cons b after => exact alone

end Lexis

namespace Reader

variable {document : Bytes} {r : Reader}

/-- Over a whole document every run goes as it does over the bytes, whatever flags are up and whatever has
been recorded. -/
theorem Whole.image_run (whole : r.Whole document) (program : Scan α) :
    program.run (r.mirror document).unrecorded =
      ((program.run r).1, ((program.run r).2.mirror document).unrecorded) := by
  have cleared : (r.flagged {}).Whole document :=
    ⟨⟨whole.gate.source, whole.gate.opens⟩, whole.origin, whole.window⟩
  have image := cleared.mirror_run rfl program
  have flags := remember_run program r.gate.problems [] (r.flagged {})
  rw [← flagged_eq_remember] at flags
  change program.run r = _ at flags
  change program.run (r.mirror document) = _ at image
  rw [Scan.run_unrecorded, image, flags]
  rfl

/-- It yields the same and ends at the same place. -/
theorem Whole.resident_run (whole : r.Whole document) (program : Scan α) :
    (program.run (r.mirror document).unrecorded).1 = (program.run r).1 ∧
      (program.run (r.mirror document).unrecorded).2.position = (program.run r).2.position := by
  rw [whole.image_run]
  exact ⟨rfl, rfl⟩

/-- So does a call that is a session of its own. -/
theorem Whole.whole_run (whole : r.Whole document) (body : Parse α) :
    ((Parse.whole body).run.run r).1 = (body.run.run (r.mirror document).unrecorded).1 := by
  have same := (whole.resident_run (Parse.whole body).run).1
  rw [Parse.whole_resident] at same
  exact same.symm

end Reader

namespace Scan

variable {t : Resident} {gap rest opening content ending : Bytes}

/-- The line of the opening keyword ends in front of the payload, as the keyword behind that does not start
with a line feed. -/
theorem nextLine_opens {b : UInt8} (standing : t.HasAhead (opening ++ (content ++ (ending ++ b :: rest))))
    (opens : Lexis.Terminates opening (content ++ ending)) (other : b ≠ Byte.lineFeed) :
    nextLine.run t = ((), t.move opening.length) := by
  refine nextLine_passes standing ?_
  rw [← List.append_assoc]
  exact opens.append fun feed => other (Option.some.inj feed)

/-- The keyword that opens a stream, behind blanks and comments. -/
theorem accept_stream (stands : t.Stands (gap ++ (Parse.streamKeyword ++ rest)))
    (closed : Lexis.isGap false gap = true) (ends : Lexis.Ends rest)
    (wide : 16 ≤ t.limits.wordLength) : (accept Parse.streamKeyword).run t =
      (true, (t.move (gap.length + Parse.streamKeyword.length)).keep Parse.streamKeyword) := by
  have isWord : Lexis.IsWord Parse.streamKeyword rest := Lexis.isWord_run (by decide) rfl ends
  have skipped := Lexis.skipped_isGap closed (Parse.streamKeyword ++ rest)
  rw [isWord.starts, Nat.add_zero] at skipped
  have short : Parse.streamKeyword.length ≤ t.limits.wordLength := Nat.le_trans (by decide) wide
  have read := word_run stands.toHasAhead
  simp only [Lexis.word, Lexis.reach, skipped, List.drop_left, isWord.whole, Word.ofLexeme,
    List.take_of_length_le short] at read
  simp only [accept, attempt, run_bind, position_run, read, ↓reduceIte]
  rfl

/-- The keyword that ends a stream, behind at most one line ending. It may go on with other bytes. -/
theorem endStreamFollows_found
    (stands : t.Stands (ending ++ (Payload.endStream ++ rest)))
    (kind : ending = [] ∨ ending ∈ Lexis.lineEndings) (wide : 16 ≤ t.limits.wordLength) :
    ∃ last : Resident, endStreamFollows.run t = ((true, false), last) ∧ last.bytes = t.bytes := by
  have letters : Payload.endStream = 'e'.toUInt8 :: Payload.endStream.tail := rfl
  have length : Lexis.endingLength (t.bytes.drop t.position) = ending.length := by
    rw [stands.ahead, letters]
    exact Lexis.endingLength_append kind rfl _
  have skip : (seek (t.position + ending.length)).run t = ((), t.move ending.length) :=
    seek_run stands.append.within
  have inner : ∀ b ∈ Payload.endStream.tail, Lexis.isInner b = true := List.all_eq_true.mp rfl
  have lexeme : Lexis.lexeme (Payload.endStream ++ rest) =
      Payload.endStream ++ rest.takeWhile Lexis.isInner := by
    rw [letters]
    simp only [List.cons_append, Lexis.lexeme, List.takeWhile_append_of_pos inner]
    rfl
  have read := rawWord_run stands.append.toHasAhead
  have skipped : Lexis.skipped false (Payload.endStream ++ rest) = 0 := rfl
  simp only [Lexis.word, skipped, List.drop_zero, lexeme, Word.ofLexeme] at read
  have starts : Payload.endStream.isPrefixOf ((Payload.endStream ++
      rest.takeWhile Lexis.isInner).take t.limits.wordLength) = true := by
    rw [List.isPrefixOf_iff_prefix, List.prefix_take_iff]
    exact ⟨List.prefix_append _ _, Nat.le_trans (by decide) wide⟩
  refine ⟨_, ?_, run_bytes endStreamFollows t⟩
  refine Prod.ext ?_ rfl
  rw [endStreamFollows, session_resident]
  simp only [run_bind, position_run, lineEndingAt_length, length, skip, read]
  exact Prod.ext starts rfl

end Scan

namespace Parse

variable {resolve : Resolver} {dict : Dictionary} {t u v last : Resident}
  {gap rest opening ending content : Bytes}

/-- Reads a dictionary up to its end. What is nested in it is read by `inner`. -/
def headOf (inner : Parse Object) : Parse Dictionary := do
  let start ← Scan.position
  let word ← Scan.word
  if word.bytes = [Byte.less, Byte.less] then entries inner .loose ((← Scan.remaining) + 1) []
  else throw (.unexpectedWord start word.bytes)

/-- Reads a dictionary up to its end, as an object on the next level of nesting, without a look at what
follows. -/
def dictionaryHead (resolve : Resolver) : Parse Dictionary := do
  let settings ← Scan.settings
  guarded (headOf (bodyFrom resolve settings.nesting .loose))

theorem headOf_flattens {inner other : Parse Object} {levels : Nat} (flattens : Flattens levels inner other) :
    Flattens levels (headOf inner) (headOf other) := by
  refine flattens_lift_andThen Scan.position_skipping fun start =>
    flattens_lift_andThen Scan.word_skipping fun word => ?_
  refine flattens_ite ?_ (flattens_self (skipping_throw _))
  exact flattens_lift_andThen Scan.remaining_skipping fun _ => entries_flattens flattens _ _

/-- The head is read within the levels that are left. -/
theorem dictionaryHead_none (full : t.limits.nesting - t.limits.depth = 0) :
    (dictionaryHead resolve).run.run t = (.error (.nestingLimit t.limits.nesting), t) :=
  guarded_none Resident.nesting full _

theorem dictionaryHead_some {levels : Nat} (left : t.limits.nesting - t.limits.depth = levels + 1) :
    (dictionaryHead resolve).run.run t = (headOf (body resolve levels .loose)).run.run t := by
  have flattens : Flattens levels (bodyFrom resolve t.limits.nesting .loose)
      (body resolve (min t.limits.nesting levels) .loose) := bodyFrom_flattens _ _
  rw [Nat.min_eq_right (by omega)] at flattens
  exact guarded_some Resident.nesting left (headOf_flattens flattens)

/-- The brackets that open a dictionary are no number, however little is kept of words. -/
theorem brackets_numeric (t : Resident) (read : (Scan.word.run t).1.bytes = [Byte.less, Byte.less]) :
    (Scan.word.run t).1.numeric = false := by
  rw [(Scan.word_place t).1] at read ⊢
  simp only [Lexis.word, Word.ofLexeme] at read ⊢
  generalize Lexis.lexeme _ = lexeme at read ⊢
  cases lexeme with
  | nil => simp at read
  | cons b lexeme =>
    have first := congrArg List.head? read
    rw [List.head?_take] at first
    split at first
    · cases first
    · cases first
      rfl

/-- An object that starts with a dictionary goes on behind that. -/
theorem object_run_head (head : (dictionaryHead resolve).run.run t = (.ok dict, u)) :
    (anyObject resolve .loose).run.run t = (rewinding t.position (opened resolve dict)).run.run u := by
  rw [anyObject_run]
  cases left : t.limits.nesting - t.limits.depth with
  | zero =>
    rw [dictionaryHead_none left] at head
    cases head
  | succ levels =>
    rw [dictionaryHead_some left, headOf, run_bind_lift, Scan.position_run, run_bind_lift] at head
    by_cases opens : (Scan.word.run t).1.bytes = [Byte.less, Byte.less]
    · rw [if_pos opens] at head
      have nonempty : (Scan.word.run t).1.isEmpty = false := by simp [Word.isEmpty, opens]
      have lead : Lead.ofWord (Scan.word.run t).1.bytes = .dictionary := by rw [opens]; rfl
      have ran : (dictionary (body resolve levels .loose) resolve .loose).run.run
          (Scan.word.run t).2 = (opened resolve dict).run.run u := by
        rw [run_bind_lift] at head
        rw [dictionary, run_bind_lift, run_bind_ok head, opened]
      rw [body, announced, run_bind_lift, Scan.position_run, run_bind_lift]
      simp only [nonempty, Bool.false_eq_true, ↓reduceIte, brackets_numeric t opens, lead]
      rw [rewinding, run_bind_outcome, ran, rewinding, run_bind_outcome]
    · rw [if_neg opens] at head
      cases head

/-- Behind the keyword it is the payload that decides, unless nesting is too deep. -/
theorem object_run_payload {result : Except Error Bytes}
    (head : (dictionaryHead resolve).run.run t = (.ok dict, u))
    (keyword : (Scan.accept streamKeyword).run u = (true, v))
    (taken : (payload dict resolve).run.run v = (result, last))
    (shallow : ∀ e, result = .error e → e.isNestingLimit = false) :
    (anyObject resolve .loose).run.run t = (result.map (.stream dict), last) := by
  have ran : (opened resolve dict).run.run u = (result.map (.stream dict), last) := by
    rw [opened, run_bind_lift, keyword]
    simp only [↓reduceIte]
    cases result with
    | ok content =>
      rw [run_bind_ok taken]
      rfl
    | error e =>
      rw [run_bind_error taken]
      rfl
  rw [object_run_head head, rewinding, run_bind_outcome, ran]
  cases result with
  | ok content => rfl
  | error e =>
    simp only [Except.map, shallow e rfl, Bool.false_eq_true, ↓reduceIte]
    rfl

/-- A payload whose length is declared rightly, whatever its bytes are. -/
theorem payload_declared
    (stands : t.Stands (opening ++ (content ++ (ending ++ (Payload.endStream ++ rest)))))
    (opens : Lexis.Terminates opening (content ++ ending))
    (kind : ending = [] ∨ ending ∈ Lexis.lineEndings)
    (declared : Payload.declaredLength dict resolve = some content.length)
    (wide : 16 ≤ t.limits.wordLength) :
    ∃ last, (payload dict resolve).run.run t = (.ok content, last) := by
  have inside := stands.append
  have line : Scan.nextLine.run t = ((), t.move opening.length) :=
    Scan.nextLine_opens (b := 'e'.toUInt8) stands.toHasAhead opens (by decide)
  have further : ending ++ (Payload.endStream ++ rest) ≠ [] := by
    simp [Payload.endStream, Bytes.ofAscii]
  obtain ⟨after, found, bytes⟩ := Scan.endStreamFollows_found inside.append kind wide
  exact ⟨_, payload_taken line inside (payloadLength_declared inside further declared found) bytes⟩

end Parse

namespace Payload

/-- The key of the entry that gives the length of a payload. -/
def lengthKey : Bytes := Bytes.ofAscii ['L', 'e', 'n', 'g', 't', 'h']

/-- The length of a payload as an integer in the dictionary, or behind a reference there. -/
inductive Declared (dict : Dictionary) (resolve : Resolver) (length : Nat) : Prop where
  | direct (entry : dict.get? lengthKey = some (.integer length))
  | indirect {number generation : Nat} (entry : dict.get? lengthKey = some (.reference number generation))
    (resolved : resolve number = some (.integer length))

theorem Declared.length {dict : Dictionary} {resolve : Resolver} {length : Nat}
    (declared : Declared dict resolve length) : declaredLength dict resolve = some length := by
  unfold declaredLength
  rw [← lengthKey]
  cases declared with
  | direct entry => simp [entry, Object.asInteger]
  | indirect entry resolved => simp [entry, resolved, Object.asInteger]

end Payload

namespace Reader

variable {document gap opening content ending rest : Bytes} {r : Reader} {resolve : Resolver}
  {dict : Dictionary}

/-- The same with the place at which the call ends. -/
theorem Whole.whole_position (whole : r.Whole document) (body : Parse α) :
    ((Parse.whole body).run.run r).2.position =
      (body.run.run (r.mirror document).unrecorded).2.position := by
  have same := (whole.resident_run (Parse.whole body).run).2
  rw [Parse.whole_resident] at same
  exact same.symm

/-- So it comes to what its body comes to. -/
theorem Whole.whole_same (whole : r.Whole document) (body : Parse α) :
    ((Parse.whole body).run.run r).1 = (body.run.run r).1 ∧
      ((Parse.whole body).run.run r).2.position = (body.run.run r).2.position := by
  obtain ⟨same, place⟩ := whole.resident_run body.run
  exact ⟨(whole.whole_run body).trans same, (whole.whole_position body).trans place⟩

/-- A dictionary, over the bytes themselves. -/
theorem Whole.head_run (whole : r.Whole document)
    (head : ((Parse.dictionaryHead resolve).run.run r).1 = .ok dict) :
    ∃ u : Resident, (Parse.dictionaryHead resolve).run.run (r.mirror document).unrecorded = (.ok dict, u) ∧
      u.HasAhead (document.drop (r.origin + ((Parse.dictionaryHead resolve).run.run r).2.position)) ∧
      16 ≤ u.limits.wordLength ∧ u.bytes = document.drop r.origin ∧
      u.position = ((Parse.dictionaryHead resolve).run.run r).2.position := by
  obtain ⟨same, place⟩ := whole.resident_run (Parse.dictionaryHead resolve).run
  have continues := (Parse.dictionaryHead resolve).run.run_continues (r.mirror document).unrecorded
  have quiet : ((Parse.dictionaryHead resolve).run.run (r.mirror document).unrecorded).2.trailerEnds =
      none := by rw [Scan.run_unrecorded]; rfl
  have bytes : ((Parse.dictionaryHead resolve).run.run (r.mirror document).unrecorded).2.bytes =
      document.drop r.origin := continues.bytes
  refine ⟨_, Prod.ext (same.trans head) rfl, ⟨?_, quiet⟩, ?_, bytes, place⟩
  · rw [bytes, place, List.drop_drop]
  · rw [continues.limits]
    exact Nat.le_max_right _ _

/-- A dictionary and the keyword behind it, over the bytes themselves: what is left is the payload. -/
theorem Whole.stream_at (whole : r.Whole document)
    (head : ((Parse.dictionaryHead resolve).run.run r).1 = .ok dict)
    (closed : Lexis.isGap false gap = true) (ends : Lexis.Ends rest)
    (text : document.drop (r.origin + ((Parse.dictionaryHead resolve).run.run r).2.position) =
      gap ++ (Parse.streamKeyword ++ rest)) :
    ∃ v : Resident, v.Stands rest ∧ 16 ≤ v.limits.wordLength ∧ v.bytes = document.drop r.origin ∧
      v.position = ((Parse.dictionaryHead resolve).run.run r).2.position +
        (gap.length + Parse.streamKeyword.length) ∧
      ∀ result last, (Parse.payload dict resolve).run.run v = (result, last) →
        (∀ e, result = .error e → e.isNestingLimit = false) →
        ((Parse.object resolve).run.run r).1 = result.map (.stream dict) ∧
          ((Parse.object resolve).run.run r).2.position = last.position := by
  obtain ⟨u, read, standing, wide, bytes, place⟩ := whole.head_run head
  rw [text] at standing
  have stands : u.Stands (gap ++ (Parse.streamKeyword ++ rest)) := by
    refine ⟨standing, ?_⟩
    by_contra outside
    have ahead := standing.ahead
    rw [List.drop_of_length_le (Nat.le_of_not_le outside)] at ahead
    simp [Parse.streamKeyword, Bytes.ofAscii] at ahead
  have keyword := Scan.accept_stream stands closed ends wide
  have behind := stands.append.append.keep Parse.streamKeyword
  rw [Resident.move_move] at behind
  refine ⟨_, behind, wide, bytes, ?_, fun result last taken shallow => ?_⟩
  · rw [← place]
    rfl
  · have ran := Parse.object_run_payload read keyword taken shallow
    rw [Parse.object, whole.whole_run, whole.whole_position, ran]
    exact ⟨rfl, rfl⟩

/-- A payload that is read makes a stream. -/
theorem Whole.stream_behind (whole : r.Whole document)
    (head : ((Parse.dictionaryHead resolve).run.run r).1 = .ok dict)
    (closed : Lexis.isGap false gap = true) (ends : Lexis.Ends rest)
    (text : document.drop (r.origin + ((Parse.dictionaryHead resolve).run.run r).2.position) =
      gap ++ (Parse.streamKeyword ++ rest)) :
    ∃ v : Resident, v.Stands rest ∧ 16 ≤ v.limits.wordLength ∧ v.bytes = document.drop r.origin ∧
      v.position = ((Parse.dictionaryHead resolve).run.run r).2.position +
        (gap.length + Parse.streamKeyword.length) ∧
      ∀ content last, (Parse.payload dict resolve).run.run v = (.ok content, last) →
        ((Parse.object resolve).run.run r).1 = .ok (.stream dict content) := by
  obtain ⟨v, stands, wide, bytes, place, reads⟩ := whole.stream_at head closed ends text
  exact ⟨v, stands, wide, bytes, place, fun content last taken => (reads _ last taken nofun).1⟩

/-- A length that is right is honoured. Take any reader of a whole document, wherever it stands, and let it
stand at a dictionary that gives the length of a payload as an integer, directly or behind a reference. If
the dictionary is followed, behind blanks and comments, by the keyword that opens a stream, the end of that
line, the payload, at most one line ending and the keyword that ends a stream, then the stream is read,
with this dictionary and exactly this payload. The payload may be empty or hold anything, and anything may
follow. -/
theorem Whole.honours_length (whole : r.Whole document)
    (head : ((Parse.dictionaryHead resolve).run.run r).1 = .ok dict)
    (declared : Payload.Declared dict resolve content.length)
    (closed : Lexis.isGap false gap = true) (opens : Lexis.Terminates opening (content ++ ending))
    (kind : ending = [] ∨ ending ∈ Lexis.lineEndings)
    (text : document.drop (r.origin + ((Parse.dictionaryHead resolve).run.run r).2.position) =
      gap ++ Parse.streamKeyword ++ opening ++ content ++ ending ++ Payload.endStream ++ rest) :
    ((Parse.object resolve).run.run r).1 = .ok (.stream dict content) := by
  have ends : Lexis.Ends (opening ++ (content ++ (ending ++ (Payload.endStream ++ rest)))) := by
    cases opens <;> exact Lexis.ends_cons rfl _
  simp only [List.append_assoc] at text
  obtain ⟨v, stands, wide, _, _, reads⟩ := whole.stream_behind head closed ends text
  obtain ⟨last, taken⟩ := Parse.payload_declared stands opens kind declared.length wide
  exact reads content last taken

/-- A stream whose length is behind a reference, and whose payload holds both keywords. -/
def keywordsText : Bytes :=
  Bytes.ofAscii "7 <</Length 3 0 R/A[/B]>>%>>\n stream\r\nendstream\nendobj\rendstreamed".toList

/-- A reader in front of its dictionary, with a window of three bytes. -/
def keywordsReader : Reader :=
  (ofText keywordsText { windowSize := 3 }).seek 2

def keywordsDictionary : Dictionary :=
  [(['A'.toUInt8], .array [.name ['B'.toUInt8]]), (Payload.lengthKey, .reference 3 0)]

/-- Whoever looks up the reference finds the length. -/
def keywordsResolver : Resolver := fun number => if number = 3 then some (.integer 16) else none

theorem keywordsReader_head :
    ((Parse.dictionaryHead keywordsResolver).run.run keywordsReader).1 = .ok keywordsDictionary := by
  rfl

theorem keywordsReader_honours :
    ((Parse.object keywordsResolver).run.run keywordsReader).1 =
      .ok (.stream keywordsDictionary (Bytes.ofAscii "endstream\nendobj".toList)) := by
  have whole : keywordsReader.Whole keywordsText := (ofText_whole keywordsText _).seek 2
  have text : keywordsText.drop (keywordsReader.origin +
      ((Parse.dictionaryHead keywordsResolver).run.run keywordsReader).2.position) =
      Bytes.ofAscii "%>>\n ".toList ++ Parse.streamKeyword ++ [Byte.carriageReturn, Byte.lineFeed] ++
        Bytes.ofAscii "endstream\nendobj".toList ++ [Byte.carriageReturn] ++ Payload.endStream ++
        Bytes.ofAscii ['e', 'd'] := by
    decide +kernel
  exact whole.honours_length keywordsReader_head (.indirect rfl rfl) rfl (.pair _)
    (.inr (by decide)) text

end Reader
end PdfObjects
