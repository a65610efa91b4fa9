import PdfObjects.Proofs.PayloadEnds
import PdfObjects.Proofs.Soundness

/-! Which streams are read. A stream is opened by its keyword behind a dictionary, and it is read if its
payload ends somehow: there is no other way to read one, and no other reason to fail. What stands between a
payload and the keyword that ends it is blank, except for the comments in front of a keyword that follows
a trusted length. -/
namespace PdfObjects

namespace Parse

variable {resolve : Resolver} {dict : Dictionary} {t : Resident} {content : Bytes}

/-- Only two angle brackets announce a dictionary. -/
theorem lead_dictionary {word : Bytes} (lead : Lead.ofWord word = .dictionary) :
    word = [Byte.less, Byte.less] := by
  by_contra other
  cases word with
  | nil => cases lead
  | cons first rest =>
    simp only [Lead.ofWord, if_neg other] at lead
    repeat' split at lead
    all_goals cases lead

/-- Only a bracket announces an array. -/
theorem lead_array {word : Bytes} (lead : Lead.ofWord word = .array) : word = [Byte.openBracket] := by
  by_contra other
  cases word with
  | nil => cases lead
  | cons first rest =>
    simp only [Lead.ofWord, if_neg other] at lead
    repeat' split at lead
    all_goals cases lead

/-- A number, alone or as the start of a reference, holds no other objects. -/
theorem numberOrReference_plain {σ : Type} [Readable σ] {s : σ} {first : Bytes} {o : Object}
    (ran : ((numberOrReference first).run.run s).1 = .ok o) : o.asArray = none ∧ o.asDictionary = none := by
  rw [numberOrReference, run_bind_lift, run_bind_lift] at ran
  cases found : (Scan.referenceTail.run (Scan.position.run s).2).1 with
  | none =>
    simp only [found, Object.ofNumeral] at ran
    split at ran <;> cases ran <;> exact ⟨rfl, rfl⟩
  | some generation =>
    simp only [found] at ran
    split at ran <;> cases ran
    exact ⟨rfl, rfl⟩

/-- An array is no stream. -/
theorem array_plain (element : Parse Object) (mode : Mode) :
    ((array element mode).run.run t).1 ≠ .ok (.stream dict content) := by
  intro ran
  rw [array, run_bind_lift] at ran
  cases read : (elements element ((Scan.remaining.run t).1 + 1) []).run.run (Scan.remaining.run t).2 with
  | mk result after =>
    cases result with
    | error e =>
      rw [run_bind_error read] at ran
      cases ran
    | ok objects =>
      rw [run_bind_ok read, run_bind_lift] at ran
      split at ran <;> cases ran

/-- Going back changes no outcome. -/
theorem rewinding_outcome {σ : Type} [Readable σ] (start : Nat) (program : Parse Object) (s : σ) :
    ((rewinding start program).run.run s).1 = (program.run.run s).1 := by
  rw [rewinding, run_bind_outcome]
  cases (program.run.run s).1 with
  | ok object => rfl
  | error e =>
    dsimp only
    split <;> rfl

/-- A stream has the dictionary behind which its keyword stands, and the payload that is read there. -/
theorem opened_stream {other : Dictionary}
    (ran : ((opened resolve other).run.run t).1 = .ok (.stream dict content)) :
    other = dict ∧ ((Scan.accept streamKeyword).run t).1 = true ∧
      ((payload dict resolve).run.run ((Scan.accept streamKeyword).run t).2).1 = .ok content := by
  rw [opened, run_bind_lift] at ran
  cases found : ((Scan.accept streamKeyword).run t).1 with
  | false =>
    simp only [found, Bool.false_eq_true, ↓reduceIte] at ran
    cases ran
  | true =>
    simp only [found, ↓reduceIte] at ran
    cases read : (payload other resolve).run.run ((Scan.accept streamKeyword).run t).2 with
    | mk result after =>
      cases result with
      | error e =>
        rw [run_bind_error read] at ran
        cases ran
      | ok bytes =>
        rw [run_bind_ok read] at ran
        cases ran
        exact ⟨rfl, rfl, congrArg Prod.fst read⟩

/-- Only what starts with a dictionary is read as a stream. -/
theorem object_stream_head
    (ran : ((anyObject resolve .loose).run.run t).1 = .ok (.stream dict content)) :
    ∃ u, (dictionaryHead resolve).run.run t = (.ok dict, u) ∧
      ((opened resolve dict).run.run u).1 = .ok (.stream dict content) := by
  rw [anyObject_run] at ran
  cases left : t.limits.nesting - t.limits.depth with
  | zero =>
    rw [left] at ran
    cases ran
  | succ levels =>
    rw [dictionaryHead_some left, headOf, run_bind_lift, Scan.position_run, run_bind_lift]
    rw [left, body, announced, run_bind_lift, Scan.position_run, run_bind_lift] at ran
    generalize Scan.word.run t = read at ran
    obtain ⟨word, after⟩ := read
    dsimp only at ran ⊢
    by_cases empty : word.isEmpty = true
    · rw [if_pos empty] at ran
      cases ran
    by_cases numeric : word.numeric = true
    · rw [if_neg empty, if_pos numeric] at ran
      cases (numberOrReference_plain ran).2
    rw [if_neg empty, if_neg numeric] at ran
    cases lead : Lead.ofWord word.bytes with
    | whole object =>
      rw [lead] at ran
      rcases Lead.ofWord_whole lead with ⟨_, _, rfl⟩ | ⟨_, rfl⟩ | rfl <;> cases ran
    | literalString | hexString | dictionaryEnd | nothing =>
      rw [lead] at ran
      cases ran
    | array =>
      rw [lead] at ran
      dsimp only at ran
      rw [rewinding_outcome] at ran
      exact absurd ran (array_plain _ _)
    | dictionary =>
      rw [lead] at ran
      dsimp only at ran
      rw [rewinding_outcome] at ran
      rw [if_pos (lead_dictionary lead), run_bind_lift]
      rw [dictionary, run_bind_lift] at ran
      cases read : (entries (body resolve levels .loose) .loose ((Scan.remaining.run after).1 + 1) []).run.run
          (Scan.remaining.run after).2 with
      | mk result u =>
        cases result with
        | error e =>
          rw [run_bind_error read] at ran
          cases ran
        | ok entries =>
          rw [run_bind_ok read] at ran
          obtain rfl := (opened_stream ran).1
          exact ⟨u, rfl, ran⟩

end Parse
namespace Reader

/-- A reader stands at a dictionary, and behind it, behind a gap, stands the keyword that opens a stream.
The payload starts behind the line of that keyword. -/
structure OpensStream (document : Bytes) (resolve : Resolver) (r : Reader) (dict : Dictionary)
    (start : Nat) : Prop where
  head : ((Parse.dictionaryHead resolve).run.run r).1 = .ok dict
  keyword : ∃ gap rest, Lexis.isGap false gap = true ∧ Lexis.Ends rest ∧
    document.drop (r.origin + ((Parse.dictionaryHead resolve).run.run r).2.position) =
      gap ++ (Parse.streamKeyword ++ rest) ∧
    start = ((Parse.dictionaryHead resolve).run.run r).2.position +
      (gap.length + Parse.streamKeyword.length) + Lexis.lineLength rest

variable {document content between keyword rest : Bytes} {r : Reader} {resolve : Resolver}
  {dict : Dictionary} {start : Nat}

/-- Over the bytes themselves, the payload decides what is read and where. -/
theorem OpensStream.payload (whole : r.Whole document) (opens : r.OpensStream document resolve dict start) :
    ∃ (v : Resident) (rest : Bytes), v.Stands rest ∧ 16 ≤ v.limits.wordLength ∧
      v.bytes = document.drop r.origin ∧ v.position + Lexis.lineLength rest = start ∧
      (document.drop r.origin).drop start = rest.drop (Lexis.lineLength rest) ∧
      ∀ result last, (Parse.payload dict resolve).run.run v = (result, last) →
        (∀ e, result = .error e → e.isNestingLimit = false) →
        ((Parse.object resolve).run.run r).1 = result.map (.stream dict) ∧
          ((Parse.object resolve).run.run r).2.position = last.position := by
  obtain ⟨gap, rest, closed, ends, text, place⟩ := opens.keyword
  obtain ⟨v, stands, wide, bytes, position, reads⟩ := whole.stream_at opens.head closed ends text
  rw [← position] at place
  refine ⟨v, rest, stands, wide, bytes, place.symm, ?_, reads⟩
  rw [← bytes, place, ← List.drop_drop, stands.ahead]

/-- Where a stream is read, one has been opened. -/
theorem Whole.opens_of_stream (whole : r.Whole document)
    (read : ((Parse.object resolve).run.run r).1 = .ok (.stream dict content)) :
    ∃ start, r.OpensStream document resolve dict start := by
  rw [Parse.object, whole.whole_run] at read
  obtain ⟨u, head, opened⟩ := Parse.object_stream_head read
  have same := (whole.resident_run (Parse.dictionaryHead resolve).run).1
  rw [head] at same
  obtain ⟨v, ran, standing, wide, _⟩ := whole.head_run same.symm
  obtain rfl : u = v := (Prod.mk.inj (head.symm.trans ran)).2
  have solid : Lexis.Solid Parse.streamKeyword := ⟨by decide, by decide⟩
  obtain ⟨gap, rest, closed, ends, text⟩ := Scan.accept_behind solid standing
    (Nat.lt_of_lt_of_le (by decide) wide) (Parse.opened_stream opened).2.1
  exact ⟨_, same.symm, gap, rest, closed, ends, text, rfl⟩

/-- A payload that ends is read. -/
theorem OpensStream.reads (whole : r.Whole document) (opens : r.OpensStream document resolve dict start)
    (ended : Payload.Terminated dict resolve (document.drop r.origin) start content between keyword rest) :
    ((Parse.object resolve).run.run r).1 = .ok (.stream dict content) := by
  obtain ⟨v, ahead, stands, wide, bytes, place, text, reads⟩ := opens.payload whole
  cases ended with
  | trusted trusted =>
    rw [text] at trusted
    obtain ⟨kept, ran⟩ := Parse.payload_trusted stands wide trusted
    exact (reads _ _ ran nofun).1
  | searched doubted searched =>
    rw [text] at doubted
    rw [← bytes, ← place] at searched
    obtain ⟨kept, ran⟩ := Parse.payload_searched stands wide doubted searched
    exact (reads _ _ ran nofun).1

/-- One that does not is not. -/
theorem OpensStream.fails (whole : r.Whole document) (opens : r.OpensStream document resolve dict start)
    (doubted : Payload.Doubted dict resolve ((document.drop r.origin).drop start))
    (endless : Payload.Endless (document.drop r.origin) start) :
    ((Parse.object resolve).run.run r).1 = .error (.streamEndNotFound start) := by
  obtain ⟨v, ahead, stands, wide, bytes, place, text, reads⟩ := opens.payload whole
  rw [text] at doubted
  rw [← bytes, ← place] at endless
  have ran := Parse.payload_endless stands wide doubted endless
  rw [place] at ran
  exact (reads _ _ ran (by rintro _ ⟨⟩; rfl)).1

/-- What the failure to find the end of a stream means. Take any reader of a whole document, and let it
stand at a dictionary behind which a stream is opened. Then either a stream is read, or its end is not
found and the error names the start of the payload. It is not found if and only if no keyword follows where
the dictionary would have the payload end, and from its start on no keyword that ends a stream or an object
stands alone, or one does right at the start. -/
theorem Whole.finds_end (whole : r.Whole document) (opens : r.OpensStream document resolve dict start) :
    ((∃ content, ((Parse.object resolve).run.run r).1 = .ok (.stream dict content)) ∨
      ((Parse.object resolve).run.run r).1 = .error (.streamEndNotFound start)) ∧
    (((Parse.object resolve).run.run r).1 = .error (.streamEndNotFound start) ↔
      Payload.Doubted dict resolve ((document.drop r.origin).drop start) ∧
        (Scan.isStop (document.drop r.origin) start = true ∨
          ∀ place, start ≤ place → Scan.isStop (document.drop r.origin) place = false)) := by
  rcases Payload.terminated_or_endless dict resolve (document.drop r.origin) start with
    ⟨content, between, keyword, rest, ended⟩ | ⟨doubted, endless⟩
  · have read := opens.reads whole ended
    refine ⟨.inl ⟨content, read⟩, fun failed => ?_, fun ⟨doubted, endless⟩ => ?_⟩
    · rw [read] at failed
      cases failed
    · cases ended with
      | trusted trusted => exact absurd trusted (doubted _ _ _)
      | searched _ searched => exact absurd endless searched.not_endless
  · have failed := opens.fails whole doubted endless
    exact ⟨.inr failed, fun _ => ⟨doubted, endless⟩, fun _ => failed⟩

/-- A stream without a payload: the keyword that ends it follows the line of the one that opens it. -/
def emptyText : Bytes := Bytes.ofAscii "<</A 1>>stream\nendstream\nendobj".toList

theorem emptyText_opens :
    (ofText emptyText {}).OpensStream emptyText (fun _ => none) [(['A'.toUInt8], .integer 1)] 15 :=
  ⟨rfl, [], Bytes.ofAscii "\nendstream\nendobj".toList, rfl, Lexis.ends_cons rfl _, rfl, rfl⟩

/-- Its payload is empty and ends at once, and yet the end is not found. -/
theorem emptyText_fails : Scan.isStop emptyText 15 = true ∧
    ((Parse.object fun _ => none).run.run (ofText emptyText {})).1 = .error (.streamEndNotFound 15) := by
  refine ⟨rfl, ((ofText_whole emptyText {}).finds_end emptyText_opens).2.mpr ⟨?_, .inl rfl⟩⟩
  intro content gap rest trusted
  cases trusted.declared

/-- Which streams are read. Over a whole document, a stream with a dictionary and a payload is read if and
only if a stream with this dictionary is opened and this payload ends, by its declared length or by the
search. Then the payload starts right behind the line of the opening keyword, and whatever stands between
it and the keyword that ends it is blank if and only if no comment has been passed over there. -/
theorem Whole.reads_stream_iff (whole : r.Whole document) :
    (((Parse.object resolve).run.run r).1 = .ok (.stream dict content) ↔
      ∃ start between keyword rest, r.OpensStream document resolve dict start ∧
        Payload.Terminated dict resolve (document.drop r.origin) start content between keyword rest) ∧
    ∀ start between keyword rest,
      Payload.Terminated dict resolve (document.drop r.origin) start content between keyword rest →
      (document.drop r.origin).drop start = content ++ (between ++ (keyword ++ rest)) ∧
      (keyword = Payload.endStream ∨ keyword = Payload.endObject) ∧
      (between.all Byte.isWhitespace = true ↔ Byte.percent ∉ between) := by
  refine ⟨⟨fun read => ?_, fun ⟨start, between, keyword, rest, opens, ended⟩ => opens.reads whole ended⟩, ?_⟩
  · obtain ⟨start, opens⟩ := whole.opens_of_stream read
    rcases Payload.terminated_or_endless dict resolve (document.drop r.origin) start with
      ⟨found, between, keyword, rest, ended⟩ | ⟨doubted, endless⟩
    · have same := (opens.reads whole ended).symm.trans read
      obtain rfl : found = content := (Object.stream.inj (Except.ok.inj same)).2
      exact ⟨start, between, keyword, rest, opens, ended⟩
    · have failed := opens.fails whole doubted endless
      rw [read] at failed
      cases failed
  · intro start between keyword rest ended
    exact ⟨ended.split, ended.terminal, Lexis.blank_iff ended.closed⟩

/-- A stream whose length ends in front of a comment. -/
def commentText : Bytes := Bytes.ofAscii "<</Length 2>>stream\nab%cd\nendstream".toList

def commentDictionary : Dictionary := [(Payload.lengthKey, .integer 2)]

theorem commentText_opens :
    (ofText commentText {}).OpensStream commentText (fun _ => none) commentDictionary 20 :=
  ⟨rfl, [], Bytes.ofAscii "\nab%cd\nendstream".toList, rfl, Lexis.ends_cons rfl _, rfl, rfl⟩

/-- The comment is passed over, although it is neither blank nor part of the payload. -/
theorem commentText_cut : ((Parse.object fun _ => none).run.run (ofText commentText {})).1 =
      .ok (.stream commentDictionary (Bytes.ofAscii ['a', 'b'])) ∧
    (Bytes.ofAscii "%cd\n".toList).all Byte.isWhitespace ≠ true := by
  have whole := ofText_whole commentText {}
  have ended : Payload.Terminated commentDictionary (fun _ => none) commentText 20
      (Bytes.ofAscii ['a', 'b']) (Bytes.ofAscii "%cd\n".toList) Payload.endStream [] :=
    .trusted ⟨rfl, rfl, rfl⟩
  refine ⟨whole.reads_stream_iff.1.mpr ⟨20, _, _, _, commentText_opens, ended⟩, fun blank => ?_⟩
  have clean := (whole.reads_stream_iff.2 20 _ _ _ ended).2.2.mp blank
  exact clean List.mem_cons_self

end Reader
end PdfObjects
