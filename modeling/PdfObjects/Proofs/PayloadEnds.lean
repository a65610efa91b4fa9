import Mathlib.Data.Nat.Find
import PdfObjects.Proofs.Endings

/-! How a payload ends. A length that is declared is trusted if the keyword that ends a stream follows
behind a gap. Otherwise the payload goes up to the first keyword that stands alone, unless that is right at
its start. In either case a stream is read, and there is no other case in which one is: what does not end in
one of these ways has no end at all. -/
namespace PdfObjects

namespace Lexis

variable {start : Nat} {text rest : Bytes} {b : UInt8}

theorem exists_first (holds : Nat → Bool) (start : Nat) : ∃ found, First holds start found := by
  by_cases somewhere : ∃ place, start ≤ place ∧ holds place = true
  · refine ⟨some (Nat.find somewhere), (Nat.find_spec somewhere).1, (Nat.find_spec somewhere).2, ?_⟩
    intro place behind before
    exact Bool.eq_false_iff.mpr fun here => Nat.find_min somewhere before ⟨behind, here⟩
  · exact ⟨none, fun place behind => Bool.eq_false_iff.mpr fun here => somewhere ⟨place, behind, here⟩⟩

/-- Whether a line has been closed in front of a place, by all of a line ending. -/
def StartsLine (text : Bytes) (start : Nat) : Prop :=
  ∃ line opening, text.take start = line ++ opening ∧ Terminates opening (text.drop start)

/-- In front of the start of a line stands the last byte of a line ending. -/
theorem StartsLine.before (line : StartsLine text start) (within : start ≤ text.length) :
    1 ≤ start ∧ ∃ x, text[start - 1]? = some x ∧ Byte.isLineEnding x = true := by
  obtain ⟨before, opening, front, ends⟩ := line
  obtain ⟨first, x, split, ending⟩ : ∃ first x, opening = first ++ [x] ∧ Byte.isLineEnding x = true := by
    cases ends with
    | pair => exact ⟨[Byte.carriageReturn], Byte.lineFeed, rfl, rfl⟩
    | feed => exact ⟨[], Byte.lineFeed, rfl, rfl⟩
    | lone => exact ⟨[], Byte.carriageReturn, rfl, rfl⟩
  rw [split, ← List.append_assoc] at front
  have length := congrArg List.length front
  simp only [List.length_take_of_le within, List.length_append, List.length_singleton] at length
  refine ⟨by omega, x, ?_, ending⟩
  have shown : (text.take start)[start - 1]? = some x := by
    rw [front, List.getElem?_append_right (by simp only [List.length_append]; omega)]
    simp only [List.length_append, length, Nat.add_sub_cancel, Nat.sub_self]
    rfl
  rwa [List.getElem?_take_of_lt (by omega)] at shown

/-- So a line ending stands in front of a keyword there. -/
theorem StartsLine.endBefore_lt (line : StartsLine text start) (same : text.drop start = b :: rest)
    (plain : Byte.isLineEnding b = false) : endBefore text start < start := by
  have within : start ≤ text.length := by
    by_contra outside
    rw [List.drop_of_length_le (Nat.le_of_lt (Nat.lt_of_not_le outside))] at same
    cases same
  obtain ⟨positive, x, shown, ending⟩ := line.before within
  have behind : text.drop (start - 1) = x :: b :: rest := by
    obtain ⟨inside, here⟩ := List.getElem?_eq_some_iff.mp shown
    rw [List.drop_eq_getElem_cons inside, here, Nat.sub_add_cancel positive, same]
  exact Lexis.endBefore_lt behind positive ending plain

end Lexis

namespace Payload

/-- A payload of the length that its dictionary declares, where the keyword that ends a stream follows
behind a gap. The keyword may go on with other bytes. -/
structure Trusted (dict : Dictionary) (resolve : Resolver) (text content gap rest : Bytes) : Prop where
  declared : declaredLength dict resolve = some content.length
  closed : Lexis.isGap false gap = true
  split : text = content ++ (gap ++ (endStream ++ rest))

/-- No length is declared behind which the keyword that ends a stream follows. -/
def Doubted (dict : Dictionary) (resolve : Resolver) (text : Bytes) : Prop :=
  ∀ content gap rest, ¬ Trusted dict resolve text content gap rest

/-- A payload up to the first keyword that stands alone, without the line ending in front of that. -/
structure Searched (text : Bytes) (start : Nat) (content ending keyword rest : Bytes) : Prop where
  split : text.drop start = content ++ (ending ++ (keyword ++ rest))
  terminal : keyword = endStream ∨ keyword = endObject
  first : Lexis.First (Scan.isStop text) start (some (start + (content.length + ending.length)))
  kind : ending = [] ∨ ending ∈ Lexis.lineEndings
  bare : ending = [] → ∃ b, content.getLast? = some b ∧ Byte.isLineEnding b = false
  edge : ending = [Byte.lineFeed] → content.getLast? ≠ some Byte.carriageReturn

/-- No keyword stands alone from the start of a payload on, or one does right at the start. -/
def Endless (text : Bytes) (start : Nat) : Prop :=
  Scan.isStop text start = true ∨ ∀ place, start ≤ place → Scan.isStop text place = false

/-- How a payload ends: what there is of it, what stands between it and a keyword, the keyword, and what
follows that. -/
inductive Terminated (dict : Dictionary) (resolve : Resolver) (text : Bytes) (start : Nat) :
    (content between keyword rest : Bytes) → Prop where
  | trusted {content gap rest : Bytes} (trusted : Trusted dict resolve (text.drop start) content gap rest) :
    Terminated dict resolve text start content gap endStream rest
  | searched {content ending keyword rest : Bytes} (doubted : Doubted dict resolve (text.drop start))
    (searched : Searched text start content ending keyword rest) :
    Terminated dict resolve text start content ending keyword rest

variable {dict : Dictionary} {resolve : Resolver} {text content between ending keyword rest : Bytes}
  {start place : Nat}

/-- Where a keyword stands alone, one of the keywords starts, behind a blank. -/
theorem stop_keyword (stop : Scan.isStop text place = true) :
    ∃ keyword rest, (keyword = endStream ∨ keyword = endObject) ∧ text.drop place = keyword ++ rest ∧
      (rest = [] ∨ ∃ b, rest.head? = some b ∧ Byte.isWhitespace b = true) := by
  have alone (keyword : Bytes) (stands : Lexis.standsAlone keyword text place = true) :
      ∃ rest, text.drop place = keyword ++ rest ∧
        (rest = [] ∨ ∃ b, rest.head? = some b ∧ Byte.isWhitespace b = true) := by
    simp only [Lexis.standsAlone, Bool.and_eq_true, List.isPrefixOf_iff_prefix] at stands
    obtain ⟨⟨rest, same⟩, _, right⟩ := stands
    refine ⟨rest, same.symm, ?_⟩
    have next : text[place + keyword.length]? = rest.head? := by
      rw [← List.head?_drop, ← List.drop_drop, ← same, List.drop_left]
    rw [next] at right
    cases rest with
    | nil => exact .inl rfl
    | cons b rest => exact .inr ⟨b, rfl, by simpa using right⟩
  simp only [Scan.isStop, Bool.or_eq_true] at stop
  rcases stop with stream | object
  · obtain ⟨rest, same, ends⟩ := alone _ stream
    exact ⟨_, rest, .inl rfl, same, ends⟩
  · obtain ⟨rest, same, ends⟩ := alone _ object
    exact ⟨_, rest, .inr rfl, same, ends⟩

theorem keyword_cons (terminal : keyword = endStream ∨ keyword = endObject) (rest : Bytes) :
    ∃ letters, keyword ++ rest = 'e'.toUInt8 :: letters := by
  rcases terminal with rfl | rfl <;> exact ⟨_, rfl⟩

/-- A payload that is found does not reach the keyword that is right at the start, so it is not endless. -/
theorem Searched.not_endless (searched : Searched text start content ending keyword rest) :
    ¬ Endless text start := by
  obtain ⟨behind, here, before⟩ := searched.first
  rintro (stop | none)
  · have further : 0 < content.length + ending.length := by
      by_contra empty
      have bare : ending = [] := List.eq_nil_of_length_eq_zero (by omega)
      obtain ⟨b, last, _⟩ := searched.bare bare
      have nothing : content = [] := List.eq_nil_of_length_eq_zero (by omega)
      rw [nothing] at last
      cases last
    have earlier := before start (Nat.le_refl _) (by omega)
    rw [stop] at earlier
    cases earlier
  · rw [none _ behind] at here
    cases here

/-- In front of the first keyword there is a payload, with or without a line ending behind it, unless the
keyword is right at the start. -/
theorem searched_or_endless (text : Bytes) (start : Nat) :
    (∃ content ending keyword rest, Searched text start content ending keyword rest) ∨
      Endless text start := by
  obtain ⟨found, first⟩ := Lexis.exists_first (Scan.isStop text) start
  cases found with
  | none => exact .inr (.inr first)
  | some stop =>
    obtain ⟨behind, here, before⟩ := first
    rcases Nat.eq_or_lt_of_le behind with rfl | further
    · exact .inr (.inl here)
    · obtain ⟨keyword, rest, terminal, same, _⟩ := stop_keyword here
      obtain ⟨content, ending, split, kind, bare, edge⟩ :=
        Lexis.split_ending ((text.drop start).take (stop - start))
      have whole : text.drop start = content ++ (ending ++ (keyword ++ rest)) := by
        rw [← List.take_append_drop (stop - start) (text.drop start), split, List.drop_drop,
          Nat.add_sub_cancel' behind, same, List.append_assoc]
      have within : stop < text.length := by
        by_contra outside
        rw [List.drop_of_length_le (Nat.le_of_not_lt outside)] at same
        rcases terminal with rfl | rfl <;> cases same
      have length : content.length + ending.length = stop - start := by
        rw [← List.length_append, ← split, List.length_take, List.length_drop]
        omega
      have place : start + (content.length + ending.length) = stop := by omega
      refine .inl ⟨content, ending, keyword, rest, whole, terminal, ?_, kind, ?_, edge⟩
      · rw [place]
        exact ⟨behind, here, before⟩
      · intro none
        have nonempty : content ≠ [] := by
          rintro rfl
          rw [none, List.length_nil] at length
          omega
        have last := List.getLast?_eq_some_getLast nonempty
        exact ⟨_, last, bare none _ last⟩

/-- A payload ends somehow, unless it is doubted and endless. -/
theorem terminated_or_endless (dict : Dictionary) (resolve : Resolver) (text : Bytes) (start : Nat) :
    (∃ content between keyword rest, Terminated dict resolve text start content between keyword rest) ∨
      (Doubted dict resolve (text.drop start) ∧ Endless text start) := by
  by_cases doubted : Doubted dict resolve (text.drop start)
  · rcases searched_or_endless text start with ⟨content, ending, keyword, rest, searched⟩ | endless
    · exact .inl ⟨content, ending, keyword, rest, .searched doubted searched⟩
    · exact .inr ⟨doubted, endless⟩
  · simp only [Doubted, not_forall, not_not] at doubted
    obtain ⟨content, gap, rest, trusted⟩ := doubted
    exact .inl ⟨content, gap, endStream, rest, .trusted trusted⟩

theorem Terminated.split (ended : Terminated dict resolve text start content between keyword rest) :
    text.drop start = content ++ (between ++ (keyword ++ rest)) := by
  cases ended with
  | trusted trusted => exact trusted.split
  | searched _ searched => exact searched.split

theorem Terminated.terminal (ended : Terminated dict resolve text start content between keyword rest) :
    keyword = endStream ∨ keyword = endObject := by
  cases ended with
  | trusted _ => exact .inl rfl
  | searched _ searched => exact searched.terminal

/-- What stands between a payload and its keyword is a gap. -/
theorem Terminated.closed (ended : Terminated dict resolve text start content between keyword rest) :
    Lexis.isGap false between = true := by
  cases ended with
  | trusted trusted => exact trusted.closed
  | searched _ searched =>
    rcases searched.kind with rfl | member
    · rfl
    · simp only [Lexis.lineEndings, List.mem_cons, List.not_mem_nil, or_false] at member
      rcases member with rfl | rfl | rfl <;> rfl

/-- A search steps back over exactly the line ending that does not belong to the payload. -/
theorem Searched.endBefore (searched : Searched text start content ending keyword rest)
    (line : Lexis.StartsLine text start) :
    Lexis.endBefore text (start + (content.length + ending.length)) = start + content.length := by
  obtain ⟨letters, same⟩ := keyword_cons searched.terminal rest
  obtain ⟨before, opening, front, opens⟩ := line
  have plain : Byte.isLineEnding 'e'.toUInt8 = false := rfl
  have within : start ≤ text.length := by
    by_contra outside
    have nothing := searched.split
    rw [List.drop_of_length_le (Nat.le_of_lt (Nat.lt_of_not_le outside)), same] at nothing
    simp at nothing
  have total : (text.take start ++ content).length = start + content.length := by
    rw [List.length_append, List.length_take_of_le within]
  have split : text = (text.take start ++ content) ++ (ending ++ 'e'.toUInt8 :: letters) := by
    rw [List.append_assoc, ← same, ← searched.split, List.take_append_drop]
  have bare (none : ending = []) (x : UInt8) (last : (text.take start ++ content).getLast? = some x) :
      Byte.isLineEnding x = false := by
    obtain ⟨b, found, plain⟩ := searched.bare none
    have nonempty : content ≠ [] := by
      rintro rfl
      cases found
    rw [List.getLast?_append_of_ne_nil _ nonempty, found] at last
    rwa [← Option.some.inj last]
  have nonempty : opening ++ content ≠ [] := by cases opens <;> simp
  have apart (feed : ending = [Byte.lineFeed]) :
      (text.take start ++ content).getLast? ≠ some Byte.carriageReturn := by
    rw [front, List.append_assoc, List.getLast?_append_of_ne_nil _ nonempty]
    refine Parse.line_apart ?_ searched.edge feed
    cases opens with
    | pair => exact .pair _
    | feed => exact .feed _
    | lone alone =>
      rw [searched.split, ← List.append_assoc, List.head?_append] at alone
      refine .lone fun next => alone ?_
      rw [next]
      rfl
  have ends := Lexis.endBefore_ending plain searched.kind bare apart letters
  rw [← split, total, Nat.add_assoc] at ends
  exact ends

end Payload

namespace Scan

variable {t : Resident} {ahead : Bytes}

theorem nextLine_run (standing : t.HasAhead ahead) :
    nextLine.run t = ((), t.move (Lexis.lineLength ahead)) := by
  rw [nextLine, take_run _ _ _ standing]
  congr 2
  clear standing
  have other : ¬ Byte.carriageReturn = Byte.lineFeed := by decide
  induction ahead with
  | nil => rfl
  | cons b rest ih =>
    by_cases feed : b = Byte.lineFeed
    · subst feed
      rfl
    · by_cases back : b = Byte.carriageReturn
      · subst back
        cases rest with
        | nil => rfl
        | cons c rest =>
          by_cases feed : c = Byte.lineFeed
          · subst feed
            rfl
          · simp [Lexis.consume, Lexis.lineLength, Lexis.endingLength, Byte.isLineEnding, other, feed]
      · have plain : Byte.isLineEnding b = false := by simp [Byte.isLineEnding, feed, back]
        have inner : (b == Byte.carriageReturn) = false := by simp [back]
        simp only [Lexis.consume, Lexis.lineLength, plain, feed, inner, Bool.false_eq_true, ↓reduceIte, ih]

/-- Whether the keyword that ends a stream follows is told by the next word. -/
theorem endStreamFollows_word (stands : t.Stands ahead) : endStreamFollows.run t =
    ((Payload.endStream.isPrefixOf (Lexis.word t.limits.wordLength ahead).bytes, false),
      (t.move (Lexis.reach ahead)).keep (Lexis.word t.limits.wordLength ahead).bytes) := by
  have skip : (seek (t.position + Lexis.endingLength ahead)).run t =
      ((), t.move (Lexis.endingLength ahead)) := by
    refine seek_run ?_
    have length := stands.toHasAhead.length
    have within := stands.within
    have short := Lexis.endingLength_le ahead
    omega
  have read := rawWord_run (stands.toHasAhead.drop (Lexis.endingLength ahead))
  obtain ⟨same, place⟩ := Lexis.word_ending t.limits.wordLength ahead
  simp only [Resident.move_limits, same, Resident.move_move, place] at read
  rw [endStreamFollows, session_resident]
  simp only [run_bind, position_run, lineEndingAt_length, stands.ahead, skip, read]
  rfl

/-- A keyword is accepted only where it stands, behind a gap. -/
theorem accept_behind {keyword : Bytes} (solid : Lexis.Solid keyword) (standing : t.HasAhead ahead)
    (short : keyword.length < t.limits.wordLength) (found : ((accept keyword).run t).1 = true) :
    ∃ gap rest, Lexis.isGap false gap = true ∧ Lexis.Ends rest ∧ ahead = gap ++ (keyword ++ rest) := by
  have read := word_run standing
  have same : (Lexis.word t.limits.wordLength ahead).bytes = keyword := by
    by_contra other
    simp only [accept, attempt, run_bind, position_run, read, if_neg other] at found
    cases found
  obtain ⟨rest, ends, behind⟩ := solid.lexeme_eq ((Lexis.word_bytes_iff short).mp same)
  refine ⟨ahead.take (Lexis.skipped false ahead), rest, Lexis.isGap_skipped false ahead ?_, ends, ?_⟩
  · by_contra outside
    rw [List.drop_of_length_le (Nat.le_of_not_lt outside)] at behind
    exact solid.nonempty (List.append_eq_nil_iff.mp behind.symm).1
  · rw [← behind, List.take_append_drop]

end Scan

namespace Parse

variable {resolve : Resolver} {dict : Dictionary} {t : Resident}
  {ahead content gap ending keyword after : Bytes}

/-- The last word read at the start of a payload once a declared length has been looked at: the word behind
that length, if there is one. -/
def checkedWord (dict : Dictionary) (resolve : Resolver) (t : Resident) : Bytes :=
  match (Payload.declaredLength dict resolve).filter (Payload.fits t.position t.bytes.length) with
  | none => t.lastWord
  | some length => (Lexis.word t.limits.wordLength (t.bytes.drop (t.position + length))).bytes

/-- A length behind which no keyword follows is the same as none, apart from the word that has been read. -/
theorem payloadLength_doubted (stands : t.Stands ahead) (wide : 16 ≤ t.limits.wordLength)
    (doubted : Payload.Doubted dict resolve ahead) :
    (payloadLength t.position ((Payload.declaredLength dict resolve).filter
      (Payload.fits t.position t.bytes.length))).run.run t =
        (searchedLength t.position).run.run (t.keep (checkedWord dict resolve t)) := by
  cases declared : (Payload.declaredLength dict resolve).filter
      (Payload.fits t.position t.bytes.length) with
  | none =>
    rw [checkedWord, declared]
    rfl
  | some length =>
    obtain ⟨same, fits⟩ := Option.filter_eq_some_iff.mp declared
    have total := stands.toHasAhead.length
    have within : length ≤ ahead.length := by
      simp only [Payload.fits, Bool.or_eq_true, decide_eq_true_eq] at fits
      have inside := stands.within
      omega
    have checked : checkedWord dict resolve t = (Lexis.word t.limits.wordLength (ahead.drop length)).bytes := by
      rw [checkedWord, declared, ← stands.ahead, List.drop_drop]
    have split : ahead.take length ++ ahead.drop length = ahead := List.take_append_drop _ _
    have size : (ahead.take length).length = length := List.length_take_of_le within
    rw [← split] at stands
    have skipped := skipPayload_passes stands
    have behind := stands.append
    have follows := Scan.endStreamFollows_word behind
    rw [size] at skipped behind follows
    have absent : Payload.endStream.isPrefixOf
        (Lexis.word (t.move length).limits.wordLength (ahead.drop length)).bytes = false := by
      refine Bool.eq_false_iff.mpr fun starts => ?_
      obtain ⟨gap, rest, closed, text⟩ :=
        (Lexis.word_starts_iff Payload.endStream_solid (Nat.le_trans (by decide) wide)).mp starts
      refine doubted (ahead.take length) gap rest ⟨by rw [size]; exact same, closed, ?_⟩
      rw [← text, split]
    rw [absent, Resident.move_limits, ← checked] at follows
    have back : (Scan.seek t.position).run (((t.move length).move
        (Lexis.reach (ahead.drop length))).keep (checkedWord dict resolve t)) =
          ((), t.keep (checkedWord dict resolve t)) := Scan.seek_run stands.within
    rw [payloadLength, run_bind_ok skipped, run_bind_lift, follows]
    change ((liftM (Scan.seek t.position) : Parse Unit) >>= fun _ => searchedLength t.position).run.run _ = _
    rw [run_bind_lift, back]

/-- Behind the line of the keyword that opens a stream. -/
theorem line_starts (stands : t.Stands ahead) (further : ahead.drop (Lexis.lineLength ahead) ≠ []) :
    Lexis.StartsLine t.bytes (t.position + Lexis.lineLength ahead) := by
  obtain ⟨line, opening, same, ends⟩ := Lexis.lineLength_closed ahead further
  refine ⟨t.bytes.take t.position ++ line, opening, ?_, ?_⟩
  · rw [List.take_add, stands.ahead, same, List.append_assoc]
  · rwa [← List.drop_drop, stands.ahead]

/-- The payload starts behind that line. -/
theorem payload_starts (stands : t.Stands ahead) :
    Scan.nextLine.run t = ((), t.move (Lexis.lineLength ahead)) ∧
      (t.move (Lexis.lineLength ahead)).Stands (ahead.drop (Lexis.lineLength ahead)) := by
  refine ⟨Scan.nextLine_run stands.toHasAhead, ?_⟩
  have short : (ahead.take (Lexis.lineLength ahead)).length = Lexis.lineLength ahead :=
    List.length_take_of_le (Lexis.lineLength_le ahead)
  rw [← List.take_append_drop (Lexis.lineLength ahead) ahead] at stands
  have behind := stands.append
  rwa [short] at behind

/-- A payload that is trusted. The cursor goes on from the end of the word that starts with the keyword. -/
theorem payload_trusted (stands : t.Stands ahead) (wide : 16 ≤ t.limits.wordLength)
    (trusted : Payload.Trusted dict resolve (ahead.drop (Lexis.lineLength ahead)) content gap after) :
    ∃ kept, (payload dict resolve).run.run t = (.ok content, (skipEndStream.run
      ((t.move (Lexis.lineLength ahead + (content ++ gap ++
        Lexis.lexeme (Payload.endStream ++ after)).length)).keep kept)).2) := by
  obtain ⟨line, inside⟩ := payload_starts stands
  rw [trusted.split] at inside
  have starts := (Lexis.word_starts_iff Payload.endStream_solid (Nat.le_trans (by decide) wide)).mpr
    ⟨gap, after, trusted.closed, rfl⟩
  have reach := Payload.endStream_solid.reach_eq trusted.closed after
  have follows := Scan.endStreamFollows_word inside.append
  rw [Resident.move_limits, Resident.move_limits, starts, reach] at follows
  generalize (Lexis.word t.limits.wordLength (gap ++ (Payload.endStream ++ after))).bytes = kept at follows
  have further : gap ++ (Payload.endStream ++ after) ≠ [] := fun none =>
    Payload.endStream_solid.nonempty (List.append_eq_nil_iff.mp (List.append_eq_nil_iff.mp none).2).1
  have length := payloadLength_declared inside further trusted.declared follows
  refine ⟨kept, (payload_taken line inside length rfl).trans ?_⟩
  rw [Resident.move_move, Resident.move_move, List.append_assoc, @List.length_append _ content]

/-- A payload that is searched for. The cursor goes on from its end. -/
theorem payload_searched (stands : t.Stands ahead) (wide : 16 ≤ t.limits.wordLength)
    (doubted : Payload.Doubted dict resolve (ahead.drop (Lexis.lineLength ahead)))
    (searched : Payload.Searched t.bytes (t.position + Lexis.lineLength ahead) content ending keyword after) :
    ∃ kept, (payload dict resolve).run.run t = (.ok content, (skipEndStream.run
      ((t.move (Lexis.lineLength ahead + content.length)).keep kept)).2) := by
  obtain ⟨line, inside⟩ := payload_starts stands
  have same := payloadLength_doubted inside wide doubted
  generalize checkedWord dict resolve (t.move (Lexis.lineLength ahead)) = kept at same
  have text : ahead.drop (Lexis.lineLength ahead) = content ++ (ending ++ (keyword ++ after)) := by
    rw [← searched.split, ← List.drop_drop, stands.ahead]
  have further : ahead.drop (Lexis.lineLength ahead) ≠ [] := by
    obtain ⟨letters, starts⟩ := Payload.keyword_cons searched.terminal after
    rw [text, starts]
    simp
  rw [text] at inside
  have found : (searchedLength (t.move (Lexis.lineLength ahead)).position).run.run
      ((t.move (Lexis.lineLength ahead)).keep kept) =
        (.ok content.length, ((t.move (Lexis.lineLength ahead)).keep kept).move content.length) :=
    searchedLength_found (inside.keep kept) searched.first (searched.endBefore (line_starts stands further))
  rw [found] at same
  refine ⟨kept, (payload_taken line inside same rfl).trans ?_⟩
  simp only [Resident.keep_move, Resident.move_move]

/-- A payload without an end leaves the cursor at its start. -/
theorem payload_endless (stands : t.Stands ahead) (wide : 16 ≤ t.limits.wordLength)
    (doubted : Payload.Doubted dict resolve (ahead.drop (Lexis.lineLength ahead)))
    (endless : Payload.Endless t.bytes (t.position + Lexis.lineLength ahead)) :
    (payload dict resolve).run.run t = (.error (.streamEndNotFound (t.position + Lexis.lineLength ahead)),
      (t.move (Lexis.lineLength ahead)).keep
        (checkedWord dict resolve (t.move (Lexis.lineLength ahead)))) := by
  obtain ⟨line, inside⟩ := payload_starts stands
  have same := payloadLength_doubted inside wide doubted
  generalize checkedWord dict resolve (t.move (Lexis.lineLength ahead)) = kept at same ⊢
  obtain ⟨found, first, ran⟩ := Scan.payloadEnd_first (inside.keep kept)
  have nowhere : Scan.payloadEnd.run ((t.move (Lexis.lineLength ahead)).keep kept) =
      (none, (t.move (Lexis.lineLength ahead)).keep kept) := by
    rw [ran]
    cases found with
    | none => rfl
    | some stop =>
      obtain ⟨behind, here, before⟩ := first
      rcases endless with start | none
      · obtain ⟨keyword, rest, terminal, same, _⟩ := Payload.stop_keyword start
        obtain ⟨letters, starts⟩ := Payload.keyword_cons terminal rest
        rw [starts] at same
        have place : stop = t.position + Lexis.lineLength ahead := by
          rcases Nat.eq_or_lt_of_le behind with same | further
          · exact same.symm
          · exact absurd ((before _ (Nat.le_refl _) further).symm.trans start) (by decide)
        have shown : ahead.drop (Lexis.lineLength ahead) = 'e'.toUInt8 :: letters := by
          rw [← same, ← List.drop_drop, stands.ahead]
        have line := line_starts stands (by simp [shown])
        have outside := line.endBefore_lt same rfl
        dsimp only
        rw [Scan.trim_run, place]
        exact Prod.ext (if_neg (Nat.not_le_of_lt outside)) rfl
      · exact absurd ((none stop behind).symm.trans here) (by decide)
  have failed : (searchedLength (t.move (Lexis.lineLength ahead)).position).run.run
      ((t.move (Lexis.lineLength ahead)).keep kept) =
        (.error (.streamEndNotFound (t.position + Lexis.lineLength ahead)),
          (t.move (Lexis.lineLength ahead)).keep kept) := by
    rw [searchedLength, run_bind_lift, nowhere]
    rfl
  rw [failed] at same
  have size : Scan.documentSize.run (t.move (Lexis.lineLength ahead)) =
      ((t.move (Lexis.lineLength ahead)).bytes.length, t.move (Lexis.lineLength ahead)) := rfl
  rw [payload, run_bind_lift, line, run_bind_lift, Scan.position_run, run_bind_lift, size,
    run_bind_error same]

end Parse
end PdfObjects
