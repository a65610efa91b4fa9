import PdfObjects.Lines
import PdfObjects.Proofs.RoundTrip

/-! Streams, read back from their full written form. The printed form of a stream leaves its payload out;
in a document the payload stands between two keywords, as long as its dictionary says, and may hold
anything. Behind the second keyword the reader looks ahead for the keyword that ends the object, and goes
back in front of it. -/
namespace PdfObjects

open Lexis (IsWord Ends Closed)
open Scan (Verdict)

namespace Object

/-- A payload between its keywords. -/
def enclosed (payload : Bytes) : Bytes :=
  [Byte.lineFeed] ++ Parse.streamKeyword ++ [Byte.lineFeed] ++ payload ++ [Byte.lineFeed] ++
    Payload.endStream

/-- The written form of an object, the payload of a stream included. -/
def inFull : Object → Bytes
  | .stream entries payload => render (.dictionary entries) ++ enclosed payload
  | o => o.render

theorem enclosed_text (payload rest : Bytes) :
    enclosed payload ++ rest = [Byte.lineFeed] ++ (Parse.streamKeyword ++ ([Byte.lineFeed] ++
      (payload ++ ([Byte.lineFeed] ++ (Payload.endStream ++ rest))))) := by
  simp only [enclosed, List.append_assoc]

theorem stream_text (entries : List (Bytes × Object)) (payload rest : Bytes) :
    inFull (.stream entries payload) ++ rest =
      [Byte.less, Byte.less] ++ (renderEntries entries ++ (enclosed payload ++ rest)) := by
  rw [inFull, List.append_assoc, dictionary_text]

theorem length_enclosed (payload : Bytes) :
    (enclosed payload).length =
      ([Byte.lineFeed].length + Parse.streamKeyword.length) + (1 + payload.length + 10) := by
  have ending : Payload.endStream.length = 9 := rfl
  simp only [enclosed, List.length_append, List.length_singleton, ending]
  omega

/-- Whether a dictionary gives the length of a payload. -/
def Declares (entries : List (Bytes × Object)) (payload : Bytes) : Prop :=
  Dictionary.get? entries (Bytes.ofAscii ['L', 'e', 'n', 'g', 't', 'h']) =
    some (.integer payload.length)

theorem Declares.length {entries : List (Bytes × Object)} {payload : Bytes}
    (declares : Declares entries payload) (resolve : Resolver) :
    Payload.declaredLength entries resolve = some payload.length := by
  unfold Declares at declares
  simp [Payload.declaredLength, declares, asInteger]

/-- Whether an object is read back from its full written form, with so much kept of a word. The
dictionary of a stream has to give the length of its payload. -/
def Complete (limit : Nat) : Object → Prop
  | .stream entries payload => Writable limit (.dictionary entries) ∧ Declares entries payload
  | o => o.Writable limit

/-- What is not a stream is written in full as it is printed. -/
theorem Writable.inFull_eq {o : Object} {limit : Nat} (writable : o.Writable limit) :
    o.inFull = o.render := by
  cases o with
  | stream entries payload => exact writable.elim
  | _ => rfl

end Object

namespace Indirect

/-- An indirect object in writing, the payload of a stream included. -/
def inFull (i : Indirect) : Bytes := i.header ++ i.object.inFull ++ footer

/-- Whether an indirect object is read back from its full written form, with so much kept of a word and
so many levels of nesting. -/
structure Listable (limit levels : Nat) (i : Indirect) : Prop where
  fits : i.Fits
  complete : i.object.Complete limit
  shallow : i.object.height ≤ levels

end Indirect

/-- How many bytes of one line ending stand at the start of a text. -/
def Lexis.endingLength : Bytes → Nat
  | b :: rest =>
    if b = Byte.carriageReturn then if rest.head? = some Byte.lineFeed then 2 else 1
    else if b = Byte.lineFeed then 1 else 0
  | [] => 0

namespace Scan

variable {t : Resident} {gap rest : Bytes}

/-- A keyword that follows is accepted. -/
theorem accept_found {keyword : Bytes} (stands : t.Stands (gap ++ (keyword ++ rest)))
    (blank : gap.all Byte.isWhitespace = true) (isWord : IsWord keyword rest)
    (fits : keyword.length ≤ t.limits.wordLength) :
    (accept keyword).run t = (true, (t.move (gap.length + keyword.length)).keep keyword) := by
  obtain ⟨read, _⟩ := word_run_piece stands blank isWord fits
  simp only [accept, attempt, run_bind, position_run, read]
  simp only [↓reduceIte]
  rfl

/-- The rest of a line is its terminator. -/
theorem nextLine_passes {opening : Bytes} (standing : t.HasAhead (opening ++ rest))
    (opens : Lexis.Terminates opening rest) : nextLine.run t = ((), t.move opening.length) := by
  rw [nextLine, take_run _ _ _ standing]
  cases opens with
  | pair | feed => rfl
  | lone alone =>
    cases rest with
    | nil => rfl
    | cons b rest =>
      have other : b ≠ Byte.lineFeed := fun same => alone (congrArg some same)
      have back : ¬ Byte.carriageReturn = Byte.lineFeed := by decide
      simp [Lexis.consume, other, back]

theorem lineEndingAt_length (position : Nat) (t : Resident) :
    (lineEndingAt position).run t = (Lexis.endingLength (t.bytes.drop position), t) := by
  have first : (byteAt position).run t = ((t.bytes.drop position)[0]?, t) := by
    simp [byteAt, Readable.perform]
  have second : (byteAt (position + 1)).run t = ((t.bytes.drop position)[1]?, t) := by
    simp [byteAt, Readable.perform]
  simp only [lineEndingAt, run_bind, first, second]
  cases t.bytes.drop position with
  | nil => rfl
  | cons b rest =>
    have other : Byte.lineFeed ≠ Byte.carriageReturn := by decide
    by_cases back : b = Byte.carriageReturn
    · cases rest with
      | nil => simp [Lexis.endingLength, back]
      | cons c rest => by_cases feed : c = Byte.lineFeed <;> simp [Lexis.endingLength, back, feed]
    · by_cases feed : b = Byte.lineFeed <;> simp [Lexis.endingLength, back, feed, other]

/-- A line feed is a line ending of one byte. -/
theorem lineEndingAt_feed (standing : t.HasAhead ([Byte.lineFeed] ++ rest)) :
    (lineEndingAt t.position).run t = (1, t) := by
  rw [lineEndingAt_length, standing.ahead]
  rfl

/-- Over a document at hand, a session meets no problems. -/
theorem session_resident (body : Scan α) (t : Resident) :
    (session body).run t = (((body.run t).1, false), (body.run t).2) := rfl

theorem rawWord_resident (t : Resident) : rawWord.run t = word.run t := rfl

/-- The keyword that ends a stream, behind one line ending. -/
theorem endStreamFollows_run (stands : t.Stands ([Byte.lineFeed] ++ (Payload.endStream ++ rest)))
    (ends : Ends rest) (wide : 16 ≤ t.limits.wordLength) :
    endStreamFollows.run t = ((true, false), (t.move 10).keep Payload.endStream) := by
  have isWord : IsWord Payload.endStream rest := Lexis.isWord_run (by decide) rfl ends
  have behind : (t.move 1).Stands ([] ++ (Payload.endStream ++ rest)) := stands.append
  have ending : (lineEndingAt t.position).run t = (1, t) := lineEndingAt_feed stands.toHasAhead
  have skip : (seek (t.position + 1)).run t = ((), t.move 1) := seek_run behind.within
  obtain ⟨read, _⟩ := word_run_piece behind rfl isWord (Nat.le_trans (by decide) wide)
  rw [← rawWord_resident] at read
  rw [endStreamFollows, session_resident]
  simp only [run_bind, position_run, ending, skip, read]
  rfl

/-- The keyword that ends the object is left in place. -/
theorem skipEndStream_run
    (stands : t.Stands ([Byte.lineFeed] ++ (Payload.endObject ++ ([Byte.lineFeed] ++ rest))))
    (wide : 16 ≤ t.limits.wordLength) :
    Parse.skipEndStream.run t = ((), t.keep Payload.endObject) := by
  have isWord : IsWord Payload.endObject ([Byte.lineFeed] ++ rest) :=
    Lexis.isWord_run (by decide) rfl (Lexis.ends_cons rfl rest)
  have short : Payload.endObject.length ≤ t.limits.wordLength := Nat.le_trans (by decide) wide
  obtain ⟨read, behind⟩ : _ ∧ ((t.move 7).keep Payload.endObject).Stands _ :=
    word_run_piece stands rfl isWord short
  have first : rawWord.run t = (_, (t.move 7).keep Payload.endObject) := read
  have taken : (take (fun _ b => if Byte.isWhitespace b && !Byte.isLineEnding b then
      Verdict.more () else .through ()) (fun _ => ()) ()).run ((t.move 7).keep Payload.endObject) =
        ((), ((t.move 7).keep Payload.endObject).move 1) := take_run _ _ _ behind.toHasAhead
  have back := unread_run behind.toHasAhead
  have ending := lineEndingAt_feed behind.toHasAhead
  have home : (seek t.position).run (((t.move 7).keep Payload.endObject)) =
      ((), t.keep Payload.endObject) := seek_run stands.within
  simp only [Parse.skipEndStream, run_bind, position_run, first, taken, back, ending]
  exact home

end Scan

namespace Parse

variable {resolve : Resolver} {levels : Nat} {mode : Mode} {t : Resident} {gap rest content : Bytes}
  {entries : List (Bytes × Object)}

theorem skipPayload_passes (stands : t.Stands (content ++ rest)) :
    (skipPayload t.position content.length).run.run t = (.ok (), t.move content.length) := by
  cases content with
  | nil => rfl
  | cons b content =>
    have here : (Scan.seek t.position).run t = ((), t) := Scan.seek_run stands.within
    have there : (Scan.seek (t.position + (b :: content).length)).run t =
        ((), t.move (b :: content).length) := Scan.seek_run stands.append.within
    rw [skipPayload, if_pos (by simp), run_bind_lift, here]
    change (liftM (Scan.seek (t.position + (b :: content).length)) : Parse Unit).run.run t = _
    rw [run_lift, there]

theorem payloadBytes_found (stands : t.Stands (content ++ rest)) (last : Resident)
    (same : last.bytes = t.bytes) :
    (payloadBytes t.position content.length).run.run last = (.ok content, last) := by
  cases content with
  | nil => rfl
  | cons b content =>
    have taken : (Scan.block t.position (b :: content).length).run last =
        (some (b :: content), last) := by
      have within : t.position + (b :: content).length ≤ t.bytes.length := stands.append.within
      simp only [Scan.block, Scan.run_perform, Readable.perform, Resident.block, same,
        if_pos within, stands.ahead, List.take_left]
    rw [payloadBytes, if_neg (by simp), run_bind_lift, taken]
    rfl

/-- A length that the dictionary declares is taken if the keyword that ends a stream follows. -/
theorem payloadLength_declared {dict : Dictionary} {after : Resident}
    (stands : t.Stands (content ++ rest)) (further : rest ≠ [])
    (declared : Payload.declaredLength dict resolve = some content.length)
    (found : Scan.endStreamFollows.run (t.move content.length) = ((true, false), after)) :
    (payloadLength t.position ((Payload.declaredLength dict resolve).filter
      (Payload.fits t.position t.bytes.length))).run.run t = (.ok content.length, after) := by
  have room : Payload.fits t.position t.bytes.length content.length = true := by
    have total := stands.toHasAhead.length
    have positive := List.length_pos_iff.mpr further
    have within := stands.within
    rw [List.length_append] at total
    simp only [Payload.fits, Bool.or_eq_true, decide_eq_true_eq]
    omega
  rw [declared, Option.filter_some, room, if_pos rfl, payloadLength,
    run_bind_ok (skipPayload_passes stands), run_bind_lift, found]
  rfl

/-- Once its length is known, the bytes behind the line of the first keyword are the payload. -/
theorem payload_taken {dict : Dictionary} {u after : Resident}
    (line : Scan.nextLine.run t = ((), u)) (stands : u.Stands (content ++ rest))
    (length : (payloadLength u.position ((Payload.declaredLength dict resolve).filter
      (Payload.fits u.position u.bytes.length))).run.run u = (.ok content.length, after))
    (same : after.bytes = u.bytes) :
    (payload dict resolve).run.run t = (.ok content, (skipEndStream.run after).2) := by
  have size : Scan.documentSize.run u = (u.bytes.length, u) := rfl
  rw [payload, run_bind_lift, line, run_bind_lift, Scan.position_run, run_bind_lift, size,
    run_bind_ok length, run_bind_ok (payloadBytes_found stands after same), run_bind_lift]
  rfl

/-- A payload of the length that its dictionary gives, whatever its bytes are. -/
theorem payload_run
    (stands : t.Stands ([Byte.lineFeed] ++ (content ++ ([Byte.lineFeed] ++
      (Payload.endStream ++ (Indirect.footer ++ rest))))))
    (declares : Object.Declares entries content) (wide : 16 ≤ t.limits.wordLength) :
    (payload entries resolve).run.run t =
      (.ok content, (t.move (1 + content.length + 10)).keep Payload.endObject) := by
  have inside : (t.move 1).Stands (content ++ ([Byte.lineFeed] ++
    (Payload.endStream ++ (Indirect.footer ++ rest)))) := stands.append
  have behind := inside.append
  have line := Scan.nextLine_passes stands.toHasAhead (.feed _)
  have found := Scan.endStreamFollows_run behind (Lexis.ends_cons rfl _) wide
  have after : ((((t.move 1).move content.length).move 10).keep Payload.endStream).Stands
      ([Byte.lineFeed] ++ (Payload.endObject ++ ([Byte.lineFeed] ++ rest))) :=
    behind.append.append.keep Payload.endStream
  have tail := Scan.skipEndStream_run after wide
  have length := payloadLength_declared inside (by simp) (declares.length resolve) found
  rw [payload_taken line inside length rfl, tail]
  simp [Resident.move_move]

theorem dictionary_run_stream {value : Parse Object} {ahead : Bytes} {dict : Dictionary}
    {after behind last : Resident} (standing : t.HasAhead ahead)
    (ran : (Parse.entries value mode (ahead.length + 1) []).run.run t = (.ok dict, after))
    (keyword : (Scan.accept streamKeyword).run after = (true, behind))
    (taken : (payload dict resolve).run.run behind = (.ok content, last)) :
    (dictionary value resolve mode).run.run t = (.ok (.stream dict content), last) := by
  rw [dictionary, run_bind_lift, Scan.remaining_run standing, run_bind_ok ran, run_bind_lift, keyword]
  simp only [↓reduceIte]
  rw [run_bind_ok taken]
  rfl

/-- What is read as a stream, behind the brackets that open its dictionary. -/
theorem dictionary_reads_stream
    (stands : t.Stands (Object.renderEntries entries ++
      (Object.enclosed content ++ (Indirect.footer ++ rest))))
    (writable : Object.Writable t.limits.wordLength (.dictionary entries))
    (declares : Object.Declares entries content) (wide : 16 ≤ t.limits.wordLength)
    (enough : Object.heightEntries entries ≤ levels) :
    Reads (dictionary (body resolve levels .loose) resolve mode) t
      ((Object.renderEntries entries).length + (Object.enclosed content).length)
      (.stream entries content) := by
  have room := Object.length_renderEntries entries
    (Object.enclosed content ++ (Indirect.footer ++ rest))
  have taking := @entries_run resolve levels mode t _ entries (fun item _ => readsBack item.2)
    writable.2 wide stands _ room [] writable.1
  have behind := stands.append.keep [Byte.greater, Byte.greater]
  rw [Object.enclosed_text] at behind
  have isWord (ahead : Bytes) : IsWord streamKeyword ([Byte.lineFeed] ++ ahead) :=
    Lexis.isWord_run (by decide) rfl (Lexis.ends_cons rfl ahead)
  have short : streamKeyword.length ≤ t.limits.wordLength := Nat.le_trans (by decide) wide
  have keyword := Scan.accept_found behind rfl (isWord _) short
  have inside := behind.append.append.keep streamKeyword
  rw [Resident.move_move] at inside
  have taken := @payload_run resolve _ _ _ _ inside declares wide
  refine ⟨Payload.endObject, ?_⟩
  rw [dictionary_run_stream stands.toHasAhead (taking.reads enough) keyword taken,
    Object.length_enclosed]
  simp only [Resident.keep_move, Resident.keep_keep, Resident.move_move, Nat.add_assoc]
  rfl

/-- A stream is read back from its written form. -/
theorem reads_stream
    (stands : t.Stands (gap ++ (Object.inFull (.stream entries content) ++
      (Indirect.footer ++ rest))))
    (blank : gap.all Byte.isWhitespace = true)
    (writable : Object.Writable t.limits.wordLength (.dictionary entries))
    (declares : Object.Declares entries content) (wide : 16 ≤ t.limits.wordLength)
    (enough : Object.height (.stream entries content) ≤ levels) :
    Reads (body resolve levels mode) t
      (gap.length + (Object.inFull (.stream entries content)).length) (.stream entries content) := by
  obtain ⟨levels, rfl⟩ := Nat.exists_eq_succ_of_ne_zero
    (Nat.ne_of_gt (Nat.lt_of_lt_of_le (Nat.succ_pos _) enough))
  have total := congrArg List.length (Object.stream_text entries content [])
  simp only [List.append_nil, List.length_append] at total
  rw [Object.stream_text] at stands
  have isWord (ahead : Bytes) : IsWord [Byte.less, Byte.less] ahead := Lexis.isWord_pair (.inl rfl)
  have short : [Byte.less, Byte.less].length ≤ t.limits.wordLength := Nat.le_trans (by decide) wide
  have inside := (Scan.word_run_piece stands blank (isWord _) short).2
  obtain ⟨kept, ran⟩ := @dictionary_reads_stream resolve levels mode _ _ _ entries inside writable
    declares wide (Nat.le_of_succ_le_succ enough)
  refine ⟨kept, ?_⟩
  rw [body_run_piece stands blank (isWord _) short]
  change (rewinding t.position (dictionary (body resolve levels .loose) resolve mode)).run.run _ = _
  rw [rewinding_run ran, total]
  simp only [Resident.keep_move, Resident.keep_keep, Resident.move_move, Nat.add_assoc]

theorem closed_footer_rest (rest : Bytes) : Closed (Indirect.footer ++ rest) :=
  Lexis.closed_of_lead (Lexis.ends_cons rfl _)
    (show Lexis.lead (Indirect.footer ++ rest) = some 'e'.toUInt8 from rfl) rfl

/-- Every object that is written in full is read back in front of the keyword that ends it. -/
theorem reads_inFull {o : Object}
    (stands : t.Stands (gap ++ (o.inFull ++ (Indirect.footer ++ rest))))
    (blank : gap.all Byte.isWhitespace = true) (complete : o.Complete t.limits.wordLength)
    (wide : 16 ≤ t.limits.wordLength) (enough : o.height ≤ levels) :
    Reads (body resolve levels mode) t (gap.length + o.inFull.length) o := by
  by_cases written : o.Writable t.limits.wordLength
  · rw [written.inFull_eq] at stands ⊢
    have before : Before t gap o (Indirect.footer ++ rest) :=
      { stands
        blank
        closed := closed_footer_rest rest
        wide
        writable := written }
    exact (readsBack o levels mode t _ _ before).1 enough
  · cases o with
    | stream entries content =>
      exact reads_stream stands blank complete.1 complete.2 wide enough
    | _ => exact absurd complete written

/-- An indirect object that is written in full is read from where it stands, wherever the cursor is. -/
theorem indirectAt_run {i : Indirect} {position : Nat}
    (stands : { t with position }.Stands (i.inFull ++ rest))
    (listable : i.Listable t.limits.wordLength (t.limits.nesting - t.limits.depth))
    (wide : 16 ≤ t.limits.wordLength) :
    ∃ after, (indirectAt position resolve).run.run t = (.ok i, after) ∧
      after.Stands (Indirect.footer ++ rest) ∧ after.limits = t.limits ∧
      after.position = position + (i.header ++ i.object.inFull).length := by
  obtain ⟨fits, complete, enough⟩ := listable
  have seek : (Scan.seek position).run t = ((), { t with position }) := Scan.seek_run stands.within
  have text : i.inFull ++ rest = i.header ++ (i.object.inFull ++ (Indirect.footer ++ rest)) := by
    simp only [Indirect.inFull, List.append_assoc]
  rw [text] at stands
  obtain ⟨u, behind, place, limits, header⟩ :=
    @headerAndObject_run resolve t.limits.mode _ _ _ fits stands wide
  have kept : u.limits = t.limits := limits
  obtain ⟨last, ran⟩ := @reads_inFull resolve (u.limits.nesting - u.limits.depth) t.limits.mode
    u _ _ _ behind rfl (kept ▸ complete) (kept ▸ wide) (kept ▸ enough)
  rw [← anyObject_run] at ran
  refine ⟨_, ?_, (behind.append.append.keep last), kept, ?_⟩
  · rw [indirectAt, run_bind_lift, seek, run_bind_lift, Scan.settings_run, indirect, whole_resident,
      header, run_bind_ok ran, Resident.move_move]
    rfl
  · simp only [Resident.keep_position, Resident.move_position, List.length_append,
      List.length_singleton] at place ⊢
    omega

end Parse
end PdfObjects
