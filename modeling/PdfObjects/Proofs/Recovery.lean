import Mathlib.Data.List.Basic
import PdfObjects.Proofs.Payloads
import PdfObjects.Proofs.WordSearch

/-! Streams whose dictionary gives no length that can be used. The payload then goes up to the first keyword
that ends a stream or an object and stands alone, and the line ending in front of that does not belong to
it. Which keyword it is, and what is glued to other letters in between, does not matter. -/
namespace PdfObjects

namespace Lexis

variable {holds other : Nat → Bool} {start : Nat} {found met : Option Nat}
  {text front ending : Bytes} {b : UInt8}

/-- There is one first place. -/
theorem First.unique (first : First holds start found) (same : First holds start met) : found = met := by
  cases found with
  | none =>
    cases met with
    | none => rfl
    | some stop => exact absurd (first stop same.1) (by rw [same.2.1]; decide)
  | some stop =>
    cases met with
    | none => exact absurd (same stop first.1) (by rw [first.2.1]; decide)
    | some last =>
      obtain ⟨behind, here, before⟩ := first
      obtain ⟨after, there, earlier⟩ := same
      rcases Nat.lt_trichotomy stop last with less | equal | more
      · exact absurd (earlier stop behind less) (by rw [here]; decide)
      · rw [equal]
      · exact absurd (before last after more) (by rw [there]; decide)

/-- The first place of either kind is the nearer of the first places. -/
theorem First.merge (first : First holds start found) (second : First other start met) :
    First (fun place => holds place || other place) start (found.merge min met) := by
  cases found with
  | none =>
    cases met with
    | none => exact fun place behind => by simp [first place behind, second place behind]
    | some stop =>
      obtain ⟨behind, here, before⟩ := second
      exact ⟨behind, by simp [here], fun place after ahead => by
        simp [first place after, before place after ahead]⟩
  | some stop =>
    obtain ⟨behind, here, before⟩ := first
    cases met with
    | none =>
      exact ⟨behind, by simp [here], fun place after ahead => by
        simp [second place after, before place after ahead]⟩
    | some last =>
      obtain ⟨after, there, earlier⟩ := second
      refine ⟨Nat.le_min.mpr ⟨behind, after⟩, ?_, fun place further ahead => ?_⟩
      · rcases Nat.le_total stop last with nearer | nearer
        · simp [Nat.min_eq_left nearer, here]
        · simp [Nat.min_eq_right nearer, there]
      · simp [before place further (Nat.lt_of_lt_of_le ahead (Nat.min_le_left _ _)),
          earlier place further (Nat.lt_of_lt_of_le ahead (Nat.min_le_right _ _))]

/-- Where a text ends in front of a place, without one line ending before that. -/
def endBefore (text : Bytes) (stop : Nat) : Nat :=
  if 2 ≤ stop ∧ endingLength (text.drop (stop - 2)) = 2 then stop - 2
  else if 1 ≤ stop ∧ endingLength (text.drop (stop - 1)) = 1 then stop - 1 else stop

/-- Only a carriage return and a line feed make a line ending of two bytes. -/
theorem endingLength_pair {place : Nat} (two : endingLength (text.drop place) = 2) :
    text[place]? = some Byte.carriageReturn ∧ text[place + 1]? = some Byte.lineFeed := by
  have first : text[place]? = (text.drop place).head? := List.head?_drop.symm
  have second : text[place + 1]? = (text.drop place).tail.head? := by
    rw [List.tail_drop, List.head?_drop]
  rw [first, second]
  generalize text.drop place = text at two
  unfold endingLength at two
  split at two
  · split at two
    · rename_i back
      split at two
      · exact ⟨congrArg some back, ‹_›⟩
      · cases two
    · split at two <;> cases two
  · cases two

/-- One line ending in front of a place is stepped over, if what is before it does not make it longer. -/
theorem endBefore_ending (plain : Byte.isLineEnding b = false)
    (kind : ending = [] ∨ ending ∈ lineEndings)
    (bare : ending = [] → ∀ x, front.getLast? = some x → Byte.isLineEnding x = false)
    (edge : ending = [Byte.lineFeed] → front.getLast? ≠ some Byte.carriageReturn) (tail : Bytes) :
    endBefore (front ++ (ending ++ b :: tail)) (front.length + ending.length) = front.length := by
  have length := endingLength_append kind plain tail
  have last {place : Nat} {x : UInt8} {rest : Bytes} (inside : place + 1 = front.length)
      (found : (front ++ rest)[place]? = some x) : front.getLast? = some x := by
    rw [List.getElem?_append_left (by omega)] at found
    rw [List.getLast?_eq_getElem?, ← inside, Nat.add_sub_cancel, found]
  -- One byte that ends a line is all of the line ending.
  have single (c : UInt8) (same : ending = [c]) : endBefore (front ++ (ending ++ b :: tail))
      (front.length + ending.length) = front.length := by
    unfold endBefore
    subst same
    rw [if_neg, if_pos, List.length_singleton, Nat.add_sub_cancel]
    · refine ⟨Nat.succ_pos _, ?_⟩
      rw [List.length_singleton, Nat.add_sub_cancel, List.drop_left, length, List.length_singleton]
    · rintro ⟨enough, two⟩
      obtain ⟨back, feed⟩ := endingLength_pair two
      rw [List.length_singleton] at enough back feed
      have here : front.length + 1 - 2 + 1 = front.length := by omega
      rw [here, List.getElem?_append_right (Nat.le_refl _), Nat.sub_self] at feed
      cases feed
      exact edge rfl (last here back)
  simp only [lineEndings, List.mem_cons, List.not_mem_nil, or_false] at kind
  rcases kind with rfl | same | same | rfl
  · unfold endBefore
    rw [if_neg, if_neg]
    · rfl
    · rintro ⟨enough, one⟩
      rw [List.length_nil, Nat.add_zero] at enough one
      obtain ⟨start, x, same⟩ := (List.eq_nil_or_concat front).resolve_left (List.length_pos_iff.mp enough)
      rw [List.concat_eq_append] at same
      subst same
      have bareEnd := bare rfl x List.getLast?_concat
      rw [List.length_append, List.length_singleton, Nat.add_sub_cancel, List.append_assoc,
        List.drop_left] at one
      have none := endingLength_append (.inl rfl) bareEnd (b :: tail)
      exact absurd (one.symm.trans none) (by decide)
    · rintro ⟨enough, two⟩
      obtain ⟨_, feed⟩ := endingLength_pair two
      rw [List.length_nil, Nat.add_zero] at enough feed
      exact absurd (bare rfl _ (last (by omega) feed)) (by decide)
  · exact single _ same
  · exact single _ same
  · unfold endBefore
    rw [if_pos]
    · rfl
    · refine ⟨Nat.le_add_left _ _, ?_⟩
      change endingLength (List.drop (front.length + 2 - 2) _) = 2
      rw [Nat.add_sub_cancel, List.drop_left, length]
      rfl
end Lexis

namespace Payload

theorem endStream_solid : Lexis.Solid endStream := ⟨by decide, by decide⟩

theorem endObject_solid : Lexis.Solid endObject := ⟨by decide, by decide⟩

/-- Whether a value in the place of a length tells nothing about a payload: it is no number, its integer
part is negative, or it is positive and reaches up to the end of the document. -/
def Useless (value : Object) (start size : Nat) : Prop :=
  ∀ length, value.asInteger = some length → length < 0 ∨ (0 < length ∧ (size : Int) ≤ start + length)

/-- The dictionaries that give no usable length of a payload. -/
inductive Unusable (dict : Dictionary) (resolve : Resolver) (start size : Nat) : Prop where
  | missing (absent : dict.get? lengthKey = none)
  | direct {value : Object} (entry : dict.get? lengthKey = some value)
    (plain : value.asReference = none) (useless : Useless value start size)
  | unresolved {number generation : Nat} (entry : dict.get? lengthKey = some (.reference number generation))
    (unknown : resolve number = none)
  | resolved {number generation : Nat} {value : Object}
    (entry : dict.get? lengthKey = some (.reference number generation))
    (known : resolve number = some value) (useless : Useless value start size)

variable {dict : Dictionary} {resolve : Resolver} {start size : Nat}

/-- A useless value is not used. -/
theorem Useless.filter {value : Object} (useless : Useless value start size) :
    ((value.asInteger.bind fun length => if 0 ≤ length then some length.toNat else none).filter
      (fits start size)) = none := by
  cases number : value.asInteger with
  | none => rfl
  | some length =>
    rw [Option.bind_some]
    split
    · rename_i natural
      rcases useless length number with negative | ⟨positive, long⟩
      · omega
      · have unfit : fits start size length.toNat = false := by
          simp only [fits, Bool.or_eq_false_iff, decide_eq_false_iff_not]
          omega
        rw [Option.filter_some, unfit]
        rfl
    · rfl

theorem Unusable.filter (unusable : Unusable dict resolve start size) :
    (declaredLength dict resolve).filter (fits start size) = none := by
  unfold declaredLength
  rw [← lengthKey]
  cases unusable with
  | missing absent => rw [absent]; rfl
  | @direct value entry plain useless =>
    rw [entry]
    cases value with
    | reference number generation => cases plain
    | _ => exact useless.filter
  | unresolved entry unknown => simp [entry, unknown]
  | resolved entry known useless =>
    have filtered := useless.filter
    simp only [entry, Option.bind_eq_bind, Option.bind_some, known]
    exact filtered

end Payload

namespace Scan

variable {t : Resident} {front ending tail : Bytes}

/-- Stepping back from a keyword, but not behind the cursor. -/
theorem trim_run (stop : Nat) (t : Resident) : (payloadEnd.trim stop).run t =
    (if t.position ≤ Lexis.endBefore t.bytes stop then some (Lexis.endBefore t.bytes stop) else none,
      t) := by
  unfold Lexis.endBefore
  by_cases pair : 2 ≤ stop ∧ Lexis.endingLength (t.bytes.drop (stop - 2)) = 2
  · rw [if_pos pair]
    simp only [payloadEnd.trim, if_pos pair.1, run_bind, lineEndingAt_length, pair.2, ne_eq,
      not_true_eq_false, false_and, ↓reduceIte]
    rfl
  · rw [if_neg pair]
    by_cases enough : 2 ≤ stop
    · have other : Lexis.endingLength (t.bytes.drop (stop - 2)) ≠ 2 := fun two => pair ⟨enough, two⟩
      have positive : 1 ≤ stop := Nat.le_of_succ_le enough
      simp only [payloadEnd.trim, if_pos enough, run_bind, lineEndingAt_length, other, positive, ne_eq,
        not_false_eq_true, and_self, true_and, ↓reduceIte]
      rfl
    · have none : ¬ (0 : Nat) = 2 := by decide
      by_cases positive : 1 ≤ stop
      · rw [payloadEnd.trim, if_neg enough]
        simp only [run_bind, run_pure, ne_eq, none, not_false_eq_true, positive, and_self,
          lineEndingAt_length, true_and, ↓reduceIte]
        rfl
      · rw [payloadEnd.trim, if_neg enough]
        simp only [run_bind, run_pure, positive, and_false, none, false_and, ↓reduceIte]
        rfl

/-- The keywords up to which a payload goes whose length is not known. -/
def isStop (text : Bytes) (place : Nat) : Bool :=
  Lexis.standsAlone Payload.endStream text place || Lexis.standsAlone Payload.endObject text place

/-- The search for the end of a payload goes by the first of the keywords, if there is one. -/
theorem payloadEnd_first {ahead : Bytes} (stands : t.Stands ahead) :
    ∃ found, Lexis.First (isStop t.bytes) t.position found ∧ payloadEnd.run t =
      match found with
      | some stop => (payloadEnd.trim stop).run t
      | none => (none, t) := by
  obtain ⟨stream, ranStream, firstStream⟩ := findWord_first Payload.endStream_solid stands
  obtain ⟨object, ranObject, firstObject⟩ := findWord_first Payload.endObject_solid stands
  refine ⟨_, firstStream.merge firstObject, ?_⟩
  simp only [payloadEnd, run_bind, ranStream, ranObject]
  cases stream <;> cases object <;> rfl

end Scan

namespace Parse

variable {resolve : Resolver} {dict : Dictionary} {t : Resident}
  {rest opening ending content keyword : Bytes}

/-- What stands before the line ending in front of a keyword. A line feed there is not joined to what is
before it: the line of the opening keyword has been closed, and the payload does not end in a carriage
return. -/
theorem line_apart (opens : Lexis.Terminates opening (content ++ ending))
    (edge : ending = [Byte.lineFeed] → content.getLast? ≠ some Byte.carriageReturn) :
    ending = [Byte.lineFeed] → (opening ++ content).getLast? ≠ some Byte.carriageReturn := by
  intro feed
  have last := edge feed
  cases content with
  | cons b content =>
    rw [List.getLast?_append_of_ne_nil _ (by simp)]
    exact last
  | nil =>
    subst feed
    cases opens with
    | pair | feed => decide
    | lone alone => exact absurd rfl alone

/-- The length of a payload up to the first keyword that stands alone. -/
theorem searchedLength_found {stop : Nat} (stands : t.Stands (content ++ rest))
    (first : Lexis.First (Scan.isStop t.bytes) t.position (some stop))
    (ends : Lexis.endBefore t.bytes stop = t.position + content.length) :
    (searchedLength t.position).run.run t = (.ok content.length, t.move content.length) := by
  obtain ⟨found, nearest, ran⟩ := Scan.payloadEnd_first stands
  obtain rfl := nearest.unique first
  have trimmed : Scan.payloadEnd.run t = (some (t.position + content.length), t) := by
    rw [ran]
    dsimp only
    rw [Scan.trim_run, ends, if_pos (Nat.le_add_right _ _)]
  have skipped := skipPayload_passes stands
  rw [searchedLength, run_bind_lift, trimmed]
  simp only [Nat.add_sub_cancel_left]
  rw [run_bind_ok skipped]
  rfl

/-- A payload without a usable length, in front of the first keyword that stands alone. -/
theorem payload_recovered
    (stands : t.Stands (opening ++ (content ++ (ending ++ (keyword ++ rest)))))
    (opens : Lexis.Terminates opening (content ++ ending)) (kind : ending ∈ Lexis.lineEndings)
    (edge : ending = [Byte.lineFeed] → content.getLast? ≠ some Byte.carriageReturn)
    (terminal : keyword = Payload.endStream ∨ keyword = Payload.endObject)
    (unusable : Payload.Unusable dict resolve (t.position + opening.length) t.bytes.length)
    (first : Lexis.First (Scan.isStop t.bytes) (t.position + opening.length)
      (some (t.position + opening.length + (content.length + ending.length)))) :
    ∃ last, (payload dict resolve).run.run t = (.ok content, last) := by
  have inside := stands.append
  obtain ⟨letters, same⟩ : ∃ letters, keyword ++ rest = 'e'.toUInt8 :: letters := by
    rcases terminal with rfl | rfl <;> exact ⟨_, rfl⟩
  have line := Scan.nextLine_opens (same ▸ stands.toHasAhead) opens (by decide)
  -- The document up to the line ending in front of the keyword: what is before the payload, and that.
  have front : t.bytes = (t.bytes.take t.position ++ (opening ++ content)) ++
      (ending ++ 'e'.toUInt8 :: letters) := by
    rw [← same]
    simpa [stands.ahead] using (List.take_append_drop t.position t.bytes).symm
  have total : (t.bytes.take t.position ++ (opening ++ content)).length =
      t.position + opening.length + content.length := by
    simp only [List.length_append, List.length_take_of_le stands.within, Nat.add_assoc]
  have nonempty : opening ++ content ≠ [] := by cases opens <;> simp
  have apart (feed : ending = [Byte.lineFeed]) : (t.bytes.take t.position ++
      (opening ++ content)).getLast? ≠ some Byte.carriageReturn := by
    rw [List.getLast?_append_of_ne_nil _ nonempty]
    exact line_apart opens edge feed
  have bare (none : ending = []) : ending ∉ Lexis.lineEndings := by rw [none]; decide
  have plain : Byte.isLineEnding 'e'.toUInt8 = false := rfl
  have ends := Lexis.endBefore_ending plain (.inr kind) (fun none => absurd kind (bare none)) apart letters
  rw [← front, total, Nat.add_assoc] at ends
  have length : (payloadLength (t.position + opening.length) none).run.run (t.move opening.length) =
      (.ok content.length, (t.move opening.length).move content.length) :=
    searchedLength_found inside first ends
  rw [← unusable.filter] at length
  exact ⟨_, payload_taken line inside length rfl⟩

end Parse

namespace Reader

variable {document gap opening content ending keyword rest : Bytes} {r : Reader} {resolve : Resolver}
  {dict : Dictionary} {start : Nat}

/-- A length that cannot be used does no harm. Take any reader of a whole document, wherever it stands, and
let it stand at a dictionary without a usable length: there is none, it is no number, its integer part is
negative, it is behind a reference that leads to no number, or it is positive and reaches up to the end of
the document. Let the keyword that opens a stream follow, behind blanks and comments, then the end of that
line, the payload, a line ending and a keyword that ends a stream or an object, the first from the start
of the payload on that stands alone. If the line endings are told apart from what is next to them, then the
stream is read, with this dictionary and exactly this payload. -/
theorem Whole.recovers_payload (whole : r.Whole document)
    (head : ((Parse.dictionaryHead resolve).run.run r).1 = .ok dict)
    (closed : Lexis.isGap false gap = true) (opens : Lexis.Terminates opening (content ++ ending))
    (kind : ending ∈ Lexis.lineEndings)
    (edge : ending = [Byte.lineFeed] → content.getLast? ≠ some Byte.carriageReturn)
    (terminal : keyword = Payload.endStream ∨ keyword = Payload.endObject)
    (text : document.drop (r.origin + ((Parse.dictionaryHead resolve).run.run r).2.position) =
      gap ++ Parse.streamKeyword ++ opening ++ content ++ ending ++ keyword ++ rest)
    (place : start = ((Parse.dictionaryHead resolve).run.run r).2.position +
      (gap ++ Parse.streamKeyword ++ opening).length)
    (unusable : Payload.Unusable dict resolve start (document.drop r.origin).length)
    (first : Lexis.First (Scan.isStop (document.drop r.origin)) start
      (some (start + (content ++ ending).length))) :
    ((Parse.object resolve).run.run r).1 = .ok (.stream dict content) := by
  have ends : Lexis.Ends (opening ++ (content ++ (ending ++ (keyword ++ rest)))) := by
    cases opens <;> exact Lexis.ends_cons rfl _
  simp only [List.append_assoc] at text
  obtain ⟨v, stands, wide, bytes, position, reads⟩ := whole.stream_behind head closed ends text
  have here : v.position + opening.length = start := by
    rw [position, place, List.length_append, List.length_append, Nat.add_assoc]
  rw [← bytes, ← here] at unusable first
  rw [List.length_append] at first
  obtain ⟨last, taken⟩ :=
    Parse.payload_recovered stands opens kind edge terminal unusable first
  exact reads content last taken

/-- A stream whose length cannot be looked up. Its payload holds a keyword between other letters and one in
front of a delimiter, and the keyword that ends it is that of the object. -/
def gluedText : Bytes :=
  Bytes.ofAscii "<</Length 3 0 R>>stream\r\n\nxendstream endobj/\r\nendobj".toList

def gluedReader : Reader := ofText gluedText { windowSize := 5 }

def gluedDictionary : Dictionary := [(Payload.lengthKey, .reference 3 0)]

theorem gluedReader_head :
    ((Parse.dictionaryHead fun _ => none).run.run gluedReader).1 = .ok gluedDictionary := by
  rfl

theorem gluedReader_recovers : ((Parse.object fun _ => none).run.run gluedReader).1 =
    .ok (.stream gluedDictionary (Bytes.ofAscii "\nxendstream endobj/".toList)) := by
  have whole : gluedReader.Whole gluedText := ofText_whole gluedText _
  have text : gluedText.drop (gluedReader.origin +
      ((Parse.dictionaryHead fun _ => none).run.run gluedReader).2.position) =
      [] ++ Parse.streamKeyword ++ [Byte.carriageReturn, Byte.lineFeed] ++
        Bytes.ofAscii "\nxendstream endobj/".toList ++ [Byte.carriageReturn, Byte.lineFeed] ++
        Payload.endObject ++ [] := by
    decide +kernel
  have place : 25 = ((Parse.dictionaryHead fun _ => none).run.run gluedReader).2.position +
      (([] : Bytes) ++ Parse.streamKeyword ++ [Byte.carriageReturn, Byte.lineFeed]).length := by
    decide +kernel
  have first : Lexis.First (Scan.isStop gluedText) 25 (some 46) := by
    have none : ∀ place < 46, 25 ≤ place → Scan.isStop gluedText place = false := by decide +kernel
    exact ⟨by decide, by decide +kernel, fun place behind before => none place before behind⟩
  exact whole.recovers_payload gluedReader_head rfl (.pair _) (by decide) (by decide) (.inr rfl) text
    place (.unresolved rfl rfl) first

/-- The length of this stream is negative, but its integer part is not. -/
def fractionText : Bytes := Bytes.ofAscii "<</Length -0.5>>stream\nendstreamX\nabc\nendstream".toList

def fractionReader : Reader := ofText fractionText {}

/-- One half, negative. -/
def minusHalf : Double := ⟨0xbfe0000000000000⟩

theorem fractionReader_head : ((Parse.dictionaryHead fun _ => none).run.run fractionReader).1 =
    .ok [(Payload.lengthKey, .real minusHalf)] := by
  rfl

/-- A negative fraction counts as the length zero, and that is used if letters that start like the keyword
happen to follow. So this payload is read as empty, although its length is negative and it goes up to the
first keyword that stands alone. -/
theorem fractionReader_reads_empty :
    let content := Bytes.ofAscii "endstreamX\nabc".toList
    let dict := [(Payload.lengthKey, Object.real minusHalf)]
    fractionReader.Whole fractionText ∧
    ((Parse.dictionaryHead fun _ => none).run.run fractionReader).1 = .ok dict ∧
    minusHalf.toFloat < 0 ∧
    fractionText.drop (fractionReader.origin +
        ((Parse.dictionaryHead fun _ => none).run.run fractionReader).2.position) =
      Parse.streamKeyword ++ [Byte.lineFeed] ++ content ++ [Byte.lineFeed] ++ Payload.endStream ∧
    Lexis.First (Scan.isStop fractionText) 23 (some 38) ∧
    ((Parse.object fun _ => none).run.run fractionReader).1 = .ok (.stream dict []) ∧
    ((Parse.object fun _ => none).run.run fractionReader).1 ≠ .ok (.stream dict content) := by
  intro content dict
  have read : ((Parse.object fun _ => none).run.run fractionReader).1 = .ok (.stream dict []) := by
    rfl
  have none : ∀ place < 38, 23 ≤ place → Scan.isStop fractionText place = false := by decide +kernel
  refine ⟨ofText_whole fractionText _, fractionReader_head,
    by decide +kernel, by decide +kernel, ⟨by decide, by decide +kernel, fun place behind before =>
      none place before behind⟩, read, fun other => ?_⟩
  have empty : ([] : Bytes) = content := (Object.stream.inj (Except.ok.inj (read.symm.trans other))).2
  exact absurd empty (by decide +kernel)

end Reader
end PdfObjects
