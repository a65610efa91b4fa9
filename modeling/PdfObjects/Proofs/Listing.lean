import Mathlib.Data.List.Induction
import PdfObjects.CommandLine
import PdfObjects.Proofs.Streams

/-! The listing of objects is complete. In a document of indirect objects, one behind the other, every
object is found at its header and nothing else is, whatever the texts inside the objects look like: the
search goes on behind what was read, and the keyword in front of the next header is that of the end of an
object, which does not stand alone. -/
namespace PdfObjects

open Lexis (IsWord Ends Closed)

namespace Resident

/-- A reader without a record, between two parts of its document. -/
structure Between (t : Resident) (done ahead : Bytes) : Prop where
  bytes : t.bytes = done ++ ahead
  position : t.position = done.length
  unrecorded : t.trailerEnds = none

variable {t : Resident} {done ahead text rest : Bytes}

theorem Between.stands (between : t.Between done ahead) : t.Stands ahead :=
  { ahead := by rw [between.bytes, between.position, List.drop_left]
    unrecorded := between.unrecorded
    within := by simp [between.bytes, between.position] }

theorem Between.append (between : t.Between done (text ++ rest)) :
    (t.move text.length).Between (done ++ text) rest :=
  { bytes := between.bytes.trans (List.append_assoc done text rest).symm
    position := by simp [between.position]
    unrecorded := between.unrecorded }

end Resident

namespace Scan

variable {t : Resident} {b first : UInt8} {tag gap rest : Bytes}

theorem agrees_run (stands : t.Stands (tag ++ rest)) :
    (agrees tag).run t = (some true, t.move tag.length) := by
  induction tag generalizing t with
  | nil => rfl
  | cons expected tag ih =>
    have behind : (t.move 1).Stands (tag ++ rest) := @Resident.Stands.append _ [expected] _ stands
    simp only [agrees, run_bind, next_run stands.toHasAhead, ↓reduceIte, ih behind, Resident.move_move,
      List.length_cons, Nat.add_comm]

/-- A tag is not looked for at a byte with which it does not start. -/
theorem findFrom_skip (stands : t.Stands (gap ++ rest)) (other : first ∉ gap) (fuel : Nat) :
    (findFrom (first :: tag) (gap.length + fuel)).run t =
      (findFrom (first :: tag) fuel).run (t.move gap.length) := by
  induction gap generalizing t with
  | nil => simp
  | cons b gap ih =>
    obtain ⟨differs, later⟩ := not_or.mp (List.mem_cons.not.mp other)
    have behind : (t.move 1).Stands (gap ++ rest) := @Resident.Stands.append _ [b] _ stands
    have rejected : (agrees (first :: tag)).run t = (some false, t.move 1) := by
      simp only [agrees, run_bind, next_run stands.toHasAhead, if_neg (Ne.symm differs)]
      rfl
    have forward : (seek (t.position + 1)).run (t.move 1) = ((), t.move 1) :=
      seek_run behind.within
    rw [List.length_cons, Nat.add_right_comm, findFrom]
    simp only [run_bind, position_run, rejected, forward, ih behind later, Resident.move_move]
    rw [Nat.add_comm]

/-- A tag is found at the first place where it stands. -/
theorem findTag_found (stands : t.Stands (gap ++ (first :: tag ++ rest))) (other : first ∉ gap) :
    (findTag (first :: tag)).run t =
      (some gap.length, t.move (gap.length + (first :: tag).length)) := by
  have enough : (gap ++ (first :: tag ++ rest)).length =
      gap.length + ((tag ++ rest).length + 1) := by simp
  have here := stands.append
  have met := agrees_run here
  have found : (findFrom (first :: tag) ((tag ++ rest).length + 1)).run (t.move gap.length) =
      (some (t.position + gap.length), t.move (gap.length + (first :: tag).length)) := by
    simp only [findFrom, run_bind, position_run, met, Resident.move_move, Resident.move_position]
    rfl
  rw [← findFrom_skip stands other, ← enough] at found
  simp only [findTag, List.isEmpty_cons, Bool.false_eq_true, ↓reduceIte, run_bind, position_run,
    remaining_run stands.toHasAhead, found]
  simp

/-- A tag is not found if no byte starts it. -/
theorem findTag_none (stands : t.Stands gap) (other : first ∉ gap) :
    (findTag (first :: tag)).run t = (none, t.move gap.length) := by
  have tried := @findFrom_skip t first tag gap [] (by simpa using stands) other 0
  rw [Nat.add_zero] at tried
  simp only [findTag, List.isEmpty_cons, Bool.false_eq_true, ↓reduceIte, run_bind, position_run,
    remaining_run stands.toHasAhead, tried]
  rfl

theorem byteAt_run {text later : Bytes} (bytes : t.bytes = text ++ b :: later) :
    (byteAt text.length).run t = (some b, t) := by
  simp only [byteAt, run_perform, Readable.perform, bytes, List.getElem?_append_right, Nat.le_refl,
    Nat.sub_self, List.getElem?_cons_zero]

/-- A keyword in front of a line feed. Whether it stands alone is up to the byte before it. -/
theorem isWholeWord_run {done : Bytes}
    (bytes : t.bytes = done ++ [b] ++ Parse.objectKeyword ++ [Byte.lineFeed] ++ rest) :
    (isWholeWord (done ++ [b]).length t.bytes.length Parse.objectKeyword false).run t =
      (!isGlue false b, t) := by
  have glued {text later : Bytes} {c : UInt8} (same : t.bytes = text ++ c :: later) :
      (isGluedAt false text.length).run t = (isGlue false c, t) := by
    simp only [isGluedAt, run_bind, byteAt_run same]
    rfl
  have left := @glued done (Parse.objectKeyword ++ [Byte.lineFeed] ++ rest) b (by simpa using bytes)
  have right := @glued (done ++ [b] ++ Parse.objectKeyword) rest Byte.lineFeed (by simpa using bytes)
  have letters : canGlue 'o'.toUInt8 = true ∧ canGlue 'j'.toUInt8 = true := by decide
  have leading : Parse.objectKeyword.head? = some 'o'.toUInt8 := rfl
  have trailing : Parse.objectKeyword.getLast? = some 'j'.toUInt8 := rfl
  have lineEnd : isGlue false Byte.lineFeed = false := rfl
  have inside : (done ++ [b]).length + Parse.objectKeyword.length ≤ t.bytes.length := by
    rw [bytes]
    simp only [List.length_append]
    omega
  rw [List.length_append] at right
  rw [isWholeWord, leading, trailing]
  simp only [Machine.wrapped_of_le inside, inside, letters, Bool.true_and, decide_true, ↓reduceIte]
  simp only [List.length_append, List.length_singleton, Nat.zero_lt_succ, decide_true, ↓reduceIte,
    Nat.add_sub_cancel] at right ⊢
  simp only [run_bind, right, lineEnd, Bool.false_eq_true, ↓reduceIte, left]
  rfl

/-- A text whose last byte is not of a class. -/
def Stops (member : UInt8 → Bool) (text : Bytes) : Prop :=
  ∃ init b, text = init ++ [b] ∧ member b = false

theorem stops_append {member : UInt8 → Bool} {run : Bytes} (done : Bytes) (nonempty : run ≠ [])
    (outside : ∀ c ∈ run, member c = false) : Stops member (done ++ run) := by
  refine ⟨done ++ run.dropLast, run.getLast nonempty, ?_, outside _ (List.getLast_mem nonempty)⟩
  rw [List.append_assoc, List.dropLast_concat_getLast]

/-- Going back over a run of bytes of one class, up to a byte of another. -/
theorem skipBack_run {member : UInt8 → Bool} {done run rest : Bytes} (stops : Stops member done)
    (inside : ∀ c ∈ run, member c = true) (bytes : t.bytes = done ++ run ++ rest) :
    (skipBack member (done ++ run).length).run t = (done.length, t) := by
  induction run using List.reverseRecOn generalizing rest with
  | nil =>
    obtain ⟨init, b, rfl, outside⟩ := stops
    have last := @byteAt_run t b init rest (by simpa using bytes)
    rw [List.append_nil, List.length_append, List.length_singleton, skipBack]
    simp only [run_bind, last, outside, Bool.false_eq_true, ↓reduceIte]
    rfl
  | append_singleton run c ih =>
    have last := @byteAt_run t c (done ++ run) rest (by simpa using bytes)
    have member : member c = true := inside c (by simp)
    have earlier := @ih ([c] ++ rest) (fun d among => inside d (by simp [among]))
      (by simpa using bytes)
    rw [← List.append_assoc, List.length_append, List.length_singleton, skipBack]
    simp only [run_bind, last, member, ↓reduceIte, earlier]

/-- The digits in front of a place, with blanks behind them. -/
theorem numberBefore_run {done digits blanks rest : Bytes} (stops : Stops Byte.isDigit done)
    (nonempty : digits ≠ []) (number : ∀ c ∈ digits, Byte.isDigit c = true)
    (blank : ∀ c ∈ blanks, Byte.isWhitespace c = true)
    (bytes : t.bytes = done ++ digits ++ blanks ++ rest) :
    (numberBefore (done ++ digits ++ blanks).length).run t = (some done.length, t) := by
  have black : Stops Byte.isWhitespace (done ++ digits) :=
    stops_append done nonempty fun c among =>
      (Lexis.inner_class (Bytes.digit_inner c (number c among)).1).2.1
  have first := skipBack_run black blank bytes
  have second := @skipBack_run t _ done digits (blanks ++ rest) stops number (by simpa using bytes)
  have some : done.length ≠ (done ++ digits).length := by
    simpa using nonempty
  simp only [numberBefore, run_bind, first, second, if_neg some]
  rfl

/-- The header of an indirect object is found from its keyword. -/
theorem headerStart_run {done rest : Bytes} {number generation : Nat}
    (stops : Stops Byte.isDigit done)
    (bytes : t.bytes = done ++ Bytes.decimal number ++ [Byte.space] ++ Bytes.decimal generation ++
      [Byte.space] ++ rest) :
    (headerStart (done ++ Bytes.decimal number ++ [Byte.space] ++ Bytes.decimal generation ++
      [Byte.space]).length).run t = (some done.length, t) := by
  have space (c : UInt8) (among : c ∈ [Byte.space]) : Byte.isWhitespace c = true := by
    rw [List.mem_singleton.mp among]
    rfl
  have between : Stops Byte.isDigit (done ++ Bytes.decimal number ++ [Byte.space]) :=
    ⟨_, Byte.space, rfl, rfl⟩
  have second := numberBefore_run between (Bytes.decimal_ne_nil generation)
    (Bytes.decimal_digits generation) space bytes
  have first := @numberBefore_run t done (Bytes.decimal number) [Byte.space]
    (Bytes.decimal generation ++ [Byte.space] ++ rest) stops (Bytes.decimal_ne_nil number)
    (Bytes.decimal_digits number) space (by simpa using bytes)
  simp only [headerStart, run_bind, second, first]

end Scan

namespace Indirect

/-- The numbers of a header, with a space behind each. -/
def numbers (i : Indirect) : Bytes :=
  Bytes.decimal i.number ++ [Byte.space] ++ Bytes.decimal i.generation ++ [Byte.space]

theorem header_eq (i : Indirect) :
    i.header = i.numbers ++ (Parse.objectKeyword ++ [Byte.lineFeed]) := by
  simp only [header, numbers, List.append_assoc]

theorem inFull_text (i : Indirect) (rest : Bytes) :
    i.inFull ++ rest = i.numbers ++ (Parse.objectKeyword ++ ([Byte.lineFeed] ++
      (i.object.inFull ++ (footer ++ rest)))) := by
  simp only [inFull, header_eq, List.append_assoc]

theorem numbers_free (i : Indirect) : 'o'.toUInt8 ∉ i.numbers := by
  have digits (n : Nat) : 'o'.toUInt8 ∉ Bytes.decimal n := by
    intro among
    exact absurd (Bytes.decimal_digits n _ among) (by decide)
  simp only [numbers, List.mem_append, List.mem_singleton, not_or]
  exact ⟨⟨⟨digits _, by decide⟩, digits _⟩, by decide⟩

end Indirect

namespace Scan

variable {t u after : Resident} {gap done rest : Bytes} {i : Indirect} {distance start : Nat}

/-- The keyword of an object in its header. -/
theorem findKeyword_header (stands : t.Stands (gap ++ (i.inFull ++ rest)))
    (free : 'o'.toUInt8 ∉ gap) :
    (findTag Parse.objectKeyword).run t =
      (some (gap ++ i.numbers).length, t.move ((gap ++ i.numbers).length + 3)) := by
  rw [Indirect.inFull_text, ← List.append_assoc] at stands
  have other : 'o'.toUInt8 ∉ gap ++ i.numbers := by
    rw [List.mem_append, not_or]
    exact ⟨free, i.numbers_free⟩
  exact findTag_found stands other

/-- It has a space before it and a line feed behind it. -/
theorem isWholeWord_header (bytes : t.bytes = done ++ (i.inFull ++ rest)) :
    (isWholeWord (done ++ i.numbers).length t.bytes.length Parse.objectKeyword false).run t =
      (true, t) := by
  rw [Indirect.inFull_text] at bytes
  have alone := @isWholeWord_run t Byte.space (i.object.inFull ++ (Indirect.footer ++ rest))
    (done ++ Bytes.decimal i.number ++ [Byte.space] ++ Bytes.decimal i.generation)
    (by simpa [Indirect.numbers] using bytes)
  have space : isGlue false Byte.space = false := rfl
  simpa only [Indirect.numbers, List.append_assoc, space, Bool.not_false] using alone

/-- The header starts in front of its numbers. -/
theorem headerStart_header (bytes : t.bytes = done ++ (i.inFull ++ rest))
    (stops : Stops Byte.isDigit done) :
    (headerStart (done ++ i.numbers).length).run t = (some done.length, t) := by
  rw [Indirect.inFull_text] at bytes
  have header := @headerStart_run t done (Parse.objectKeyword ++ ([Byte.lineFeed] ++
    (i.object.inFull ++ (Indirect.footer ++ rest)))) i.number i.generation stops
    (by simpa [Indirect.numbers] using bytes)
  simpa only [Indirect.numbers, List.append_assoc] using header

/-- One round of the search, where an object is read. -/
theorem objectsFrom_read {table : Table} {sightings : List Sighting} (fuel : Nat)
    (found : (findTag Parse.objectKeyword).run t = (some distance, u))
    (alone : (isWholeWord (t.position + distance) u.bytes.length Parse.objectKeyword false).run u =
      (true, u))
    (header : (headerStart (t.position + distance)).run u = (some start, u))
    (ran : (Parse.indirectAt start table.resolver).run.run u = (.ok i, after))
    (behind : t.position + distance + 3 ≤ after.position)
    (within : after.position ≤ after.bytes.length) :
    (objectsFrom (fuel + 1) none table sightings).run t =
      (objectsFrom fuel none (table.insertIndirect i) (⟨start, .ok i⟩ :: sightings)).run after := by
  have forward : (seek (max (t.position + distance + 3) after.position)).run after = ((), after) := by
    rw [Nat.max_eq_right behind, seek_run within]
  have size : documentSize.run u = (u.bytes.length, u) := rfl
  have length : Parse.objectKeyword.length = 3 := rfl
  simp only [objectsFrom, reduceCtorEq, ↓reduceIte, run_bind, position_run, found, size, alone,
    header, ran, length, forward, Option.map_none]

/-- One round of the search, where the keyword is part of a word. -/
theorem objectsFrom_glued {table : Table} {sightings : List Sighting} (fuel : Nat)
    (found : (findTag Parse.objectKeyword).run t = (some distance, u))
    (glued : (isWholeWord (t.position + distance) u.bytes.length Parse.objectKeyword false).run u =
      (false, u))
    (behind : u.position = t.position + distance + 3) (within : u.position ≤ u.bytes.length) :
    (objectsFrom (fuel + 1) none table sightings).run t =
      (objectsFrom fuel none table sightings).run u := by
  have forward : (seek (t.position + distance + 3)).run u = ((), u) := by
    rw [← behind, seek_run within]
  have size : documentSize.run u = (u.bytes.length, u) := rfl
  have length : Parse.objectKeyword.length = 3 := rfl
  simp only [objectsFrom, reduceCtorEq, ↓reduceIte, run_bind, position_run, found, size, glued,
    Bool.false_eq_true, length]
  rw [run_pure, run_bind, forward]

/-- At the header of an object, that object is read, and the reader stops behind it. -/
theorem objectsFrom_block (between : t.Between done (gap ++ (i.inFull ++ rest)))
    (free : 'o'.toUInt8 ∉ gap) (stops : Stops Byte.isDigit (done ++ gap))
    (listable : i.Listable t.limits.wordLength (t.limits.nesting - t.limits.depth))
    (wide : 16 ≤ t.limits.wordLength) (fuel : Nat) (table : Table) (sightings : List Sighting) :
    ∃ after, (objectsFrom (fuel + 1) none table sightings).run t =
        (objectsFrom fuel none (table.insertIndirect i)
          (⟨(done ++ gap).length, .ok i⟩ :: sightings)).run after ∧
      after.Between (done ++ gap ++ (i.header ++ i.object.inFull)) (Indirect.footer ++ rest) ∧
      after.limits = t.limits := by
  have found := findKeyword_header between.stands free
  have bytes : t.bytes = done ++ gap ++ (i.inFull ++ rest) := by
    rw [between.bytes, List.append_assoc]
  have moved : (t.move ((gap ++ i.numbers).length + 3)).bytes = done ++ gap ++ (i.inFull ++ rest) :=
    bytes
  have place : t.position + (gap ++ i.numbers).length = (done ++ gap ++ i.numbers).length := by
    simp only [between.position, List.length_append, Nat.add_assoc]
  have before : Resident.Stands { t with position := (done ++ gap).length } (i.inFull ++ rest) :=
    Resident.Between.stands ⟨bytes, rfl, between.unrecorded⟩
  obtain ⟨after, ran, behind, limits, position⟩ := @Parse.indirectAt_run table.resolver
    (t.move ((gap ++ i.numbers).length + 3)) rest i (done ++ gap).length before listable wide
  have same : after.bytes = t.bytes := by
    have continues := run_bytes (Parse.indirectAt (done ++ gap).length table.resolver).run
      (t.move ((gap ++ i.numbers).length + 3))
    rwa [ran] at continues
  have header : i.header.length = i.numbers.length + 4 := by
    rw [i.header_eq, List.length_append]
    rfl
  refine ⟨after, ?_, ?_, limits⟩
  · apply objectsFrom_read fuel found
    · rw [place]
      exact isWholeWord_header moved
    · rw [place]
      exact headerStart_header moved stops
    · exact ran
    · rw [place, position]
      simp only [List.length_append, header]
      omega
    · exact behind.within
  · exact
      { bytes := by
          rw [same, bytes]
          simp only [Indirect.inFull, List.append_assoc]
        position := by rw [position, ← List.length_append]
        unrecorded := behind.unrecorded }

/-- The keyword that ends an object is passed over. -/
theorem objectsFrom_footer (between : t.Between done (Indirect.footer ++ rest)) (fuel : Nat)
    (table : Table) (sightings : List Sighting) :
    ∃ after, (objectsFrom (fuel + 1) none table sightings).run t =
        (objectsFrom fuel none table sightings).run after ∧
      after.Between (done ++ [Byte.lineFeed] ++ Payload.endObject) ([Byte.lineFeed] ++ rest) ∧
      after.limits = t.limits := by
  have free : 'o'.toUInt8 ∉ Byte.lineFeed :: Bytes.ofAscii ['e', 'n', 'd'] := by decide
  have found : (findTag Parse.objectKeyword).run t = (some 4, t.move 7) :=
    findTag_found between.stands free
  have behind := @Resident.Between.append t done ([Byte.lineFeed] ++ Payload.endObject)
    ([Byte.lineFeed] ++ rest) between
  have place : t.position + 4 =
      (done ++ (Byte.lineFeed :: Bytes.ofAscii ['e', 'n']) ++ ['d'.toUInt8]).length := by
    rw [between.position, List.append_assoc, List.length_append]
    rfl
  -- It is the end of a longer keyword, so it does not stand alone.
  have glued := @isWholeWord_run (t.move 7) 'd'.toUInt8 rest
    (done ++ (Byte.lineFeed :: Bytes.ofAscii ['e', 'n']))
    (behind.bytes.trans (by simp only [List.append_assoc]; rfl))
  refine ⟨t.move 7, ?_, by rwa [List.append_assoc], rfl⟩
  apply objectsFrom_glued fuel found
  · rw [place]
    exact glued
  · rfl
  · exact behind.stands.within

/-- Nothing is found where nothing is left. -/
theorem objectsFrom_end (stands : t.Stands gap) (free : 'o'.toUInt8 ∉ gap) (fuel : Nat)
    (table : Table) (sightings : List Sighting) :
    ((objectsFrom fuel none table sightings).run t).1 = sightings.reverse := by
  cases fuel with
  | zero => rfl
  | succ fuel =>
    have found : (findTag Parse.objectKeyword).run t = (none, t.move gap.length) :=
      findTag_none stands free
    simp only [objectsFrom, reduceCtorEq, ↓reduceIte, run_bind, position_run, found]
    rfl

end Scan

namespace Indirect

/-- Indirect objects in writing, one behind the other. -/
def inFullAll (blocks : List Indirect) : Bytes := blocks.flatMap inFull

theorem inFullAll_cons (i : Indirect) (later : List Indirect) :
    inFullAll (i :: later) = i.inFull ++ inFullAll later := List.flatMap_cons

/-- What the search should find from a place on. -/
def sightings (start : Nat) : List Indirect → List Sighting
  | [] => []
  | i :: later => ⟨start, .ok i⟩ :: sightings (start + i.inFull.length) later

/-- The search takes two rounds for each object, and there are more bytes than that. -/
theorem length_inFullAll (blocks : List Indirect) :
    2 * blocks.length ≤ (inFullAll blocks).length := by
  induction blocks with
  | nil => exact Nat.zero_le _
  | cons i later ih =>
    have ending : footer.length = 8 := rfl
    simp only [inFullAll_cons, inFull, List.length_append, List.length_cons, ending]
    omega

end Indirect

namespace Scan
open Indirect (inFullAll sightings)

variable {t : Resident} {gap done : Bytes} {blocks : List Indirect}

/-- The search finds the objects that were written, each at its header, and nothing else. -/
theorem objectsFrom_run (between : t.Between done (gap ++ inFullAll blocks))
    (free : 'o'.toUInt8 ∉ gap) (stops : Stops Byte.isDigit (done ++ gap))
    (wide : 16 ≤ t.limits.wordLength)
    (each : ∀ i ∈ blocks, i.Listable t.limits.wordLength (t.limits.nesting - t.limits.depth))
    {fuel : Nat} (enough : 2 * blocks.length ≤ fuel) (table : Table) (found : List Sighting) :
    ((objectsFrom fuel none table found).run t).1 =
      found.reverse ++ sightings (done ++ gap).length blocks := by
  induction blocks generalizing t done gap fuel table found with
  | nil =>
    have stands := between.stands
    rw [inFullAll, List.flatMap_nil, List.append_nil] at stands
    rw [objectsFrom_end stands free, sightings, List.append_nil]
  | cons i later ih =>
    obtain ⟨fuel, rfl⟩ : ∃ later, fuel = later + 1 + 1 :=
      ⟨fuel - 2, by simp only [List.length_cons] at enough; omega⟩
    rw [Indirect.inFullAll_cons] at between
    obtain ⟨u, read, behind, limits⟩ := objectsFrom_block between free stops
      (each i List.mem_cons_self) wide (fuel + 1) table found
    obtain ⟨v, passed, ended, kept⟩ := objectsFrom_footer behind fuel (table.insertIndirect i)
      (⟨(done ++ gap).length, .ok i⟩ :: found)
    have same : v.limits = t.limits := kept.trans limits
    have stop : Stops Byte.isDigit (done ++ gap ++ (i.header ++ i.object.inFull) ++
        [Byte.lineFeed] ++ Payload.endObject ++ [Byte.lineFeed]) := ⟨_, Byte.lineFeed, rfl, rfl⟩
    have place : (done ++ gap ++ (i.header ++ i.object.inFull) ++ [Byte.lineFeed] ++
        Payload.endObject ++ [Byte.lineFeed]).length = (done ++ gap).length + i.inFull.length := by
      simp only [Indirect.inFull, Indirect.footer, List.length_append, Nat.add_assoc]
    have further := ih ended (by decide) stop (same ▸ wide)
      (same ▸ fun j among => each j (List.mem_cons_of_mem i among))
      (by simp only [List.length_cons] at enough; omega : 2 * later.length ≤ fuel)
      (table.insertIndirect i) (⟨(done ++ gap).length, .ok i⟩ :: found)
    rw [read, passed, further, place, sightings, List.reverse_cons, List.append_assoc]
    rfl

/-- The search in a document of indirect objects, behind some bytes that make up no part of a header. -/
theorem objects_complete {options : Options} {r : Reader}
    (presents : r.Presents (gap ++ inFullAll blocks) options) (free : 'o'.toUInt8 ∉ gap)
    (stops : Stops Byte.isDigit gap)
    (each : ∀ i ∈ blocks, i.Listable options.effectiveWordLength options.maxDepth) :
    ((objects 0 none).run r).1 = sightings gap.length blocks := by
  have stands := Parse.stands_start (gap ++ inFullAll blocks) options
  have between : ((Resident.ofBytes (gap ++ inFullAll blocks) options).unrecorded).Between []
      (gap ++ inFullAll blocks) := ⟨rfl, rfl, rfl⟩
  have enough : 2 * blocks.length ≤ (gap ++ inFullAll blocks).length := by
    have bound := Indirect.length_inFullAll blocks
    rw [List.length_append]
    omega
  have ran := objectsFrom_run between free stops (Nat.le_max_right _ _) each enough {} []
  have seek : (seek 0).run (Resident.ofBytes (gap ++ inFullAll blocks) options).unrecorded =
      ((), (Resident.ofBytes (gap ++ inFullAll blocks) options).unrecorded) :=
    seek_run (Nat.zero_le _)
  have whole : ((objects 0 none).run
      (Resident.ofBytes (gap ++ inFullAll blocks) options).unrecorded).1 =
        sightings gap.length blocks := by
    rw [objects, run_bind, seek, run_bind, remaining_run stands.toHasAhead, ran]
    rfl
  rw [← whole]
  exact (presents.run rfl).1

end Scan

namespace CommandLine
open Indirect (inFullAll sightings)

/-- The line in front of the objects. -/
def preamble : Bytes := Bytes.ofAscii ['%', 'P', 'D', 'F', '-', '1', '.', '7', '\n']

/-- A document of indirect objects. -/
def document (blocks : List Indirect) : Bytes := preamble ++ inFullAll blocks

/-- One line for each object, with the place where it starts. -/
def blockLines (start : Nat) : List Indirect → List String
  | [] => []
  | i :: later => objectLine start i :: blockLines (start + i.inFull.length) later

theorem length_blockLines (start : Nat) (blocks : List Indirect) :
    (blockLines start blocks).length = blocks.length := by
  induction blocks generalizing start with
  | nil => rfl
  | cons i later ih => rw [blockLines, List.length_cons, ih, List.length_cons]

/-- What was read makes a line each. -/
theorem lines_sightings {line : Sighting → Option String}
    (read : ∀ start i, line ⟨start, .ok i⟩ = some (objectLine start i)) (start : Nat)
    (blocks : List Indirect) : (sightings start blocks).filterMap line = blockLines start blocks := by
  induction blocks generalizing start with
  | nil => rfl
  | cons i later ih =>
    rw [sightings, blockLines, List.filterMap_cons_some (read start i), ih]

/-- What was read is no failure. -/
theorem failures_sightings {failure : Sighting → Option String}
    (read : ∀ start i, failure ⟨start, .ok i⟩ = none) (start : Nat) (blocks : List Indirect) :
    (sightings start blocks).filterMap failure = [] := by
  induction blocks generalizing start with
  | nil => rfl
  | cons i later ih => rw [sightings, List.filterMap_cons_none (read start i), ih]

theorem listing_sightings (start : Nat) (blocks : List Indirect) :
    listing (sightings start blocks) =
      { code := 0
        stdout := String.join (blockLines start blocks) ++ s!"{blocks.length} object(s)\n"
        stderr := "" } := by
  rw [listing, lines_sightings (fun _ _ => rfl), failures_sightings (fun _ _ => rfl),
    length_blockLines]
  rfl

/-- A document starts with the mark of its header. -/
theorem locateHeader_document (blocks : List Indirect) :
    locateHeader (document blocks).toArray = 0 := by
  have near : ((document blocks).toArray.extract 0 headerReach).toList =
      (document blocks).take headerReach := by
    simp
  rw [locateHeader, near]
  rfl

/-- The listing of a document of indirect objects has one line for each of them, in their order, whatever
their strings and payloads look like. -/
theorem serve_objects {path : String} {file : String → Except String (Array UInt8)}
    {blocks : List Indirect} (content : file path = .ok (document blocks).toArray)
    (each : ∀ i ∈ blocks, i.Listable 255 1024) :
    serve (.run none path (.objects 0 none)) file =
      { code := 0
        stdout := String.join (blockLines preamble.length blocks) ++ s!"{blocks.length} object(s)\n"
        stderr := "" } := by
  have free : 'o'.toUInt8 ∉ preamble := by decide
  have stops : Scan.Stops Byte.isDigit preamble :=
    ⟨Bytes.ofAscii ['%', 'P', 'D', 'F', '-', '1', '.', '7'], Byte.lineFeed, rfl, rfl⟩
  have presents : (Reader.ofGate { source := .stream (document blocks).toArray 0 } 0
      (options (.objects 0 none))).Presents (document blocks) (options (.objects 0 none)) :=
    ⟨.stream (document blocks).toArray 0, document blocks, 0, rfl, rfl, rfl⟩
  have found := Scan.objects_complete presents free stops each
  rw [serve, content]
  simp only [Option.getD_none, locateHeader_document, Nat.not_lt_zero, ↓reduceIte]
  rw [perform, found, listing_sightings]

/-- A string that looks like a header, and a payload that looks like its own end. -/
theorem serve_objects_lookalikes :
    let header := Object.string (Bytes.ofAscii [' ', '8', ' ', '0', ' ', 'o', 'b', 'j', ' ']) false
    let length := (Bytes.ofAscii ['L', 'e', 'n', 'g', 't', 'h'], Object.integer 19)
    let payload := [Byte.lineFeed] ++ Payload.endStream ++ [Byte.lineFeed] ++ Payload.endObject ++
      [Byte.lineFeed, Byte.lineFeed]
    let blocks : List Indirect := [⟨7, 0, header⟩, ⟨7, 1, .stream [length] payload⟩]
    (∀ i ∈ blocks, i.Listable 255 1024) ∧
      serve (.run none "a.pdf" (.objects 0 none)) (fun _ => .ok (document blocks).toArray) =
        { code := 0
          stdout := "         9  7 0 obj  string\n        36  7 1 obj  stream  (19 bytes)\n2 object(s)\n"
          stderr := "" } := by
  intro header length payload blocks
  have each : ∀ i ∈ blocks, i.Listable 255 1024 := by
    intro i among
    simp only [blocks, List.mem_cons, List.not_mem_nil, or_false] at among
    rcases among with rfl | rfl
    · exact
        { fits := ⟨by decide, by decide⟩
          complete := trivial
          shallow := by decide }
    · exact
        { fits := ⟨by decide, by decide⟩
          complete := ⟨by decide, rfl⟩
          shallow := by decide }
  have listed := @serve_objects "a.pdf" (fun _ => .ok (document blocks).toArray) blocks rfl each
  have printed : String.join (blockLines preamble.length blocks) ++ s!"{blocks.length} object(s)\n" =
      "         9  7 0 obj  string\n        36  7 1 obj  stream  (19 bytes)\n2 object(s)\n" := by
    decide +kernel
  rw [printed] at listed
  exact ⟨each, listed⟩

end CommandLine
end PdfObjects
