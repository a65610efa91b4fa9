import PdfObjects.Proofs.Buffering
import PdfObjects.Proofs.ReadBack

/-! Reading undoes writing. An object that was written, alone or as an indirect object, is read back by a
reader of any source in which the text is held, whatever its settings are, unless it nests deeper than
these allow. The cursor stops right behind the object, or does not move. -/
namespace PdfObjects

open Lexis (Ends Closed)

namespace Indirect

/-- Whether the numbers of a header can be read. -/
def Fits (i : Indirect) : Prop := i.number ≤ Numeral.maxUnsigned ∧ i.generation ≤ Numeral.maxUnsigned

/-- The header of an indirect object. -/
def header (i : Indirect) : Bytes :=
  Bytes.decimal i.number ++ [Byte.space] ++ Bytes.decimal i.generation ++ [Byte.space] ++
    Parse.objectKeyword ++ [Byte.lineFeed]

/-- What stands behind the object. -/
def footer : Bytes := [Byte.lineFeed] ++ Payload.endObject ++ [Byte.lineFeed]

/-- An indirect object in writing. -/
def render (i : Indirect) : Bytes := i.header ++ i.object.render ++ footer

end Indirect

namespace Reader

/-- A new reader of a source in which a text is held, from some place on. -/
def Presents (text : Bytes) (options : Options) (r : Reader) : Prop :=
  ∃ source held start, Source.Holds source held ∧ held.drop start = text ∧
    r = ofGate { source } start options

variable {text : Bytes} {options : Options} {r : Reader}

/-- A run over the text itself shows how the run of the reader goes. -/
theorem Presents.run (presents : r.Presents text options) {program : Scan α} {value : α}
    {last : Resident}
    (ran : program.run (Resident.ofBytes text options).unrecorded = (value, last)) :
    (program.run r).1 = value ∧ (program.run r).2.position = last.position := by
  obtain ⟨source, held, start, holds, rfl, rfl⟩ := presents
  have image := (ofGate_whole holds start options).mirror_run rfl program
  rw [Scan.run_unrecorded, ← ofGate_mirror holds, image] at ran
  obtain ⟨same, rfl⟩ := Prod.mk.inj ran
  exact ⟨same, rfl⟩

end Reader

namespace Parse

variable {resolve : Resolver} {mode : Mode} {t : Resident} {gap rest : Bytes} {n : Nat}

/-- Over a document at hand, nothing is missing in a session. -/
theorem whole_resident (body : Parse α) (t : Resident) :
    (whole body).run.run t = body.run.run t := by
  have session : (Scan.session body.run).run t =
      (((body.run.run t).1, false), (body.run.run t).2) := rfl
  rw [whole, run_bind_lift, session]
  cases body.run.run t with
  | mk result after => cases result <;> rfl

theorem headerNumber_run {start : Nat} {fault : SyntaxFault}
    (stands : t.Stands (gap ++ (Bytes.decimal n ++ rest)))
    (blank : gap.all Byte.isWhitespace = true) (ends : Ends rest) (wide : 16 ≤ t.limits.wordLength)
    (fits : n ≤ Numeral.maxUnsigned) :
    (headerNumber start fault).run.run t =
        (.ok n, (t.move (gap.length + (Bytes.decimal n).length)).keep (Bytes.decimal n)) ∧
      ((t.move (gap.length + (Bytes.decimal n).length)).keep (Bytes.decimal n)).Stands rest := by
  obtain ⟨read, behind⟩ := Scan.word_run_piece stands blank (Object.decimal_word n ends)
    (Object.decimal_fits fits wide)
  refine ⟨?_, behind⟩
  rw [Object.decimal_numeric] at read
  simp only [headerNumber, run_bind_lift, read, Object.decimal_isNumber, ↓reduceIte,
    Numeral.saturating_decimal fits]
  rfl

/-- The header of an indirect object, up to the line ending before the object. -/
theorem headerAndObject_run {i : Indirect} (fits : i.Fits)
    (stands : t.Stands (i.header ++ rest)) (wide : 16 ≤ t.limits.wordLength) :
    ∃ u : Resident, u.Stands ([Byte.lineFeed] ++ rest) ∧
      u.position + 1 = t.position + i.header.length ∧ u.limits = t.limits ∧
      (headerAndObject resolve mode).run.run t =
        (anyObject resolve mode >>= fun object => pure { i with object }).run.run u := by
  have text : i.header ++ rest = [] ++ (Bytes.decimal i.number ++ ([Byte.space] ++
      (Bytes.decimal i.generation ++ ([Byte.space] ++ (objectKeyword ++
        ([Byte.lineFeed] ++ rest)))))) := by
    simp only [Indirect.header, List.append_assoc, List.nil_append]
  have keyword : Lexis.IsWord objectKeyword ([Byte.lineFeed] ++ rest) :=
    Lexis.isWord_run (by decide) rfl (Lexis.ends_cons rfl rest)
  rw [text] at stands
  obtain ⟨first, behindFirst⟩ := @headerNumber_run _ _ _ _ t.position .objectNumberExpected stands rfl
    (Lexis.ends_space _) wide fits.1
  obtain ⟨second, behindSecond⟩ := @headerNumber_run _ _ _ _ t.position .generationNumberExpected
    behindFirst rfl (Lexis.ends_space _) wide fits.2
  obtain ⟨third, behindThird⟩ := Scan.word_run_piece behindSecond rfl keyword
    (Nat.le_trans (by decide) wide)
  refine ⟨_, behindThird, ?_, rfl, ?_⟩
  · simp only [Resident.keep_position, Resident.move_position, Indirect.header, List.length_append,
      List.length_singleton, List.length_nil]
    omega
  · rw [headerAndObject, run_bind_lift, Scan.position_run, run_bind_ok first, run_bind_ok second,
      run_bind_lift, third]
    simp only [ne_eq, not_true_eq_false, ↓reduceIte]

variable {options : Options}

/-- At the start of a text, with nothing recorded. -/
theorem stands_start (text : Bytes) (options : Options) :
    (Resident.ofBytes text options).unrecorded.Stands text :=
  { ahead := rfl, unrecorded := rfl, within := Nat.zero_le _ }

theorem before_start {o : Object} (writable : o.Writable options.effectiveWordLength) :
    Before (Resident.ofBytes o.render options).unrecorded [] o [] :=
  { stands := by simpa using stands_start o.render options
    blank := rfl
    closed := Lexis.closed_nil
    wide := Nat.le_max_right _ _
    writable }

/-- What a call comes to, and where the cursor ends. -/
def Yields (call : Parse α) (r : Reader) (result : Except Error α) (position : Nat) : Prop :=
  (call.run.run r).1 = result ∧ (call.run.run r).2.position = position

variable {r : Reader} {o : Object}

theorem object_yields (presents : r.Presents o.render options)
    (writable : o.Writable options.effectiveWordLength) (shallow : o.height ≤ options.maxDepth) :
    (object resolve).Yields r (.ok o) o.render.length := by
  obtain ⟨kept, ran⟩ := (readsBack o options.maxDepth .loose _ [] [] (before_start writable)).1 shallow
  obtain ⟨same, place⟩ :=
    presents.run ((whole_resident (anyObject resolve .loose) _).trans ((anyObject_run _).trans ran))
  refine ⟨same, place.trans ?_⟩
  simp [Resident.ofBytes, Resident.unrecorded]

theorem object_refused (presents : r.Presents o.render options)
    (writable : o.Writable options.effectiveWordLength) (deep : options.maxDepth < o.height) :
    (object resolve).Yields r (.error (.nestingLimit options.maxDepth)) 0 := by
  obtain ⟨after, ran, back⟩ :=
    (readsBack o options.maxDepth .loose _ [] [] (before_start writable)).2 deep
  obtain ⟨same, place⟩ :=
    presents.run ((whole_resident (anyObject resolve .loose) _).trans ((anyObject_run _).trans ran))
  exact ⟨same, place.trans back⟩

theorem closed_footer : Closed Indirect.footer :=
  Lexis.closed_of_lead (Lexis.ends_cons rfl _)
    (show Lexis.lead Indirect.footer = some 'e'.toUInt8 from rfl) rfl

theorem headerAndObject_run_written {i : Indirect} (fits : i.Fits) (stands : t.Stands i.render)
    (wide : 16 ≤ t.limits.wordLength) (writable : i.object.Writable t.limits.wordLength)
    (shallow : i.object.height ≤ t.limits.nesting - t.limits.depth) :
    ∃ after, (headerAndObject resolve mode).run.run t = (.ok i, after) ∧
      after.position = t.position + i.header.length + i.object.render.length := by
  rw [Indirect.render, List.append_assoc] at stands
  obtain ⟨u, behind, place, limits, header⟩ := @headerAndObject_run resolve mode _ _ _ fits stands wide
  rw [← limits] at wide writable shallow
  have before : Before u [Byte.lineFeed] i.object Indirect.footer :=
    { stands := behind
      blank := rfl
      closed := closed_footer
      wide
      writable }
  obtain ⟨kept, ran⟩ := (readsBack i.object _ mode u _ _ before).1 shallow
  rw [← anyObject_run] at ran
  refine ⟨_, header.trans (run_bind_ok ran), ?_⟩
  simp only [Resident.keep_position, Resident.move_position, List.length_singleton]
  omega

theorem indirect_yields {i : Indirect} (presents : r.Presents i.render options) (fits : i.Fits)
    (writable : i.object.Writable options.effectiveWordLength)
    (shallow : i.object.height ≤ options.maxDepth) :
    (indirect resolve mode).Yields r (.ok i) (i.header.length + i.object.render.length) := by
  obtain ⟨after, ran, place⟩ := @headerAndObject_run_written resolve mode _ _ fits
    (stands_start i.render options) (Nat.le_max_right _ _) writable shallow
  obtain ⟨same, last⟩ := presents.run ((whole_resident (headerAndObject resolve mode) _).trans ran)
  have start : (Resident.ofBytes i.render options).unrecorded.position = 0 := rfl
  rw [start, Nat.zero_add] at place
  unfold Yields indirect
  exact ⟨same, last.trans place⟩

/-- Reading undoes writing. An object that can be written in full is read back from its written form,
and the cursor stops right behind it; so is an indirect object, in either mode, with its numbers. If
the object nests deeper than the settings allow, that is what is reported, and the cursor stays. -/
theorem object_render (o : Object) (options : Options)
    (writable : o.Writable options.effectiveWordLength) (resolve : Resolver) :
    (o.height ≤ options.maxDepth →
      (∀ r : Reader, r.Presents o.render options →
        (object resolve).Yields r (.ok o) o.render.length) ∧
      ∀ number generation mode (r : Reader), number ≤ Numeral.maxUnsigned →
        generation ≤ Numeral.maxUnsigned →
        r.Presents (Indirect.render ⟨number, generation, o⟩) options →
        (indirect resolve mode).Yields r (.ok ⟨number, generation, o⟩)
          ((Indirect.header ⟨number, generation, o⟩).length + o.render.length)) ∧
    (options.maxDepth < o.height → ∀ r : Reader, r.Presents o.render options →
      (object resolve).Yields r (.error (.nestingLimit options.maxDepth)) 0) := by
  constructor
  · intro shallow
    constructor
    · intro r presents
      exact object_yields presents writable shallow
    · intro number generation mode r fits fitsGeneration presents
      exact indirect_yields presents ⟨fits, fitsGeneration⟩ writable shallow
  · intro deep r presents
    exact object_refused presents writable deep

/-- An array of numbers that look like a reference, with a reference and a dictionary behind them. -/
theorem object_render_array :
    let o := Object.array [.integer 3, .integer 0, .reference 3 0,
      .dictionary [(Bytes.ofAscii ['K'], .name (Bytes.ofAscii ['#', ' ']))]]
    let new (text : Bytes) (options : Options) := Reader.ofGate { source := .memory text.toArray } 0 options
    o.Writable 255 ∧ o.height = 3 ∧
    (object Resolver.empty).Yields (new o.render {}) (.ok o) o.render.length ∧
    (indirect Resolver.empty .strict).Yields (new (Indirect.render ⟨7, 0, o⟩) {}) (.ok ⟨7, 0, o⟩)
      ((Indirect.header ⟨7, 0, o⟩).length + o.render.length) ∧
    (object Resolver.empty).Yields (new o.render { maxDepth := 2 }) (.error (.nestingLimit 2)) 0 := by
  intro o new
  have presents (text : Bytes) (options : Options) : (new text options).Presents text options :=
    ⟨.memory text.toArray, text, 0, rfl, rfl, rfl⟩
  have writable : o.Writable 255 := by decide
  have height : o.height = 3 := by decide
  obtain ⟨shallow, _⟩ := object_render o {} writable Resolver.empty
  obtain ⟨alone, numbered⟩ := shallow (by rw [height]; decide)
  obtain ⟨_, deep⟩ := object_render o { maxDepth := 2 } writable Resolver.empty
  exact ⟨writable, height, alone _ (presents _ _), numbered 7 0 .strict _ (by decide) (by decide)
    (presents _ _), deep (by rw [height]; decide) _ (presents _ _)⟩

end Parse
end PdfObjects
