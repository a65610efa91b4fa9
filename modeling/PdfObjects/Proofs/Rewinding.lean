import PdfObjects.Proofs.DictionaryEnds

/-! Going back. Whoever looks for objects in a damaged document tries one place after the other, and counts
on being back at the place when an attempt comes to nothing. That holds of three attempts: of a heading of
an indirect object that is not right, of an object that nests too deep, however far down that is found out,
and of an object that would have to start with the end of a dictionary. Nesting is too deep where a reader
that has taken a level for every object around is refused one more; by the time that is reported, all of
them have been given back. -/
namespace PdfObjects

namespace Lexis

/-- The three words in front of an indirect object, whatever they are. -/
structure Heading where
  number : Word
  generation : Word
  keyword : Word

/-- The first three words of a text. -/
def heading (limit : Nat) (ahead : Bytes) : Heading :=
  ⟨word limit ahead, word limit (rest ahead), word limit (rest (rest ahead))⟩

/-- How far they reach. -/
def headingReach (ahead : Bytes) : Nat := reach ahead + reach (rest ahead) + reach (rest (rest ahead))

/-- What is wrong with a heading at a place, if it is not two numbers and the keyword. -/
def Heading.fault (place : Nat) (h : Heading) : Option Error :=
  if !h.number.isNumber then some (.badSyntax place .objectNumberExpected)
  else if !h.generation.isNumber then some (.badSyntax place .generationNumberExpected)
  else if h.keyword.bytes ≠ Parse.objectKeyword then some (.unexpectedWord place h.keyword.bytes)
  else none

/-- An object under its heading. -/
def Heading.stamp (h : Heading) (object : Object) : Indirect :=
  ⟨Numeral.saturating h.number.bytes, Numeral.saturating h.generation.bytes, object⟩

end Lexis

namespace Reader

variable {text : Bytes} {t u below : Reader} {e : Error}

theorem Covers.word_rest (covers : t.Covers text) :
    text.drop (Scan.word.run t).2.position = Lexis.rest (text.drop t.position) := by
  rw [covers.word.2, ← List.drop_drop]
  rfl

theorem Covers.seek (covers : t.Covers text) (place : Nat) : (t.seek place).Covers text :=
  covers.run (Scan.seek place)

/-- No level is left to a reader that is refused one, -/
theorem full_of_refused (refused : t.enter = .error e) : t.limits.nesting - t.limits.depth = 0 := by
  unfold enter at refused
  split at refused
  · cases refused
  · rename_i full
    exact Nat.sub_eq_zero_of_le (Nat.le_of_not_lt full)

theorem refused_of_full (full : t.limits.nesting - t.limits.depth = 0) :
    t.enter = .error (.nestingLimit t.limits.nesting) :=
  if_neg (Nat.not_lt_of_le (Nat.le_of_sub_eq_zero full))

/-- and one less to a reader that has taken one. -/
theorem left_of_entered (entered : t.enter = .ok below) :
    ∃ levels, t.limits.nesting - t.limits.depth = levels + 1 ∧
      below.limits.nesting - below.limits.depth = levels ∧ below = t.atDepth (t.depth + 1) := by
  unfold enter at entered
  split at entered
  · rename_i left
    cases entered
    refine ⟨t.options.maxDepth - (t.depth + 1), ?_, rfl, rfl⟩
    change t.options.maxDepth - t.depth = _
    omega
  · cases entered

theorem entered_of_left {levels : Nat} (left : t.limits.nesting - t.limits.depth = levels + 1) :
    t.enter = .ok (t.atDepth (t.depth + 1)) ∧
      (t.atDepth (t.depth + 1)).limits.nesting - (t.atDepth (t.depth + 1)).limits.depth = levels := by
  change t.options.maxDepth - t.depth = levels + 1 at left
  constructor
  · exact if_pos (by omega)
  · change t.options.maxDepth - (t.depth + 1) = levels
    omega

theorem Covers.atDepth (covers : t.Covers text) (depth : Nat) : (t.atDepth depth).Covers text := by
  obtain ⟨⟨document, whole, same⟩, inside⟩ := covers
  exact ⟨⟨document, ⟨whole.gate, whole.origin, whole.window⟩, same⟩, inside⟩

theorem sameBounds_self (t : Reader) : t.SameBounds t := ⟨rfl, rfl⟩

/-- At the same place of the same text, the same is read by every program to which the words before do not
matter. -/
theorem Covers.memoryless {program : Scan α} (memoryless : program.Memoryless) (covers : t.Covers text)
    (other : u.Covers text) (limits : u.limits = t.limits) (place : u.position = t.position) :
    (program.run u).1 = (program.run t).1 ∧ (program.run u).2.position = (program.run t).2.position := by
  obtain ⟨document, whole, rfl⟩ := covers.whole
  obtain ⟨second, wholeToo, same⟩ := other.whole
  obtain ⟨here, there⟩ := whole.resident_run program
  obtain ⟨hereToo, thereToo⟩ := wholeToo.resident_run program
  rw [← here, ← there, ← hereToo, ← thereToo]
  exact memoryless _ _ same limits place

/-- What the bytes at hand do not come to, no reader of them comes to. -/
theorem Covers.shallow {program : Parse α} (covers : t.Covers text)
    (avoids : ∀ limit, program.Avoids (.nestingLimit limit)) : Parse.Shallow (program.run.run t).1 := by
  intro e failed
  cases e with
  | nestingLimit limit =>
    obtain ⟨document, whole, _⟩ := covers.whole
    exact absurd ((whole.resident_run program.run).1.trans failed) (avoids limit _)
  | _ => rfl

end Reader

namespace Parse
open Scan (Finishes Reaches)

/-- While an object is read from `t`, an object is looked for by a reader that is refused the level for it:
by `t` itself, or by one that has taken a level and come to a value of a dictionary or to an element of an
array. -/
inductive Exceeds (resolve : Resolver) : (t : Reader) → Prop
  | here (refused : t.enter = .error e) : Exceeds resolve t
  | entry (entered : t.enter = .ok below)
      (inside : InDictionary resolve (t.limits.nesting - t.limits.depth) below dict w)
      (names : KeyWord.ofWord (Scan.word.run w).1.bytes = .key name)
      (later : Exceeds resolve (Scan.word.run w).2) : Exceeds resolve t
  | item (entered : t.enter = .ok below)
      (inside : InArray resolve (t.limits.nesting - t.limits.depth) below objects w)
      (later : Exceeds resolve w) : Exceeds resolve t

/-- What may come of an object in which no objects are nested. -/
inductive Childless (t : Reader) : Except Error Object × Reader → Prop
  | reads (plain : o.asArray = none) : Childless t (.ok o, last)
  | refers (failed : (numberOrReference (Scan.word.run t).1.bytes).run.run (Scan.word.run t).2 =
      (.error e, last)) : Childless t (.error e, last)
  | refuses (flat : e.isNestingLimit = false) (word : last.lastWord = (Scan.word.run t).2.lastWord) :
      Childless t (.error e, last)

variable {resolve : Resolver} {levels : Nat} {mode : Mode} {t u w last : Reader} {dict : Dictionary}
  {objects : List Object} {text : Bytes} {e : Error}

section Heading

/-- Reads the heading of an indirect object. If it is not right, the cursor goes back. -/
def heading : Parse (Nat × Nat) := do
  let start ← Scan.position
  let number ← headerNumber start .objectNumberExpected
  let generation ← headerNumber start .generationNumberExpected
  let keyword ← Scan.word
  if keyword.bytes ≠ objectKeyword then
    Scan.seek start
    throw (.unexpectedWord start keyword.bytes)
  else pure (number, generation)

/-- An indirect object is a heading and an object. -/
theorem headerAndObject_eq {σ : Type} [Readable σ] (s : σ) :
    (headerAndObject resolve mode).run.run s = (heading >>= fun (number, generation) => do
      let object ← anyObject resolve mode
      pure { number, generation, object }).run.run s := by
  rw [headerAndObject, heading, run_bind_lift, run_bind_assoc, run_bind_lift, run_bind_assoc]
  rw [run_bind, run_bind]
  cases (headerNumber (Scan.position.run s).1 .objectNumberExpected).run.run (Scan.position.run s).2 with
  | mk result after =>
    cases result with
    | error e => rfl
    | ok number =>
      dsimp only
      rw [run_bind_assoc, run_bind, run_bind]
      cases (headerNumber (Scan.position.run s).1 .generationNumberExpected).run.run after with
      | mk result after =>
        cases result with
        | error e => rfl
        | ok generation =>
          dsimp only
          rw [run_bind_assoc, run_bind_lift, run_bind_lift]
          by_cases other : (Scan.word.run after).1.bytes ≠ objectKeyword
          · rw [if_pos other, if_pos other]
            rfl
          · rw [if_neg other, if_neg other]
            rfl

/-- A number of a heading is the next word, or the cursor goes back. -/
theorem headerNumber_eq {σ : Type} [Readable σ] (start : Nat) (fault : SyntaxFault) (s : σ) :
    (headerNumber start fault).run.run s =
      if (Scan.word.run s).1.isNumber then
        (.ok (Numeral.saturating (Scan.word.run s).1.bytes), (Scan.word.run s).2)
      else (.error (.badSyntax start fault), ((Scan.seek start).run (Scan.word.run s).2).2) := by
  rw [headerNumber, run_bind_lift]
  split <;> rfl

/-- What a heading comes to follows from the three words. -/
theorem heading_run (covers : t.Covers text) : ∃ u, u.Covers text ∧ u.SameBounds t ∧
    match (Lexis.heading t.limits.wordLength (text.drop t.position)).fault t.position with
    | some e => heading.run.run t = (.error e, u) ∧ u.position = t.position
    | none => heading.run.run t =
        (.ok (Numeral.saturating (Lexis.word t.limits.wordLength (text.drop t.position)).bytes,
          Numeral.saturating
            (Lexis.word t.limits.wordLength (Lexis.rest (text.drop t.position))).bytes), u) ∧
        u.position = t.position + Lexis.headingReach (text.drop t.position) := by
  have here : Scan.position.run t = (t.position, t) := rfl
  have one := covers.run Scan.word
  have boundsOne := (Reader.sameBounds_self t).run Scan.word
  have two := one.run Scan.word
  have boundsTwo := boundsOne.run Scan.word
  have three := two.run Scan.word
  have boundsThree := boundsTwo.run Scan.word
  have number := covers.word.1
  have generation := one.word.1
  rw [covers.word_rest, boundsOne.limits] at generation
  have keyword := two.word.1
  rw [one.word_rest, covers.word_rest, boundsTwo.limits] at keyword
  have behind := two.word.2
  rw [one.word_rest, one.word.2, covers.word_rest, covers.word.2, Nat.add_assoc t.position,
    Nat.add_assoc t.position] at behind
  rw [heading, run_bind_lift, here, Lexis.heading, Lexis.headingReach, ← number, ← generation, ← keyword]
  have back {v : Reader} (later : v.Covers text) (bounds : v.SameBounds t) :
      ((Scan.seek t.position).run v).2.Covers text ∧ ((Scan.seek t.position).run v).2.SameBounds t ∧
        ((Scan.seek t.position).run v).2.position = t.position :=
    ⟨later.run _, bounds.run _, later.seek_back covers⟩
  rw [Lexis.Heading.fault]
  cases first : (Scan.word.run t).1.isNumber with
  | false =>
    obtain ⟨after, bounds, place⟩ := back one boundsOne
    refine ⟨_, after, bounds, ?_, place⟩
    rw [run_bind, headerNumber_eq, first]
    rfl
  | true =>
    have read := headerNumber_eq t.position .objectNumberExpected t
    rw [if_pos first] at read
    rw [run_bind_ok read]
    cases second : (Scan.word.run (Scan.word.run t).2).1.isNumber with
    | false =>
      obtain ⟨after, bounds, place⟩ := back two boundsTwo
      refine ⟨_, after, bounds, ?_, place⟩
      rw [run_bind, headerNumber_eq, second]
      rfl
    | true =>
      have read := headerNumber_eq t.position .generationNumberExpected (Scan.word.run t).2
      rw [if_pos second] at read
      rw [run_bind_ok read, run_bind_lift]
      by_cases other : (Scan.word.run (Scan.word.run (Scan.word.run t).2).2).1.bytes = objectKeyword
      · refine ⟨_, three, boundsThree, ?_⟩
        simp only [Bool.not_true, Bool.false_eq_true, ↓reduceIte, ne_eq, other, not_true_eq_false]
        exact ⟨rfl, behind⟩
      · obtain ⟨after, bounds, place⟩ := back three boundsThree
        refine ⟨_, after, bounds, ?_⟩
        simp only [Bool.not_true, Bool.false_eq_true, ↓reduceIte, ne_eq, other, not_false_eq_true]
        exact ⟨rfl, place⟩

/-- An indirect object is what is wrong with its heading, or the object behind that. -/
theorem headerAndObject_cases (covers : t.Covers text) (resolve : Resolver) (mode : Mode) :
    match (Lexis.heading t.limits.wordLength (text.drop t.position)).fault t.position with
    | some e => ((headerAndObject resolve mode).run.run t).1 = .error e ∧
        ((headerAndObject resolve mode).run.run t).2.position = t.position
    | none =>
        let read := (anyObject resolve mode).run.run
          (t.seek (t.position + Lexis.headingReach (text.drop t.position)))
        ((headerAndObject resolve mode).run.run t).1 =
            read.1.map (Lexis.heading t.limits.wordLength (text.drop t.position)).stamp ∧
          ((headerAndObject resolve mode).run.run t).2.position = read.2.position := by
  obtain ⟨u, after, bounds, ran⟩ := heading_run covers
  rw [headerAndObject_eq]
  cases fault : (Lexis.heading t.limits.wordLength (text.drop t.position)).fault t.position with
  | some e =>
    rw [fault] at ran
    rw [run_bind_error ran.1]
    exact ⟨rfl, ran.2⟩
  | none =>
    rw [fault] at ran
    obtain ⟨stamp, place⟩ := ran
    rw [run_bind_ok stamp]
    generalize Lexis.headingReach (text.drop t.position) = reach at place ⊢
    have there : u.position = (t.seek (t.position + reach)).position := by
      refine place.trans (Nat.min_eq_left ?_).symm
      rw [← place, ← bounds.size]
      exact after.inside
    have memoryless : (anyObject resolve mode).run.Memoryless := anyObject_memoryless
    obtain ⟨same, stops⟩ := (covers.seek (t.position + reach)).memoryless memoryless after bounds.limits there
    dsimp only
    rw [← same, ← stops, run_bind]
    cases (anyObject resolve mode).run.run u with
    | mk result last => cases result <;> exact ⟨rfl, rfl⟩

end Heading

theorem InDictionary.sameBounds (inside : InDictionary resolve levels t dict w) : w.SameBounds t :=
  @Reaches.preserves _ _ _ _ _ (Reader.SameBounds · t) (fun _ _ bounds => bounds.run _) _ _ _ _ inside.taken
    (t.sameBounds_self.run Scan.word)

theorem InArray.sameBounds (inside : InArray resolve levels t objects w) : w.SameBounds t :=
  @Reaches.preserves _ _ _ _ _ (Reader.SameBounds · t) (fun _ _ bounds => bounds.run _) _ _ _ _ inside.taken
    (t.sameBounds_self.run Scan.word)

/-- What a reader on the next level cannot read, the reader before it cannot. -/
theorem body_fails_atDepth {depth : Nat}
    (failed : (body resolve levels mode).run.run (t.atDepth depth) = (.error e, u)) :
    ∃ last, (body resolve levels mode).run.run t = (.error e, last) ∧ last.position = u.position := by
  rw [body_atDepth] at failed
  cases ran : (body resolve levels mode).run.run t with
  | mk result last =>
    rw [ran] at failed
    cases failed
    exact ⟨last, rfl, rfl⟩

/-- The error gets through to the outermost object, whatever is around, and each object on the way puts the
cursor back to its own start. -/
theorem Exceeds.fails (exceeds : Exceeds resolve t) (covers : t.Covers text) :
    ∃ u, (body resolve (t.limits.nesting - t.limits.depth) .loose).run.run t =
      (.error (.nestingLimit t.limits.nesting), u) ∧ u.position = t.position := by
  induction exceeds with
  | here refused =>
    rw [Reader.full_of_refused refused]
    exact ⟨_, rfl, rfl⟩
  | entry entered inside names later ih =>
    obtain ⟨levels, left, fewer, rfl⟩ := Reader.left_of_entered entered
    rw [left] at inside ⊢
    obtain ⟨last, ran, _⟩ := ih ((inside.covers (covers.atDepth _)).run Scan.word)
    rw [(inside.sameBounds.run Scan.word).limits, fewer] at ran
    obtain ⟨u, failed, back⟩ := inside.fails (covers.atDepth _) names ran rfl
    obtain ⟨u, failed, same⟩ := body_fails_atDepth failed
    exact ⟨u, failed, same.trans back⟩
  | item entered inside later ih =>
    obtain ⟨levels, left, fewer, rfl⟩ := Reader.left_of_entered entered
    rw [left] at inside ⊢
    obtain ⟨last, ran, _⟩ := ih (inside.covers (covers.atDepth _))
    rw [inside.sameBounds.limits, fewer] at ran
    obtain ⟨u, failed, back⟩ := inside.fails (covers.atDepth _) ran rfl
    obtain ⟨u, failed, same⟩ := body_fails_atDepth failed
    exact ⟨u, failed, same.trans back⟩

/-- A dictionary whose entries have been read is not too deep, a stream or not. -/
theorem opened_avoids (limit : Nat) (dict : Dictionary) :
    (opened resolve dict).Avoids (.nestingLimit limit) := by
  unfold opened
  refine avoids_bind (avoids_lift _) fun _ stream _ => ?_
  split
  · exact avoids_bind (payload_avoids (by simp) dict) fun _ bytes _ => avoids_pure _
  · exact avoids_pure _

/-- Only a bracket and two angle brackets announce something in which objects are nested. -/
theorem body_childless (array : (Scan.word.run t).1.bytes ≠ [Byte.openBracket])
    (dictionary : (Scan.word.run t).1.bytes ≠ [Byte.less, Byte.less]) :
    Childless t ((body resolve (levels + 1) mode).run.run t) := by
  have here : Scan.position.run t = (t.position, t) := rfl
  rw [body, announced, run_bind_lift, here, run_bind_lift]
  dsimp only
  by_cases empty : (Scan.word.run t).1.isEmpty = true
  · rw [if_pos empty]
    exact .refuses rfl rfl
  rw [if_neg empty]
  by_cases numeric : (Scan.word.run t).1.numeric = true
  · rw [if_pos numeric]
    cases ran : (numberOrReference (Scan.word.run t).1.bytes).run.run (Scan.word.run t).2 with
    | mk result last =>
      cases result with
      | ok o => exact .reads (numberOrReference_plain (congrArg Prod.fst ran)).1
      | error e => exact .refers ran
  rw [if_neg numeric]
  cases lead : Lead.ofWord (Scan.word.run t).1.bytes with
  | whole object =>
    refine .reads ?_
    rcases Lead.ofWord_whole lead with ⟨_, _, rfl⟩ | ⟨_, rfl⟩ | rfl <;> rfl
  | literalString | hexString => exact .reads rfl
  | dictionaryEnd | nothing => exact .refuses rfl rfl
  | array => exact absurd (lead_array lead) array
  | dictionary => exact absurd (lead_dictionary lead) dictionary

theorem body_shallow (covers : t.Covers text) (array : (Scan.word.run t).1.bytes ≠ [Byte.openBracket])
    (dictionary : (Scan.word.run t).1.bytes ≠ [Byte.less, Byte.less]) :
    Shallow ((body resolve (levels + 1) mode).run.run t).1 := by
  have childless : Childless t ((body resolve (levels + 1) mode).run.run t) :=
    body_childless array dictionary
  generalize (body resolve (levels + 1) mode).run.run t = ended at childless ⊢
  cases childless with
  | reads plain => rintro _ ⟨⟩
  | refers failed =>
    rintro _ ⟨⟩
    have after := covers.run Scan.word
    exact after.shallow (fun limit => numberOrReference_avoids (by simp) _) _ (congrArg Prod.fst failed)
  | refuses flat word =>
    rintro _ ⟨⟩
    exact flat

/-- A round that ends a dictionary with an error has come to the end of the document, or to a value that is
nested too deep. -/
theorem entryRound_error {value : Parse Object}
    (ran : (entryRound value .loose dict).run t = (.done (.error e), last)) :
    ((Scan.word.run t).1.isEmpty = true ∧ e.isNestingLimit = false ∧ last = (Scan.word.run t).2) ∨
      ∃ name, KeyWord.ofWord (Scan.word.run t).1.bytes = .key name ∧ e.isNestingLimit = true ∧
        value.run.run (Scan.word.run t).2 = (.error e, last) := by
  have here (u : Reader) : Scan.position.run u = (u.position, u) := rfl
  cases meaning : KeyWord.ofWord (Scan.word.run t).1.bytes with
  | key name =>
    rw [entryRound_run value dict meaning] at ran
    refine .inr ⟨name, rfl, ?_⟩
    cases read : value.run.run (Scan.word.run t).2 with
    | mk result after =>
      rw [read] at ran
      cases result with
      | ok object => cases ran
      | error reason =>
        rw [afterValue] at ran
        by_cases deep : reason.isNestingLimit = true
        · rw [if_pos deep] at ran
          cases ran
          exact ⟨deep, rfl⟩
        · rw [if_neg deep] at ran
          cases ran
  | close | endObject | other =>
    rw [entryRound, Scan.run_bind, Scan.run_bind, here] at ran
    dsimp only at ran
    by_cases empty : (Scan.word.run t).1.isEmpty = true
    · rw [if_pos empty] at ran
      cases ran
      exact .inl ⟨empty, rfl, rfl⟩
    · rw [if_neg empty, meaning] at ran
      cases ran

/-- One that ends an array with an error has met it in an element that is nested too deep. -/
theorem elementRound_error {element : Parse Object}
    (ran : (elementRound element objects).run t = (.done (.error e), last)) :
    (element.run.run t).1 = .error e ∧ e.isNestingLimit = true := by
  rw [elementRound_run] at ran
  cases result : (element.run.run t).1 with
  | ok object =>
    rw [result] at ran
    cases ran
  | error reason =>
    rw [result, afterElement] at ran
    by_cases deep : reason.isNestingLimit = true
    · rw [if_pos deep] at ran
      cases ran
      exact ⟨rfl, deep⟩
    · rw [if_neg deep] at ran
      cases ran

/-- An array that fails does so in an element that is nested too deep, -/
theorem body_array_error (covers : t.Covers text) (opens : (Scan.word.run t).1.bytes = [Byte.openBracket])
    (failed : ((body resolve (levels + 1) .loose).run.run t).1 = .error e) :
    ∃ objects w, InArray resolve (levels + 1) t objects w ∧
      ((body resolve levels .loose).run.run w).1 = .error e ∧ e.isNestingLimit = true := by
  have start := covers.run Scan.word
  have advances : (body resolve levels .loose).Advances := body_advances levels .loose
  have rounds := elements_finishes advances [] start.inside
  rw [body_array covers opens, rewinding_outcome, array_rounds advances start.inside rounds] at failed
  obtain ⟨objects, w, taken, ends⟩ := rounds.reaches
  refine ⟨objects, w, ⟨opens, taken⟩, ?_⟩
  cases result : ((elements (body resolve levels .loose)
      ((Scan.word.run t).2.size - (Scan.word.run t).2.position + 1) []).run.run (Scan.word.run t).2).1 with
  | ok objects =>
    rw [result] at failed
    cases failed
  | error reason =>
    rw [result] at failed ends
    cases failed
    exact elementRound_error ends

/-- and a dictionary that fails for such a reason does so in a value. -/
theorem body_dictionary_deep (covers : t.Covers text)
    (opens : (Scan.word.run t).1.bytes = [Byte.less, Byte.less]) (deep : e.isNestingLimit = true)
    (failed : ((body resolve (levels + 1) .loose).run.run t).1 = .error e) :
    ∃ dict w name, InDictionary resolve (levels + 1) t dict w ∧
      KeyWord.ofWord (Scan.word.run w).1.bytes = .key name ∧
      ((body resolve levels .loose).run.run (Scan.word.run w).2).1 = .error e := by
  have start := covers.run Scan.word
  have advances : (body resolve levels .loose).Advances := body_advances levels .loose
  have rounds := entries_finishes advances .loose [] start.inside
  have ended := start.run (entries (body resolve levels .loose) .loose
    ((Scan.word.run t).2.size - (Scan.word.run t).2.position + 1) []).run
  rw [body_dictionary covers opens, rewinding_outcome] at failed
  obtain ⟨dict, w, taken, ends⟩ := rounds.reaches
  cases ran : (entries (body resolve levels .loose) .loose
      ((Scan.word.run t).2.size - (Scan.word.run t).2.position + 1) []).run.run (Scan.word.run t).2 with
  | mk result last =>
    rw [ran] at rounds ends ended
    rw [dictionary_rounds advances start.inside rounds] at failed
    cases result with
    | ok dict =>
      have flat := ended.shallow (fun limit => opened_avoids limit dict) e failed
      cases flat.symm.trans deep
    | error reason =>
      cases failed
      rcases entryRound_error ends with ⟨_, flat, _⟩ | ⟨name, names, _, nested⟩
      · cases flat.symm.trans deep
      · exact ⟨dict, w, name, ⟨opens, taken⟩, names, congrArg Prod.fst nested⟩

/-- There is no other way to nest too deep. -/
theorem exceeds_of_deep (covers : t.Covers text) (left : t.limits.nesting - t.limits.depth = levels)
    (deep : e.isNestingLimit = true)
    (failed : ((body resolve levels .loose).run.run t).1 = .error e) : Exceeds resolve t := by
  induction levels generalizing t with
  | zero => exact .here (Reader.refused_of_full left)
  | succ levels ih =>
    obtain ⟨entered, fewer⟩ := Reader.entered_of_left left
    have nested := covers.atDepth (t.depth + 1)
    have fails : ((body resolve (levels + 1) .loose).run.run (t.atDepth (t.depth + 1))).1 = .error e :=
      (congrArg Prod.fst (body_atDepth t _)).trans failed
    generalize t.atDepth (t.depth + 1) = below at entered fewer nested fails
    by_cases array : (Scan.word.run below).1.bytes = [Byte.openBracket]
    · obtain ⟨objects, w, inside, again, _⟩ := body_array_error nested array fails
      have later := ih (inside.covers nested) (by rw [inside.sameBounds.limits, fewer]) again
      rw [← left] at inside
      exact .item entered inside later
    by_cases dictionary : (Scan.word.run below).1.bytes = [Byte.less, Byte.less]
    · obtain ⟨dict, w, name, inside, names, again⟩ := body_dictionary_deep nested dictionary deep fails
      have later := ih ((inside.covers nested).run Scan.word)
        (by rw [(inside.sameBounds.run Scan.word).limits, fewer]) again
      rw [← left] at inside
      exact .entry entered inside names later
    · have flat := body_shallow nested array dictionary e fails
      cases flat.symm.trans deep

/-- Too deep nesting, told by what is met, and what it leaves behind. -/
theorem deep_iff (covers : t.Covers text) :
    (∃ limit, ((body resolve (t.limits.nesting - t.limits.depth) .loose).run.run t).1 =
      .error (.nestingLimit limit)) ↔ Exceeds resolve t := by
  constructor
  · rintro ⟨limit, failed⟩
    exact exceeds_of_deep covers rfl rfl failed
  · intro exceeds
    obtain ⟨u, ran, _⟩ := exceeds.fails covers
    exact ⟨_, congrArg Prod.fst ran⟩

/-- An object does not start with the end of a dictionary, which is left to whoever comes next. -/
theorem body_dictionaryEnd (covers : t.Covers text) (resolve : Resolver) (levels : Nat) (mode : Mode)
    (found : (Scan.word.run t).1.bytes = [Byte.greater, Byte.greater]) :
    ∃ e u, (body resolve levels mode).run.run t = (.error e, u) ∧ u.position = t.position := by
  cases levels with
  | zero => exact ⟨_, t, rfl, rfl⟩
  | succ levels =>
    have here : Scan.position.run t = (t.position, t) := rfl
    have lead : Lead.ofWord [Byte.greater, Byte.greater] = .dictionaryEnd := rfl
    refine ⟨.unexpectedWord t.position [Byte.greater, Byte.greater], _, ?_,
      (covers.run Scan.word).seek_back covers⟩
    rw [body, announced, run_bind_lift, here, run_bind_lift, (covers.word_eq (by decide) found).1]
    dsimp only
    rw [if_neg (by decide), if_neg (by decide), lead]
    exact run_bind_lift _ _ _

end Parse

namespace Reader

/-- How reading goes back, for a reader of some text, whatever it is asked for. -/
structure Rewinds (resolve : Resolver) (text : Bytes) (r : Reader) : Prop where
  /-- Where the heading is not right, that is the error, and the cursor stays. -/
  refused : ∀ mode e,
    (Lexis.heading r.limits.wordLength (text.drop r.position)).fault r.position = some e →
      ((Parse.indirect resolve mode).run.run r).1 = .error e ∧
        ((Parse.indirect resolve mode).run.run r).2.position = r.position
  /-- Otherwise the object is read as it would be from right behind the heading, and stamped. -/
  stamped : ∀ mode,
    (Lexis.heading r.limits.wordLength (text.drop r.position)).fault r.position = none →
      let behind := r.seek (r.position + Lexis.headingReach (text.drop r.position))
      let read := (Parse.whole (Parse.anyObject resolve mode)).run.run behind
      ((Parse.indirect resolve mode).run.run r).1 =
          read.1.map (Lexis.heading r.limits.wordLength (text.drop r.position)).stamp ∧
        ((Parse.indirect resolve mode).run.run r).2.position = read.2.position
  /-- Nesting is too deep if and only if an object is met, somewhere, that is refused its level. -/
  exceeds : (∃ limit, ((Parse.object resolve).run.run r).1 = .error (.nestingLimit limit)) ↔
    Parse.Exceeds resolve r
  /-- Then the cursor is where it was, and every level that was taken has been given back. -/
  restored : ∀ limit, ((Parse.object resolve).run.run r).1 = .error (.nestingLimit limit) →
    limit = r.options.maxDepth ∧ ((Parse.object resolve).run.run r).2.position = r.position ∧
      ((Parse.object resolve).run.run r).2.depth = r.depth
  /-- Nor does the cursor move if the first word is the end of a dictionary. -/
  closed : (Lexis.word r.limits.wordLength (text.drop r.position)).bytes = [Byte.greater, Byte.greater] →
    (∃ e, ((Parse.object resolve).run.run r).1 = .error e) ∧
      ((Parse.object resolve).run.run r).2.position = r.position

variable {document : Bytes} {r : Reader} {resolve : Resolver}

/-- Over a whole document, all that is taken back is taken back exactly. -/
theorem Whole.rewinds (whole : r.Whole document) (inside : r.position ≤ r.size) :
    Rewinds resolve (document.drop r.origin) r := by
  have covers := whole.covers inside
  have read {mode : Mode} (t : Reader) :
      (Parse.anyObject resolve mode).run.run t =
        (Parse.body resolve (t.limits.nesting - t.limits.depth) mode).run.run t :=
    Parse.anyObject_levels nesting t
  obtain ⟨same, place⟩ := whole.whole_same (Parse.anyObject resolve .loose)
  rw [read] at same place
  constructor
  · intro mode e fault
    have ran := Parse.headerAndObject_cases covers resolve mode
    rw [fault] at ran
    obtain ⟨same, place⟩ := whole.whole_same (Parse.headerAndObject resolve mode)
    rw [Parse.indirect, same, place]
    exact ran
  · intro mode fault behind
    have ran := Parse.headerAndObject_cases covers resolve mode
    rw [fault] at ran
    obtain ⟨same, place⟩ := whole.whole_same (Parse.headerAndObject resolve mode)
    have wholeBehind : behind.Whole document := whole.seek _
    obtain ⟨sameBehind, placeBehind⟩ := wholeBehind.whole_same (Parse.anyObject resolve mode)
    dsimp only
    rw [Parse.indirect, same, place, sameBehind, placeBehind]
    exact ran
  · rw [← Parse.deep_iff covers]
    simp only [← same]
    rfl
  · intro limit failed
    have exceeds := (Parse.deep_iff covers).mp ⟨limit, same.symm.trans failed⟩
    obtain ⟨u, ran, back⟩ := exceeds.fails covers
    rw [ran] at same place
    cases failed.symm.trans same
    exact ⟨rfl, place.trans back, (continues.run (Parse.object resolve).run r).depth⟩
  · intro found
    rw [← covers.word.1] at found
    obtain ⟨e, u, ran, back⟩ := Parse.body_dictionaryEnd covers resolve _ .loose found
    rw [ran] at same place
    exact ⟨⟨e, same⟩, place.trans back⟩

/-- Two levels of nesting, and an array that goes one level further. -/
def nestedText : Bytes := Bytes.ofAscii " <</A[1]>>".toList

/-- The right heading of an object that is the end of a dictionary. -/
def endedText : Bytes := Bytes.ofAscii " 7 0 obj >>".toList

/-- A reader that has taken a level for the dictionary, -/
def onceEntered : Reader := (ofText nestedText { maxDepth := 2 }).atDepth 1

/-- and one that has come to the array and takes the last level for it. -/
def twiceEntered : Reader := (Scan.word.run (Scan.word.run onceEntered).2).2.atDepth 2

/-- Three levels are needed for the one, of which an element takes the last; it has no heading. The other
has a heading, behind which no object starts. -/
theorem nestedText_rewinds :
    ((Parse.object fun _ => none).run.run (ofText nestedText { maxDepth := 2 })).1 = .error (.nestingLimit 2) ∧
      ((Parse.object fun _ => none).run.run (ofText nestedText { maxDepth := 2 })).2.position = 0 ∧
      ((Parse.object fun _ => none).run.run (ofText nestedText { maxDepth := 3 })).1 =
        .ok (.dictionary [(['A'.toUInt8], .array [.integer 1])]) ∧
      ((Parse.indirect (fun _ => none) .strict).run.run (ofText nestedText { maxDepth := 3 })).2.position = 0 ∧
      ((Parse.indirect (fun _ => none) .loose).run.run (ofText endedText { maxDepth := 3 })).2.position = 8 := by
  have nested depth : Rewinds (fun _ => none) nestedText (ofText nestedText { maxDepth := depth }) :=
    (ofText_whole nestedText { maxDepth := depth }).rewinds (Nat.zero_le _)
  have outer : Parse.InDictionary (fun _ => none) 2 onceEntered [] (Scan.word.run onceEntered).2 :=
    ⟨rfl, .here _ _⟩
  have inner : Parse.InArray (fun _ => none) 1 twiceEntered [] (Scan.word.run twiceEntered).2 :=
    ⟨rfl, .here _ _⟩
  have exceeds : Parse.Exceeds (fun _ => none) (ofText nestedText { maxDepth := 2 }) :=
    .entry rfl outer rfl (.item rfl inner (.here rfl))
  obtain ⟨limit, failed⟩ := (nested 2).exceeds.mpr exceeds
  obtain ⟨rfl, place, _⟩ := (nested 2).restored limit failed
  have ended : Rewinds (fun _ => none) endedText (ofText endedText { maxDepth := 3 }) :=
    (ofText_whole endedText { maxDepth := 3 }).rewinds (Nat.zero_le _)
  have behind : Rewinds (fun _ => none) endedText ((ofText endedText { maxDepth := 3 }).seek 8) :=
    ((ofText_whole endedText { maxDepth := 3 }).seek 8).rewinds (by decide)
  exact ⟨failed, place, rfl, ((nested 3).refused .strict _ rfl).2,
    (ended.stamped .loose rfl).2.trans (behind.closed rfl).2⟩

end Reader
end PdfObjects
