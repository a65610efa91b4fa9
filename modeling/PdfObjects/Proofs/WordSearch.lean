import PdfObjects.Proofs.Listing

/-! Searching for a keyword. The search goes from one occurrence of its bytes to the next behind it, until
one stands alone. Behind an occurrence that does not, nothing is missed: what starts inside it has one of
its letters for a neighbour. So the search finds the first place where the keyword stands alone, or that
there is none. -/
namespace PdfObjects

namespace Lexis

/-- Whether a word stands in a text at a place and, on both sides, next to blanks or the end of the text. -/
def standsAlone (word text : Bytes) (place : Nat) : Bool :=
  word.isPrefixOf (text.drop place) &&
    ((place == 0 || (text[place - 1]?).all Byte.isWhitespace) &&
      (text[place + word.length]?).all Byte.isWhitespace)

/-- The first place, from some place on, at which something holds, if there is one. -/
def First (holds : Nat → Bool) (start : Nat) : Option Nat → Prop
  | none => ∀ place, start ≤ place → holds place = false
  | some found => start ≤ found ∧ holds found = true ∧
    ∀ place, start ≤ place → place < found → holds place = false

/-- Where a search for a tag leaves the cursor: behind what it found, or at the end of the text. -/
def behind (tag text : Bytes) : Option Nat → Nat
  | some here => here + tag.length
  | none => text.length

/-- A word of bytes that neither separate nor delimit words. -/
structure Solid (word : Bytes) : Prop where
  nonempty : word ≠ []
  inner : word.all isInner = true

variable {holds : Nat → Bool} {start later : Nat} {found : Option Nat} {word text : Bytes}

/-- Places at which it does not hold can be passed over. -/
theorem First.pass (first : First holds later found) (further : start ≤ later)
    (none : ∀ place, start ≤ place → place < later → holds place = false) :
    First holds start found := by
  cases found with
  | none =>
    intro place behind
    rcases Nat.lt_or_ge place later with before | after
    · exact none place behind before
    · exact first place after
  | some stop =>
    obtain ⟨after, here, before⟩ := first
    refine ⟨Nat.le_trans further after, here, fun place behind ahead => ?_⟩
    rcases Nat.lt_or_ge place later with passed | left
    · exact none place behind passed
    · exact before place left ahead

/-- Blanks are what a keyword is not glued to. -/
theorem isGlue_blank : ∀ b : UInt8, Scan.isGlue true b = !Byte.isWhitespace b := by
  decide +kernel

/-- Nothing stands alone inside a word. -/
theorem standsAlone_inside (solid : Solid word) {here place : Nat}
    (occurs : word.isPrefixOf (text.drop here) = true) (behind : here < place)
    (before : place < here + word.length) : standsAlone word text place = false := by
  obtain ⟨rest, same⟩ := List.isPrefixOf_iff_prefix.mp occurs
  have index : place - 1 - here < word.length := by omega
  have neighbour : text[place - 1]? = some word[place - 1 - here] := by
    have shifted : (text.drop here)[place - 1 - here]? = text[place - 1]? := by
      rw [List.getElem?_drop, Nat.add_sub_cancel' (by omega)]
    rw [← shifted, ← same, List.getElem?_append_left index, List.getElem?_eq_getElem index]
  have inner := List.all_eq_true.mp solid.inner _ (List.getElem_mem index)
  have black := (inner_class inner).2.1
  have positive : (place == 0) = false := by simp; omega
  simp [standsAlone, neighbour, black, positive]

end Lexis

namespace Scan
open Lexis (First Solid standsAlone)

variable {t : Resident} {ahead tag word : Bytes}

/-- Comparing goes on to the first difference or to the end of the data. -/
theorem agrees_cases (tag : Bytes) (standing : t.HasAhead ahead) : ∃ count,
    (agrees tag).run t = (if tag.isPrefixOf ahead then some true
      else if ahead.isPrefixOf tag then none else some false, t.move count) ∧
    (tag.isPrefixOf ahead = true → count = tag.length) ∧
    (tag.isPrefixOf ahead = false → ahead.isPrefixOf tag = true → count = ahead.length) := by
  induction tag generalizing t ahead with
  | nil => exact ⟨0, by simp [agrees], fun _ => rfl, fun never => by simp at never⟩
  | cons expected tag ih =>
    cases ahead with
    | nil => exact ⟨0, by simp [agrees, next_run_nil standing], fun never => by simp at never, fun _ _ => rfl⟩
    | cons b ahead =>
      by_cases same : b = expected
      · subst same
        obtain ⟨count, ran, whole, cut⟩ := ih standing.cons
        refine ⟨1 + count, ?_, fun occurs => ?_, fun absent short => ?_⟩
        · simp only [agrees, run_bind, next_run standing, ↓reduceIte, ran, Resident.move_move]
          simp [List.isPrefixOf]
        · rw [whole (by simpa [List.isPrefixOf] using occurs), List.length_cons, Nat.add_comm]
        · rw [cut (by simpa [List.isPrefixOf] using absent) (by simpa [List.isPrefixOf] using short),
            List.length_cons, Nat.add_comm]
      · have other : ¬ expected = b := fun equal => same equal.symm
        refine ⟨1, ?_, fun occurs => ?_, fun _ short => ?_⟩
        · simp [agrees, next_run standing, same, other, List.isPrefixOf]
        · simp [List.isPrefixOf, other] at occurs
        · simp [List.isPrefixOf, same] at short

/-- What is shorter than a tag is not where it occurs. -/
theorem occurs_not (short : ahead.length < tag.length) : tag.isPrefixOf ahead = false := by
  refine Bool.eq_false_iff.mpr fun occurs => ?_
  exact absurd (List.isPrefixOf_iff_prefix.mp occurs).length_le (Nat.not_le_of_lt short)

theorem findFrom_first (nonempty : tag ≠ []) (fuel : Nat) (stands : t.Stands ahead)
    (enough : ahead.length ≤ fuel) : ∃ found,
    (findFrom tag fuel).run t = (found, { t with position := Lexis.behind tag t.bytes found }) ∧
      First (fun place => tag.isPrefixOf (t.bytes.drop place)) t.position found := by
  have positive := List.length_pos_iff.mpr nonempty
  have within := stands.within
  have total := stands.toHasAhead.length
  -- Behind the cursor there are no more bytes than ahead of it.
  have left (place : Nat) (behind : t.position ≤ place) :
      (t.bytes.drop place).length ≤ ahead.length := by
    rw [← stands.ahead, List.length_drop, List.length_drop]
    omega
  induction fuel generalizing t ahead with
  | zero =>
    have last : t.position = t.bytes.length := by omega
    refine ⟨none, Prod.ext rfl ?_, fun place behind => occurs_not ?_⟩
    · change t = { t with position := t.bytes.length }
      rw [← last]
    · exact Nat.lt_of_le_of_lt (Nat.le_trans (left place behind) enough) positive
  | succ fuel ih =>
    obtain ⟨count, ran, whole, short⟩ := agrees_cases tag stands.toHasAhead
    by_cases occurs : tag.isPrefixOf ahead = true
    · rw [if_pos occurs, whole occurs] at ran
      refine ⟨some t.position, ?_, Nat.le_refl _, ?_, ?_⟩
      · simp only [findFrom, run_bind, position_run, ran]
        rfl
      · change tag.isPrefixOf (t.bytes.drop t.position) = true
        rw [stands.ahead]
        exact occurs
      · intro place behind before
        omega
    · by_cases cut : ahead.isPrefixOf tag = true
      · rw [if_neg occurs, if_pos cut, short (Bool.eq_false_iff.mpr occurs) cut] at ran
        have shorter : ahead.length < tag.length := by
          refine Nat.lt_of_le_of_ne (List.isPrefixOf_iff_prefix.mp cut).length_le fun same => ?_
          have equal := (List.isPrefixOf_iff_prefix.mp cut).eq_of_length same
          exact occurs (by rw [equal]; simp)
        have last : t.position + ahead.length = t.bytes.length := by omega
        refine ⟨none, ?_, fun place behind => occurs_not ?_⟩
        · simp only [findFrom, run_bind, position_run, ran, Lexis.behind, ← last]
          rfl
        · exact Nat.lt_of_le_of_lt (left place behind) shorter
      · rw [if_neg occurs, if_neg cut] at ran
        cases ahead with
        | nil => simp at cut
        | cons b ahead =>
          have behind : (t.move 1).Stands ahead := @Resident.Stands.append _ [b] _ stands
          have forward : (seek (t.position + 1)).run (t.move count) = ((), t.move 1) :=
            seek_run behind.within
          obtain ⟨found, later, first⟩ := ih behind (by simpa using enough) behind.within
            behind.toHasAhead.length fun place after => by
              rw [← behind.ahead, List.length_drop, List.length_drop]
              change t.position + 1 ≤ place at after
              change t.bytes.length - place ≤ t.bytes.length - (t.position + 1)
              omega
          refine ⟨found, ?_, first.pass (Nat.le_succ _) ?_⟩
          · simp only [findFrom, run_bind, position_run, ran, forward, later]
            rfl
          · intro place here before
            have same : place = t.position := by
              change place < t.position + 1 at before
              omega
            rw [same]
            change tag.isPrefixOf (t.bytes.drop t.position) = false
            rw [stands.ahead]
            exact Bool.eq_false_iff.mpr occurs

/-- Moves behind the first occurrence of a tag, or to the end. -/
theorem findTag_first (nonempty : tag ≠ []) (stands : t.Stands ahead) : ∃ found,
    (findTag tag).run t =
      (found.map (· - t.position), { t with position := Lexis.behind tag t.bytes found }) ∧
      First (fun place => tag.isPrefixOf (t.bytes.drop place)) t.position found := by
  obtain ⟨found, ran, first⟩ := findFrom_first nonempty ahead.length stands (Nat.le_refl _)
  refine ⟨found, ?_, first⟩
  have some : tag.isEmpty = false := by simpa using nonempty
  simp only [findTag, some, Bool.false_eq_true, ↓reduceIte, run_bind, position_run,
    remaining_run stands.toHasAhead, ran]
  rfl

theorem isGluedAt_run (keyword : Bool) (place : Nat) (t : Resident) :
    (isGluedAt keyword place).run t = ((t.bytes[place]?).any (isGlue keyword), t) := by
  have byte : (byteAt place).run t = (t.bytes[place]?, t) := rfl
  simp only [isGluedAt, run_bind, byte]
  cases t.bytes[place]? <;> rfl

/-- The neighbours of a word tell whether it is a whole word, unless they are glued to it. -/
theorem isWholeWord_neighbours (solid : Solid word) {here limit : Nat} (inside : here + word.length ≤ limit)
    (keyword : Bool) : (isWholeWord here limit word keyword).run t =
      ((here == 0 || !(t.bytes[here - 1]?).any (isGlue keyword)) &&
        !(t.bytes[here + word.length]?).any (isGlue keyword), t) := by
  have ends (b : UInt8) (member : b ∈ word) : canGlue b = true := by
    have inner := List.all_eq_true.mp solid.inner b member
    simpa [canGlue, Lexis.isInner] using inner
  have leading := List.head?_eq_some_head solid.nonempty
  have trailing := List.getLast?_eq_some_getLast solid.nonempty
  have left := ends _ (List.head_mem solid.nonempty)
  have right := ends _ (List.getLast_mem solid.nonempty)
  rw [isWholeWord, leading, trailing]
  simp only [Machine.wrapped_of_le inside, left, right, Bool.true_and, decide_eq_true_eq, inside, ↓reduceIte,
    run_bind, isGluedAt_run]
  cases (t.bytes[here + word.length]?).any (isGlue keyword) with
  | true => simp
  | false =>
    cases here with
    | zero => simp
    | succ earlier => simp [isGluedAt_run]

/-- Where a keyword occurs, its neighbours tell whether it stands alone. -/
theorem isWholeWord_alone (solid : Solid word) {here limit : Nat}
    (occurs : word.isPrefixOf (t.bytes.drop here) = true) (inside : here + word.length ≤ limit) :
    (isWholeWord here limit word true).run t = (standsAlone word t.bytes here, t) := by
  have blank (found : Option UInt8) : (!found.any (isGlue true)) = found.all Byte.isWhitespace := by
    cases found <;> simp [Lexis.isGlue_blank]
  rw [isWholeWord_neighbours solid inside, blank, blank, standsAlone, occurs, Bool.true_and]

/-- Going from one occurrence to the next finds the first that stands alone. -/
theorem findWordFrom_first (solid : Solid word) (fuel : Nat) (stands : t.Stands ahead)
    (enough : ahead.length ≤ fuel) : ∃ found place,
    (findWordFrom word t.bytes.length fuel).run t = (found, { t with position := place }) ∧
      First (standsAlone word t.bytes) t.position found := by
  have positive := List.length_pos_iff.mpr solid.nonempty
  have nowhere {place : Nat} (absent : word.isPrefixOf (t.bytes.drop place) = false) :
      standsAlone word t.bytes place = false := by simp only [standsAlone, absent, Bool.false_and]
  induction fuel generalizing t ahead with
  | zero =>
    refine ⟨none, t.position, rfl, fun place behind => nowhere (occurs_not ?_)⟩
    have left := stands.toHasAhead.length
    rw [List.length_drop]
    omega
  | succ fuel ih =>
    obtain ⟨found, ran, first⟩ := findTag_first solid.nonempty stands
    cases found with
    | none =>
      refine ⟨none, t.bytes.length, ?_, fun place behind => nowhere (first place behind)⟩
      simp only [findWordFrom, run_bind, ran, Option.map_none]
      rfl
    | some here =>
      obtain ⟨behind, occurs, before⟩ := first
      simp only [Lexis.behind] at ran
      have inside : here + word.length ≤ t.bytes.length := by
        have fits := (List.isPrefixOf_iff_prefix.mp occurs).length_le
        rw [List.length_drop] at fits
        omega
      have checked := @isWholeWord_alone { t with position := here + word.length } _ solid here
        t.bytes.length occurs inside
      have start : here + word.length - word.length = here := Nat.add_sub_cancel _ _
      by_cases alone : standsAlone word t.bytes here = true
      · refine ⟨some here, here + word.length, ?_, behind, alone, fun place after ahead =>
          nowhere (before place after ahead)⟩
        simp only [findWordFrom, run_bind, ran, Option.map_some, position_run, start, checked, alone,
          ↓reduceIte]
        rfl
      · have further : { t with position := here + word.length }.Stands
            (t.bytes.drop (here + word.length)) := ⟨⟨rfl, stands.unrecorded⟩, inside⟩
        obtain ⟨found, place, later, rest⟩ := ih further (by
          have left := stands.toHasAhead.length
          rw [List.length_drop]
          omega) nowhere
        refine ⟨found, place, ?_, rest.pass (Nat.le_trans behind (Nat.le_add_right _ _)) ?_⟩
        · simp only [findWordFrom, run_bind, ran, Option.map_some, position_run, start, checked,
            alone, Bool.false_eq_true, ↓reduceIte, later]
        · intro place after ahead
          rcases Nat.lt_trichotomy place here with earlier | same | inner
          · exact nowhere (before place after earlier)
          · rw [same]
            exact Bool.eq_false_iff.mpr alone
          · exact Lexis.standsAlone_inside solid occurs inner ahead

/-- The search for a keyword finds the first place, from the cursor on, where it stands alone, or that
there is none; and it leaves everything as it was. -/
theorem findWord_first (solid : Solid word) (stands : t.Stands ahead) :
    ∃ found, (findWord word).run t = (found, t) ∧
      First (standsAlone word t.bytes) t.position found := by
  obtain ⟨found, place, ran, first⟩ :=
    findWordFrom_first solid ahead.length stands (Nat.le_refl _)
  have size : documentSize.run t = (t.bytes.length, t) := rfl
  have back : (seek t.position).run { t with position := place } = ((), t) := seek_run stands.within
  refine ⟨found, ?_, first⟩
  simp only [findWord, lookahead, run_bind, position_run, size, remaining_run stands.toHasAhead, ran,
    back]
  rfl

end Scan
end PdfObjects
