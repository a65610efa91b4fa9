import PdfObjects.Proofs.StreamEnds

/-! Searching forward in a document. The search for a tag tries one place after the other, so it finds the
first occurrence; the search for a keyword goes on behind a whole occurrence that does not stand alone, and
still finds the first one that does. Two that stand alone cannot overlap, so going on behind each of them
in turn finds all of them. -/
namespace PdfObjects

namespace Lexis

variable {holds : Nat → Bool} {start later stop : Nat} {found : Option Nat} {word text : Bytes}

/-- All places between two at which something holds, in order. -/
def placesFrom (holds : Nat → Bool) (start stop : Nat) : List Nat :=
  (List.range' start (stop - start)).filter holds

/-- All places, from one on, at which a word stands alone. -/
def standings (word text : Bytes) (start : Nat) : List Nat :=
  placesFrom (standsAlone word text) start text.length

theorem placesFrom_nil (none : ∀ place, start ≤ place → place < stop → holds place = false) :
    placesFrom holds start stop = [] := by
  refine List.filter_eq_nil_iff.mpr fun place member => ?_
  obtain ⟨behind, before⟩ := List.mem_range'_1.mp member
  rw [none place behind (by omega)]
  decide

theorem placesFrom_append (further : start ≤ later) (inside : later ≤ stop) :
    placesFrom holds start stop = placesFrom holds start later ++ placesFrom holds later stop := by
  have split := @List.range'_append_1 start (later - start) (stop - later)
  rw [Nat.add_sub_cancel' further, Nat.add_comm, Nat.sub_add_sub_cancel inside further] at split
  rw [placesFrom, ← split, List.filter_append, placesFrom, placesFrom]

/-- Places at which it does not hold can be passed over. -/
theorem placesFrom_pass (further : start ≤ later)
    (none : ∀ place, start ≤ place → place < later → holds place = false) :
    placesFrom holds start stop = placesFrom holds later stop := by
  rcases Nat.le_total later stop with inside | outside
  · rw [placesFrom_append further inside, placesFrom_nil none, List.nil_append]
  · have ended {place : Nat} (behind : later ≤ place) (before : place < stop) : False :=
      Nat.not_lt.mpr outside (Nat.lt_of_le_of_lt behind before)
    rw [placesFrom_nil fun place behind before => none place behind (Nat.lt_of_lt_of_le before outside),
      placesFrom_nil fun place behind before => (ended behind before).elim]

theorem placesFrom_here (here : holds start = true) (inside : start < stop) :
    placesFrom holds start stop = start :: placesFrom holds (start + 1) stop := by
  have more : stop - start = stop - (start + 1) + 1 := by omega
  rw [placesFrom, more, List.range'_succ, List.filter_cons_of_pos here]
  rfl

/-- The first place is the head of them all. -/
theorem First.places {here : Nat} (first : First holds start (some here)) (inside : here < stop) :
    placesFrom holds start stop = here :: placesFrom holds (here + 1) stop := by
  obtain ⟨behind, holding, before⟩ := first
  rw [placesFrom_pass behind before, placesFrom_here holding inside]

/-- What stands alone occurs, and lies inside the text. -/
theorem standsAlone_occurs (solid : Solid word) {place : Nat} (alone : standsAlone word text place = true) :
    word.isPrefixOf (text.drop place) = true ∧ place + word.length ≤ text.length := by
  have occurs := (Bool.and_eq_true_iff.mp alone).1
  have fits := (List.isPrefixOf_iff_prefix.mp occurs).length_le
  have positive := List.length_pos_iff.mpr solid.nonempty
  rw [List.length_drop] at fits
  exact ⟨occurs, by omega⟩

/-- Behind the first place at which a word stands alone, the next one is behind all of the word. -/
theorem First.standings_cons (solid : Solid word) {here : Nat}
    (first : First (standsAlone word text) start (some here)) :
    standings word text start = here :: standings word text (here + word.length) := by
  obtain ⟨occurs, inside⟩ := standsAlone_occurs solid first.2.1
  have positive := List.length_pos_iff.mpr solid.nonempty
  rw [standings, first.places (by omega), standings]
  congr 1
  refine placesFrom_pass (by omega) fun place behind before => ?_
  exact standsAlone_inside solid occurs behind before

/-- The bytes of words and numbers are those that neither separate nor delimit words. -/
theorem isInner_class : ∀ b : UInt8, isInner b = (Byte.isRegular b || Byte.isNumeric b) := by
  decide +kernel

theorem solid_of_class (nonempty : word ≠ [])
    (bytes : ∀ b ∈ word, (Byte.isRegular b || Byte.isNumeric b) = true) : Solid word :=
  ⟨nonempty, List.all_eq_true.mpr fun b member => (isInner_class b).trans (bytes b member)⟩

end Lexis

namespace Scan
open Lexis (First Solid standsAlone standings placesFrom)

variable {t : Resident} {ahead word : Bytes}

/-- Where the cursor is after some occurrences: behind the last of them. -/
def behindLast (word : Bytes) (start : Nat) (found : List Nat) : Nat :=
  match found.getLast? with
  | some last => last + word.length
  | none => start

theorem behindLast_cons (word : Bytes) (start here : Nat) (found : List Nat) :
    behindLast word start (here :: found) = behindLast word (here + word.length) found := by
  unfold behindLast
  rw [List.getLast?_cons]
  cases found.getLast? <;> rfl

/-- Each round finds the next place, and goes on behind it. -/
theorem occurrencesFrom_run (solid : Solid word) (fuel : Nat) (found : List Nat)
    (stands : t.Stands ahead) (enough : ahead.length ≤ fuel) :
    (occurrencesFrom word fuel found).run t =
      (found.reverse ++ standings word t.bytes t.position,
        { t with position := behindLast word t.position (standings word t.bytes t.position) }) := by
  induction fuel generalizing t ahead found with
  | zero =>
    have total := stands.toHasAhead.length
    have none : standings word t.bytes t.position = [] := by
      have empty : t.bytes.length - t.position = 0 := by omega
      rw [standings, placesFrom, empty]
      rfl
    rw [none, List.append_nil]
    rfl
  | succ fuel ih =>
    obtain ⟨next, ran, first⟩ := findWord_first solid stands
    simp only [occurrencesFrom, run_bind, ran]
    cases next with
    | none =>
      rw [standings, Lexis.placesFrom_nil fun place behind _ => first place behind, List.append_nil]
      rfl
    | some here =>
      have inside := (Lexis.standsAlone_occurs solid first.2.1).2
      have positive := List.length_pos_iff.mpr solid.nonempty
      have total := stands.toHasAhead.length
      have behind : { t with position := here + word.length }.Stands
          (t.bytes.drop (here + word.length)) := ⟨⟨rfl, stands.unrecorded⟩, inside⟩
      have less : (t.bytes.drop (here + word.length)).length ≤ fuel := by
        have after := first.1
        rw [List.length_drop]
        omega
      rw [First.standings_cons solid first, behindLast_cons, run_bind, seek_run inside]
      dsimp only
      rw [ih (here :: found) behind less, List.reverse_cons, List.append_assoc]
      rfl

/-- The search for all occurrences of a keyword that stand alone finds just these, in order. -/
theorem occurrences_run (solid : Solid word) (stands : t.Stands ahead) :
    (occurrences word).run t =
      (standings word t.bytes t.position,
        { t with position := behindLast word t.position (standings word t.bytes t.position) }) := by
  rw [occurrences, run_bind, remaining_run stands.toHasAhead,
    occurrencesFrom_run solid _ [] stands (Nat.le_refl _)]
  rfl

end Scan

namespace Reader
open Lexis (First standsAlone standings)

variable {document : Bytes} {r : Reader}

/-- The bytes themselves, as they are ahead of a reader of a whole document. -/
theorem Whole.stands (whole : r.Whole document) (inside : r.position ≤ r.size) :
    (r.mirror document).unrecorded.Stands ((document.drop r.origin).drop r.position) :=
  ⟨⟨rfl, rfl⟩, by rw [whole.faithful.size] at inside; exact inside⟩

/-- What is found in searching forward. Take any reader of a whole document, with the cursor inside. The
search for a tag that is not empty answers with the distance to the first place, from the cursor on, where
the tag occurs, and moves behind that; if there is none, it moves to the end. The search for a keyword made
of regular and numeric bytes answers with the first place where the keyword stands alone, between blanks or
the ends of the document, and does not move. And the search for all occurrences lists all such places, each
of them once and in order, and moves behind the last. -/
theorem Whole.finds_leftmost (whole : r.Whole document) (inside : r.position ≤ r.size) :
    (∀ tag : Bytes, tag ≠ [] → ∃ found,
      First (fun place => tag.isPrefixOf ((document.drop r.origin).drop place)) r.position found ∧
      ((Scan.findTag tag).run r).1 = found.map (· - r.position) ∧
      ((Scan.findTag tag).run r).2.position = Lexis.behind tag (document.drop r.origin) found) ∧
    (∀ word : Bytes, word ≠ [] → (∀ b ∈ word, (Byte.isRegular b || Byte.isNumeric b) = true) →
      (First (standsAlone word (document.drop r.origin)) r.position ((Scan.findWord word).run r).1 ∧
        ((Scan.findWord word).run r).2.position = r.position) ∧
      (((Scan.occurrences word).run r).1 = standings word (document.drop r.origin) r.position ∧
        ((Scan.occurrences word).run r).2.position =
          Scan.behindLast word r.position ((Scan.occurrences word).run r).1)) := by
  have stands := whole.stands inside
  constructor
  · intro tag nonempty
    obtain ⟨found, ran, first⟩ := Scan.findTag_first nonempty stands
    obtain ⟨same, place⟩ := whole.resident_run (Scan.findTag tag)
    rw [ran] at same place
    exact ⟨found, first, same.symm, place.symm⟩
  · intro word nonempty bytes
    have solid := Lexis.solid_of_class nonempty bytes
    constructor
    · obtain ⟨found, ran, first⟩ := Scan.findWord_first solid stands
      obtain ⟨same, place⟩ := whole.resident_run (Scan.findWord word)
      rw [ran] at same place
      rw [← same, ← place]
      exact ⟨first, rfl⟩
    · obtain ⟨same, place⟩ := whole.resident_run (Scan.occurrences word)
      rw [Scan.occurrences_run solid stands] at same place
      rw [← same, ← place]
      exact ⟨rfl, rfl⟩

/-- Occurrences that overlap, that are glued to their neighbours, and that stand alone. -/
def repeatsText : Bytes := Bytes.ofAscii "baaab aa aab%aa\naa".toList

/-- A tag is found behind a false start, and the keyword at the only two places where it stands alone. -/
theorem repeatsText_found :
    First (fun place => (Bytes.ofAscii ['a', 'a', 'b']).isPrefixOf (repeatsText.drop place)) 0 (some 2) ∧
      ((Scan.findTag (Bytes.ofAscii ['a', 'a', 'b'])).run (ofText repeatsText {})).2.position = 5 ∧
      ((Scan.findWord (Bytes.ofAscii ['a', 'a'])).run (ofText repeatsText {})).2.position = 0 ∧
      ((Scan.occurrences (Bytes.ofAscii ['a', 'a'])).run (ofText repeatsText {})).1 = [6, 16] := by
  obtain ⟨tags, words⟩ := (ofText_whole repeatsText {}).finds_leftmost (Nat.zero_le _)
  obtain ⟨found, first, distance, place⟩ := tags (Bytes.ofAscii ['a', 'a', 'b']) (by decide)
  have ran : ((Scan.findTag (Bytes.ofAscii ['a', 'a', 'b'])).run (ofText repeatsText {})).1 = some 2 := by
    decide +kernel
  rw [ran] at distance
  obtain ⟨here, rfl, same⟩ := Option.map_eq_some_iff.mp distance.symm
  obtain rfl : here = 2 := same
  obtain ⟨⟨_, stays⟩, all, _⟩ := words (Bytes.ofAscii ['a', 'a']) (by decide) (by decide +kernel)
  exact ⟨first, place, stays, all.trans (by decide +kernel)⟩

end Reader
end PdfObjects
