import PdfObjects.Proofs.Headers
import PdfObjects.Proofs.Occurrences

/-! The survey of objects, round by round. Each round looks for the next keyword, goes back from there to where
a header might start, and reads from that place on; the next round starts behind the keyword, or behind what
was read if that is further on. So the survey comes to an end; what it reports lies further back from one
round to the next, since no way back leads over a keyword; and a header that is not reported lies inside an
object that is. -/
namespace PdfObjects

open Parse (objectKeyword)

/-- What a survey has come to. -/
structure Survey where
  /-- How many objects may still be found. -/
  left : Option Nat
  table : Table := {}
  /-- What has been found, last one first. -/
  found : List Sighting := []

namespace Survey

/-- Notes a place where no object could be read. -/
def refuse (survey : Survey) (start : Nat) (e : Error) : Survey :=
  { survey with found := ⟨start, .error e⟩ :: survey.found }

/-- Notes an object, which resolves later references. -/
def accept (survey : Survey) (start : Nat) (indirect : Indirect) : Survey where
  left := survey.left.map (· - 1)
  table := survey.table.insertIndirect indirect
  found := ⟨start, .ok indirect⟩ :: survey.found

end Survey

namespace Scan

/-- Reading at the header of a keyword, if it has one, and going on behind it. -/
def readAt (survey : Survey) (behind : Nat) : Option Nat → Scan (Round Survey (List Sighting))
  | none => do
    seek behind
    pure (.again survey)
  | some start => do
    match ← (Parse.indirectAt start survey.table.resolver).run with
    | .ok indirect =>
      seek (max behind (← position))
      pure (.again (survey.accept start indirect))
    | .error e =>
      seek behind
      pure (.again (survey.refuse start e))

/-- Looking for one more keyword, and reading there. -/
def objectsRound (survey : Survey) : Scan (Round Survey (List Sighting)) := do
  if survey.left = some 0 then pure (.done survey.found.reverse)
  else
    let here ← position
    match ← findTag objectKeyword with
    | none => pure (.done survey.found.reverse)
    | some distance =>
      let keyword := here + distance
      let behind := keyword + objectKeyword.length
      if ← isWholeWord keyword (← documentSize) objectKeyword false then
        readAt survey behind (← headerStart keyword)
      else readAt survey behind none

theorem objects_counts {σ : Type} [Readable σ] (s : σ) :
    Counts (fun fuel survey => objectsFrom fuel survey.left survey.table survey.found) objectsRound s := by
  intro fuel survey
  simp only [objectsFrom, objectsRound]
  by_cases enough : survey.left = some 0
  · simp only [if_pos enough]
    rfl
  · simp only [if_neg enough, run_bind]
    cases ((findTag objectKeyword).run (position.run s).2).1 with
    | none => rfl
    | some distance =>
      simp only [run_bind]
      split
      · simp only [run_bind]
        split
        · rename_i missing
          rw [missing]
          rfl
        · rename_i start found
          rw [found]
          simp only [readAt, run_bind]
          split
          · rename_i read
            rw [read]
            rfl
          · rename_i refused
            rw [refused]
            rfl
      · rfl

variable {r t : Reader}

/-- Wherever a reader has been, it can go on behind the place from which it came. -/
theorem seek_further (size : t.size = r.size) (room : r.position + 1 ≤ r.size) {place : Nat}
    (further : r.position + 1 ≤ place) : (seek place).Meets t fun _ u => u.AdvancedFrom r 1 := by
  refine ⟨⟨size, Nat.min_le_right _ _, ?_⟩⟩
  change r.position + 1 ≤ min place t.size
  omega

theorem size_meets (program : Scan α) (size : t.size = r.size) :
    program.Meets t fun _ u => u.size = r.size := ⟨(t.size_run program).trans size⟩

theorem readAt_meets (survey : Survey) (header : Option Nat) (size : t.size = r.size)
    (room : r.position + 1 ≤ r.size) {behind : Nat} (further : r.position + 1 ≤ behind) :
    (readAt survey behind header).Meets t (Carries (fun _ u => u.AdvancedFrom r 1) fun _ _ => True) := by
  cases header with
  | none => exact (seek_further size room further).bind fun _ _ past => meets_pure past
  | some start =>
    refine (size_meets _ size).bind fun outcome t size => ?_
    cases outcome with
    | ok indirect =>
      apply meets_position
      have reached := Nat.le_trans further (Nat.le_max_left behind t.position)
      exact (seek_further size room reached).bind fun _ _ past => meets_pure past
    | error e => exact (seek_further size room further).bind fun _ _ past => meets_pure past

theorem objectsRound_consumes : Consumes objectsRound := by
  intro survey r inside
  unfold objectsRound
  refine meets_ite (fun _ => meets_pure trivial) fun _ => ?_
  apply meets_position
  refine (findTag_meets objectKeyword (Reader.advancedFrom_self inside)).bind fun found t past => ?_
  cases found with
  | none => exact meets_pure trivial
  | some distance =>
    have room : r.position + 1 ≤ r.size := past.size ▸ Nat.le_trans past.behind past.inside
    have further : r.position + 1 ≤ r.position + distance + objectKeyword.length := by
      have length : objectKeyword.length = 3 := rfl
      omega
    have reads {t : Reader} (same : t.size = r.size) (header : Option Nat) :=
      (readAt_meets survey header same room further).mono fun result _ past =>
        match result, past with
        | .again _, past => past
        | .done _, _ => trivial
    refine (size_meets documentSize past.size).bind fun size t same => ?_
    refine (size_meets _ same).bind fun alone t same => ?_
    refine meets_ite (fun _ => ?_) fun _ => reads same none
    exact (size_meets _ same).bind fun header t same => reads same header

/-- The survey comes to an end without its counter. -/
theorem objects_finishes (start : Nat) (limit : Option Nat) (r : Reader) :
    Finishes objectsRound { left := limit } (r.seek start) ((objects start limit).run r).1
      ((objects start limit).run r).2 := by
  have inside : (r.seek start).position ≤ (r.seek start).size := Nat.min_le_right _ _
  refine finishes_of_idle (fun s _ => objects_counts s) objectsRound_consumes.on ?_
    ((r.seek start).size - (r.seek start).position) { left := limit } (r.seek start) inside (Nat.le_refl _)
  intro survey s _ empty
  have here : position.run s = (s.position, s) := rfl
  unfold objectsRound
  by_cases enough : survey.left = some 0
  · rw [if_pos enough]
    rfl
  · rw [if_neg enough]
    simp only [run_bind, here, findTag_idle objectKeyword s empty]
    rfl

end Scan

/-- What reading an object at a place comes to, and where the cursor is then, if references are resolved in
some way. -/
abbrev Reading := Nat → Resolver → Except Error Indirect × Nat

/-- What a reader makes of each place. -/
def readings {σ : Type} [Readable σ] (s : σ) : Reading := fun start resolve =>
  let read := (Parse.indirectAt start resolve).run.run s
  (read.1, (Scan.position.run read.2).1)

theorem readings_value {σ : Type} [Readable σ] (s : σ) (start : Nat) (resolve : Resolver) :
    (readings s start resolve).1 = ((Parse.indirectAt start resolve).run.run s).1 := by
  simp only [readings]

/-- The object that was read at a place, if this is its number. -/
def Sighting.object? (number : Nat) (s : Sighting) : Option Object :=
  match s.outcome with
  | .ok indirect => if indirect.number = number then some indirect.object else none
  | .error _ => none

namespace Resolver

/-- What numbers stand for after some sightings: each one for the object that was read last under it, or else
for what it stood for before. -/
def after (resolve : Resolver) (sightings : List Sighting) : Resolver := fun number =>
  (sightings.reverse.findSome? (Sighting.object? number)).or (resolve number)

theorem after_cons (resolve : Resolver) (first : Sighting) (sightings : List Sighting) :
    (resolve.after [first]).after sightings = resolve.after (first :: sightings) := by
  funext number
  simp only [after, List.reverse_cons, List.findSome?_append, List.reverse_nil, List.nil_append,
    Option.or_assoc]

end Resolver

/-- A table stands for the objects that have been stored in it. -/
theorem Table.resolver_after (table : Table) (start : Nat) (indirect : Indirect) :
    (table.insertIndirect indirect).resolver = table.resolver.after [⟨start, .ok indirect⟩] := by
  funext number
  simp only [resolver_insertIndirect, Resolver.after, List.reverse_singleton, List.findSome?_singleton,
    Sighting.object?]
  split <;> rfl

namespace Lexis

/-- Where the header starts whose keyword is at a place, if it stands free there. -/
def headerOf (text : Bytes) (keyword : Nat) : Option Nat :=
  if standsFree objectKeyword text keyword then headerStart text keyword else none

/-- The first place, from another one on, at which the keyword occurs. -/
abbrev FirstKeyword (text : Bytes) (place : Nat) (found : Option Nat) : Prop :=
  First (fun here => objectKeyword.isPrefixOf (text.drop here)) place found

/-- What is found in a text from a place on. There is a case for each way in which a round can go. -/
inductive Surveys (text : Bytes) (reading : Reading) :
    Nat → Option Nat → Resolver → List Sighting → Prop where
  | enough : Surveys text reading place (some 0) resolve []
  | last (first : FirstKeyword text place none) : Surveys text reading place left resolve []
  /-- A keyword without a header. -/
  | passed (first : FirstKeyword text place (some keyword)) (header : headerOf text keyword = none)
    (later : Surveys text reading (keyword + 3) left resolve sightings) :
    Surveys text reading place left resolve sightings
  /-- A header behind which there is no object. -/
  | refused (first : FirstKeyword text place (some keyword)) (header : headerOf text keyword = some start)
    (ran : (reading start resolve).1 = .error e)
    (later : Surveys text reading (keyword + 3) left resolve sightings) :
    Surveys text reading place left resolve (⟨start, .error e⟩ :: sightings)
  | read (more : left ≠ some 0) (first : FirstKeyword text place (some keyword))
    (header : headerOf text keyword = some start) (ran : (reading start resolve).1 = .ok indirect)
    (later : Surveys text reading (max (keyword + 3) (reading start resolve).2) (left.map (· - 1))
      (resolve.after [⟨start, .ok indirect⟩]) sightings) :
    Surveys text reading place left resolve (⟨start, .ok indirect⟩ :: sightings)

end Lexis

namespace Resident

variable {t u : Resident} {ahead : Bytes}

theorem indirectAt_eq (t : Resident) (start : Nat) (resolve : Resolver) :
    (Parse.indirectAt start resolve).run.run t =
      (Parse.headerAndObject resolve t.limits.mode).run.run (t.seek start) := by
  have sought : (Scan.seek start).run t = ((), t.seek start) := rfl
  rw [Parse.indirectAt, Parse.run_bind_lift, sought, Parse.run_bind_lift, Scan.settings_run, Parse.indirect,
    Parse.whole_resident]
  rfl

/-- Only the document and its limits decide what is read at a place, and how far. -/
theorem reading_eq (bytes : t.bytes = u.bytes) (limits : t.limits = u.limits) : readings t = readings u := by
  funext start resolve
  have place : (t.seek start).position = (u.seek start).position := by simp only [seek, bytes]
  obtain ⟨value, stop⟩ := @Parse.headerAndObject_memoryless resolve u.limits.mode (t.seek start)
    (u.seek start) bytes limits place
  simp only [readings, indirectAt_eq, Scan.position_run, limits, value, stop]

/-- Any run leaves a reader in its document. -/
theorem Stands.run (stands : t.Stands ahead) (program : Scan α) :
    (program.run t).2.Stands (t.bytes.drop (program.run t).2.position) := by
  have continues := program.run_continues t
  have plain : t.unrecorded = t := by
    unfold Resident.unrecorded
    rw [← stands.unrecorded]
  have same := Scan.run_unrecorded program t
  rw [plain] at same
  have unrecorded : (program.run t).2.trailerEnds = none := by
    rw [same]
    rfl
  exact ⟨⟨by rw [continues.bytes], unrecorded⟩, continues.bytes ▸ continues.inside stands.within⟩

/-- So does going to any place in it. -/
theorem Stands.at (stands : t.Stands ahead) {place : Nat} (inside : place ≤ t.bytes.length) :
    { t with position := place }.Stands (t.bytes.drop place) := ⟨⟨rfl, stands.unrecorded⟩, inside⟩

end Resident

namespace Survey

/-- What a round makes of a survey, and where the next one starts. -/
def next (reading : Reading) (survey : Survey) (behind : Nat) : Option Nat → Survey × Nat
  | none => (survey, behind)
  | some start =>
    match reading start survey.table.resolver with
    | (.error e, _) => (survey.refuse start e, behind)
    | (.ok indirect, stop) => (survey.accept start indirect, max behind stop)

/-- It starts behind the keyword. -/
theorem next_behind (reading : Reading) (survey : Survey) (behind : Nat) (header : Option Nat) :
    behind ≤ (survey.next reading behind header).2 := by
  cases header with
  | none => exact Nat.le_refl _
  | some start =>
    simp only [next]
    split
    · exact Nat.le_refl _
    · exact Nat.le_max_left _ _

end Survey

namespace Scan
open Lexis (First Solid Surveys headerOf standsFree FirstKeyword)

variable {t : Resident} {ahead : Bytes} {survey : Survey} {keyword behind : Nat}

theorem keyword_solid : Solid objectKeyword := ⟨by decide, by decide⟩

theorem readAt_run (survey : Survey) (stands : t.Stands ahead) (inside : behind ≤ t.bytes.length)
    (header : Option Nat) : ∃ u,
      (readAt survey behind header).run t = (.again (survey.next (readings t) behind header).1, u) ∧
      u.position = (survey.next (readings t) behind header).2 ∧ u.Stands (t.bytes.drop u.position) ∧
      u.bytes = t.bytes ∧ u.limits = t.limits := by
  cases header with
  | none =>
    refine ⟨{ t with position := behind }, ?_, rfl, stands.at inside, rfl, rfl⟩
    simp only [readAt, run_bind, seek_run inside]
    rfl
  | some start =>
    have after := stands.run (Parse.indirectAt start survey.table.resolver).run
    have continues := (Parse.indirectAt start survey.table.resolver).run.run_continues t
    simp only [readAt, run_bind, Survey.next, readings, position_run]
    revert after continues
    cases (Parse.indirectAt start survey.table.resolver).run.run t with
    | mk outcome u =>
      intro after continues
      have bytes : u.bytes = t.bytes := continues.bytes
      have room : behind ≤ u.bytes.length := by rwa [bytes]
      cases outcome with
      | error e =>
        refine ⟨{ u with position := behind }, ?_, rfl, ?_, bytes, continues.limits⟩
        · simp only [run_bind, seek_run room]
          rfl
        · rw [← bytes]
          exact after.at room
      | ok indirect =>
        have within : max behind u.position ≤ u.bytes.length := Nat.max_le.mpr ⟨room, after.within⟩
        refine ⟨{ u with position := max behind u.position }, ?_, rfl, ?_, bytes, continues.limits⟩
        · simp only [run_bind, position_run, seek_run within]
          rfl
        · rw [← bytes]
          exact after.at within

/-- A round goes to the next keyword and reads at its header. -/
theorem objectsRound_found (more : survey.left ≠ some 0)
    (ran : (findTag objectKeyword).run t = (some (keyword - t.position), { t with position := keyword + 3 }))
    (first : FirstKeyword t.bytes t.position (some keyword)) :
    (objectsRound survey).run t =
      (readAt survey (keyword + 3) (headerOf t.bytes keyword)).run { t with position := keyword + 3 } := by
  obtain ⟨further, found, _⟩ := first
  have occurs : objectKeyword.isPrefixOf (t.bytes.drop keyword) = true := found
  have inside : keyword + objectKeyword.length ≤ t.bytes.length := by
    have fits := (List.isPrefixOf_iff_prefix.mp occurs).length_le
    have length : objectKeyword.length = 3 := rfl
    rw [List.length_drop] at fits
    omega
  have size : documentSize.run { t with position := keyword + 3 } =
      (t.bytes.length, { t with position := keyword + 3 }) := rfl
  have checked :
      (isWholeWord keyword t.bytes.length objectKeyword false).run { t with position := keyword + 3 } =
        (standsFree objectKeyword t.bytes keyword, { t with position := keyword + 3 }) := by
    rw [isWholeWord_neighbours keyword_solid inside, standsFree, occurs, Bool.true_and]
  have length : objectKeyword.length = 3 := rfl
  simp only [objectsRound, if_neg more, run_bind, position_run, ran, Nat.add_sub_cancel' further, size, checked,
    length, headerOf]
  split
  · simp only [run_bind, headerStart_start]
  · rfl

/-- A round that goes on finds what there is to find in between. -/
theorem surveys_next {reading : Reading} {text : Bytes} {place : Nat} {later : List Sighting}
    (more : survey.left ≠ some 0) (first : FirstKeyword text place (some keyword))
    (surveys : Surveys text reading (survey.next reading (keyword + 3) (headerOf text keyword)).2
      (survey.next reading (keyword + 3) (headerOf text keyword)).1.left
      (survey.next reading (keyword + 3) (headerOf text keyword)).1.table.resolver later) :
    ∃ all, survey.found.reverse ++ all =
        (survey.next reading (keyword + 3) (headerOf text keyword)).1.found.reverse ++ later ∧
      Surveys text reading place survey.left survey.table.resolver all := by
  cases header : headerOf text keyword with
  | none =>
    rw [header] at surveys
    exact ⟨later, rfl, .passed first header surveys⟩
  | some start =>
    rw [header] at surveys
    simp only [Survey.next] at surveys ⊢
    cases ran : reading start survey.table.resolver with
    | mk outcome stop =>
      rw [ran] at surveys
      cases outcome with
      | error e =>
        refine ⟨⟨start, .error e⟩ :: later, ?_, .refused first header (congrArg Prod.fst ran) surveys⟩
        simp [Survey.refuse]
      | ok indirect =>
        refine ⟨⟨start, .ok indirect⟩ :: later, ?_, .read more first header (congrArg Prod.fst ran) ?_⟩
        · simp [Survey.accept]
        · rw [ran, ← survey.table.resolver_after start]
          exact surveys

/-- The whole survey, with a counter for all bytes that are there. -/
theorem objectsFrom_surveys (fuel : Nat) (survey : Survey) (stands : t.Stands ahead)
    (enough : ahead.length ≤ fuel) : ∃ later,
      ((objectsFrom fuel survey.left survey.table survey.found).run t).1 = survey.found.reverse ++ later ∧
        Surveys t.bytes (readings t) t.position survey.left survey.table.resolver later := by
  induction fuel generalizing t ahead survey with
  | zero =>
    refine ⟨[], (List.append_nil _).symm, .last fun place behind => occurs_not ?_⟩
    have left := stands.toHasAhead.length
    have length : objectKeyword.length = 3 := rfl
    rw [List.length_drop]
    omega
  | succ fuel ih =>
    have counts := objects_counts t fuel survey
    dsimp only at counts
    rw [counts]
    by_cases done : survey.left = some 0
    · refine ⟨[], ?_, done ▸ .enough⟩
      simp only [objectsRound, if_pos done, List.append_nil]
      rfl
    · obtain ⟨found, ran, first⟩ := findTag_first keyword_solid.nonempty stands
      cases found with
      | none =>
        refine ⟨[], ?_, .last first⟩
        simp only [objectsRound, if_neg done, run_bind, position_run, ran, List.append_nil]
        rfl
      | some keyword =>
        have further : t.position ≤ keyword := first.1
        have fits := (List.isPrefixOf_iff_prefix.mp first.2.1).length_le
        have length : objectKeyword.length = 3 := rfl
        rw [List.length_drop] at fits
        have inside : keyword + 3 ≤ t.bytes.length := by omega
        obtain ⟨u, on, place, behind, bytes, limits⟩ :=
          readAt_run survey (stands.at inside) inside (headerOf t.bytes keyword)
        have same : readings { t with position := keyword + 3 } = readings t := Resident.reading_eq rfl rfl
        have sameToo : readings u = readings t := Resident.reading_eq bytes limits
        rw [same] at on place
        have fewer : (t.bytes.drop u.position).length ≤ fuel := by
          have behind := survey.next_behind (readings t) (keyword + 3) (headerOf t.bytes keyword)
          have left := stands.toHasAhead.length
          rw [List.length_drop]
          omega
        obtain ⟨later, found, surveys⟩ := ih _ behind fewer
        rw [bytes, sameToo, place] at surveys
        obtain ⟨all, shown, whole⟩ := surveys_next done first surveys
        refine ⟨all, ?_, whole⟩
        rw [objectsRound_found done ran first, on, shown]
        exact found

end Scan

namespace Lexis
open CommandLine (success?)

variable {text : Bytes} {reading : Reading} {place start keyword : Nat} {left : Option Nat}
  {resolve : Resolver} {sightings : List Sighting}

theorem headerOf_some (header : headerOf text keyword = some start) :
    standsFree objectKeyword text keyword = true ∧ headerStart text keyword = some start := by
  unfold headerOf at header
  split at header
  · rename_i free
    exact ⟨free, header⟩
  · cases header

/-- The letters of the keyword, of which no header has any. -/
theorem keyword_letters (occurs : objectKeyword.isPrefixOf (text.drop keyword) = true) :
    text[keyword]? = some 'o'.toUInt8 ∧ text[keyword + 1]? = some 'b'.toUInt8 ∧
      text[keyword + 2]? = some 'j'.toUInt8 := by
  obtain ⟨rest, same⟩ := List.isPrefixOf_iff_prefix.mp occurs
  have letter (index : Nat) : text[keyword + index]? = (objectKeyword ++ rest)[index]? := by
    rw [same, List.getElem?_drop]
  exact ⟨letter 0, letter 1, letter 2⟩

/-- Behind a keyword no header reaches further back. -/
theorem keyword_bars (occurs : objectKeyword.isPrefixOf (text.drop keyword) = true) :
    StartsAt isNumbering text (keyword + 3) := by
  intro last same
  obtain rfl : keyword + 2 = last := Nat.succ.inj same
  rw [(keyword_letters occurs).2.2]
  decide

/-- The next keyword starts behind the last one. -/
theorem FirstKeyword.later (first : FirstKeyword text place (some keyword)) {other : Nat}
    (further : place ≤ other) (occurs : objectKeyword.isPrefixOf (text.drop other) = true)
    (differs : other ≠ keyword) : keyword + 3 ≤ other := by
  obtain ⟨_, found, before⟩ := first
  obtain ⟨_, second, third⟩ := keyword_letters found
  obtain ⟨letter, _⟩ := keyword_letters occurs
  have behind : keyword ≤ other := by
    refine Nat.le_of_not_lt fun earlier => ?_
    exact absurd ((before other further earlier).symm.trans occurs) (by decide)
  have apart {index : Nat} {b : UInt8} (byte : text[keyword + index]? = some b) (unlike : b ≠ 'o'.toUInt8) :
      other ≠ keyword + index := by
    rintro rfl
    exact unlike (Option.some.inj (byte.symm.trans letter))
  have notSecond := apart second (by decide)
  have notThird := apart third (by decide)
  omega

/-- A keyword at a place was read in an object that is reported. -/
def ReadInside (reading : Reading) (resolve : Resolver) (sightings : List Sighting) (opening place : Nat) :
    Prop :=
  ∃ earlier s later indirect, sightings = earlier ++ s :: later ∧ s.outcome = .ok indirect ∧
    s.start < opening ∧ place < (reading s.start (resolve.after earlier)).2

theorem ReadInside.cons {first : Sighting} {opening : Nat}
    (inside : ReadInside reading (resolve.after [first]) sightings opening place) :
    ReadInside reading resolve (first :: sightings) opening place := by
  obtain ⟨earlier, s, later, indirect, rfl, read, before, within⟩ := inside
  rw [Resolver.after_cons] at within
  exact ⟨first :: earlier, s, later, indirect, rfl, read, before, within⟩

/-- What is told of a header by later sightings is told by all of them. -/
theorem told_cons {first : Sighting} {opening : Nat}
    (told : (∃ s ∈ sightings, s.start = opening) ∨
      ReadInside reading (resolve.after [first]) sightings opening place) :
    (∃ s ∈ first :: sightings, s.start = opening) ∨
      ReadInside reading resolve (first :: sightings) opening place :=
  told.imp (fun ⟨s, member, starts⟩ => ⟨s, List.mem_cons_of_mem first member, starts⟩) ReadInside.cons

namespace Surveys

/-- What is found from behind a byte of another kind on starts behind it. -/
theorem behind (surveys : Surveys text reading place left resolve sightings) {bar : Nat} (before : bar ≤ place)
    (barred : StartsAt isNumbering text bar) : ∀ s ∈ sightings, bar ≤ s.start := by
  induction surveys with
  | enough => exact fun _ member => absurd member List.not_mem_nil
  | last first => exact fun _ member => absurd member List.not_mem_nil
  | passed first _ _ ih =>
    exact ih (by have further := first.1; omega)
  | refused first header _ _ ih | read _ first header _ _ ih =>
    have further := first.1
    intro s member
    rcases List.mem_cons.mp member with rfl | later
    · exact headerStart_behind (headerOf_some header).2 (by omega) barred
    · exact ih (by omega) s later

/-- Each place that is reported lies behind the one before. -/
theorem increasing (surveys : Surveys text reading place left resolve sightings) :
    (sightings.map (·.start)).Pairwise (· < ·) := by
  have on {start keyword : Nat} {later : List Sighting} {stop : Nat} {left : Option Nat} {resolve : Resolver}
      {place : Nat} (first : FirstKeyword text place (some keyword)) (header : headerOf text keyword = some start)
      (surveys : Surveys text reading stop left resolve later) (further : keyword + 3 ≤ stop) :
      ∀ other ∈ later.map (·.start), start < other := by
    intro other member
    obtain ⟨s, among, rfl⟩ := List.mem_map.mp member
    have before := (headerStart_bytes (headerOf_some header).2).1
    have behind := surveys.behind further (keyword_bars first.2.1) s among
    omega
  induction surveys with
  | enough | last => exact .nil
  | passed _ _ _ ih => exact ih
  | refused first header _ later ih => exact .cons (on first header later (Nat.le_refl _)) ih
  | read _ first header _ later ih => exact .cons (on first header later (Nat.le_max_left _ _)) ih

/-- No more objects are read than wanted. -/
theorem few (surveys : Surveys text reading place left resolve sightings) :
    ∀ most, left = some most → (sightings.filterMap success?).length ≤ most := by
  induction surveys with
  | enough | last => exact fun _ _ => Nat.zero_le _
  | passed _ _ _ ih | refused _ _ _ _ ih => exact ih
  | read more _ _ _ _ ih =>
    rintro most rfl
    have positive : most ≠ 0 := fun none => more (congrArg some none)
    have rest := ih (most - 1) rfl
    simp only [List.filterMap_cons, success?, List.length_cons]
    omega

/-- What is reported of a place is what reading there comes to, if numbers stand for what was read before. -/
theorem outcome (surveys : Surveys text reading place left resolve sightings) :
    ∀ earlier s later, sightings = earlier ++ s :: later →
      (reading s.start (resolve.after earlier)).1 = s.outcome := by
  induction surveys with
  | enough | last => exact fun _ _ _ none => absurd none (by simp)
  | passed _ _ _ ih => exact ih
  | refused _ _ ran _ ih | read _ _ _ ran _ ih =>
    intro earlier s later same
    cases earlier with
    | nil =>
      cases same
      exact ran
    | cons first earlier =>
      cases same
      rw [← Resolver.after_cons]
      exact ih earlier s later rfl

/-- Without a limit, every header is reported, unless its keyword was read in an object that is. -/
theorem complete (surveys : Surveys text reading place left resolve sightings) (unlimited : left = none)
    {other opening : Nat} (further : place ≤ other) (header : headerOf text other = some opening) :
    (∃ s ∈ sightings, s.start = opening) ∨ ReadInside reading resolve sightings opening other := by
  have occurs : objectKeyword.isPrefixOf (text.drop other) = true :=
    (Bool.and_eq_true_iff.mp (headerOf_some header).1).1
  have other_behind {place keyword : Nat} (first : FirstKeyword text place (some keyword))
      (further : place ≤ other) (differs : other ≠ keyword) : keyword + 3 ≤ other :=
    first.later further occurs differs
  induction surveys with
  | enough => cases unlimited
  | last first => exact absurd ((first other further).symm.trans occurs) (by decide)
  | passed first none _ ih =>
    refine ih unlimited (other_behind first further fun same => ?_)
    rw [← same, header] at none
    cases none
  | @refused place keyword left resolve sightings start e first found _ _ ih =>
    by_cases same : other = keyword
    · subst same
      cases found.symm.trans header
      exact .inl ⟨_, List.mem_cons_self, rfl⟩
    · exact told_cons (ih unlimited (other_behind first further same))
  | @read left place keyword start resolve indirect sightings _ first found ran _ ih =>
    by_cases same : other = keyword
    · subst same
      cases found.symm.trans header
      exact .inl ⟨_, List.mem_cons_self, rfl⟩
    · have behind := other_behind first further same
      by_cases inside : other < (reading start resolve).2
      · have before := (headerStart_bytes (headerOf_some found).2).1
        have barred := headerStart_behind (headerOf_some header).2 behind (keyword_bars first.2.1)
        exact .inr ⟨[], _, sightings, indirect, rfl, rfl, by dsimp only; omega, inside⟩
      · have reached : max (keyword + 3) (reading start resolve).2 ≤ other :=
          Nat.max_le.mpr ⟨behind, Nat.le_of_not_lt inside⟩
        exact told_cons (ih (by rw [unlimited]; rfl) reached)

end Surveys
end Lexis

namespace Reader
open Lexis (HasNumbers StartsAt ReadInside standsFree)
open CommandLine (success? failure?)

variable {document : Bytes} {r : Reader}

/-- The bytes tell what a reader of a whole document makes of each place. -/
theorem Whole.readings (whole : r.Whole document) :
    PdfObjects.readings (r.mirror document).unrecorded = PdfObjects.readings r := by
  funext start resolve
  have here (s : Reader) : Scan.position.run s = (s.position, s) := rfl
  obtain ⟨value, place⟩ := whole.resident_run (Parse.indirectAt start resolve).run
  simp only [PdfObjects.readings, Scan.position_run, here, value, place]

/-- What is found in a whole document is told by its bytes. -/
theorem Whole.surveys (whole : r.Whole document) (offset : Nat) (limit : Option Nat) :
    Lexis.Surveys (document.drop r.origin) (PdfObjects.readings r) (min offset (document.drop r.origin).length)
      limit Resolver.empty ((Scan.objects offset limit).run r).1 := by
  have stands : ((r.mirror document).unrecorded.seek offset).Stands
      ((document.drop r.origin).drop (min offset (document.drop r.origin).length)) :=
    ⟨⟨rfl, rfl⟩, Nat.min_le_right _ _⟩
  obtain ⟨all, found, surveys⟩ := Scan.objectsFrom_surveys _ { left := limit } stands (Nat.le_refl _)
  have ran : (Scan.objects offset limit).run (r.mirror document).unrecorded =
      (Scan.objectsFrom ((document.drop r.origin).drop (min offset (document.drop r.origin).length)).length
        limit {} []).run ((r.mirror document).unrecorded.seek offset) := by
    rw [Scan.objects, Scan.run_bind]
    change (Scan.remaining >>= fun fuel => Scan.objectsFrom fuel limit {} []).run
      ((r.mirror document).unrecorded.seek offset) = _
    rw [Scan.run_bind, Scan.remaining_run stands.toHasAhead]
  have same : PdfObjects.readings ((r.mirror document).unrecorded.seek offset) = PdfObjects.readings r :=
    (Resident.reading_eq rfl rfl).trans whole.readings
  rw [same] at surveys
  rw [← (whole.resident_run (Scan.objects offset limit)).1, ran, found]
  exact surveys

/-- Lookalikes of headers in a string and in an array, a stream whose length is another object, a dictionary
without an end, and headers whose numbers or keywords are glued to something. -/
def lookalikesText : Bytes :=
  Bytes.ofAscii " 7 0 obj[(8 0 obj)9 0 R 1 0 obj]4 0 obj 14 6 0 obj<</Length 4 0 R>>stream\n".toList ++
    Bytes.ofAscii "ab endstream c\nendstream 2 0 obj<< 3 0obj x5 0 obj/N 7 obj".toList

/-- A reader of that text behind a keyword that is not part of it. -/
def lookalikesReader : Reader :=
  ofGate { source := .stream (Bytes.ofAscii ['o', 'b', 'j'] ++ lookalikesText).toArray 0 } 3
    (CommandLine.options (.objects 1 none))

end Reader
end PdfObjects
