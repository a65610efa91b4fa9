import PdfObjects.Lines

/-! Marker lines, found byte by byte and line by line. Inside a line the state of the search tells whether
the line so far could go on to a marker; at its terminator the search starts anew. So what it finds in a
text is what it finds in the first line and in the text behind that. -/
namespace PdfObjects.Lexis

variable {text line ending after : Bytes} {state : Option Marker} {position : Nat}

/-- The state of the search behind some bytes of a line. -/
def lineState : Option Marker → Bytes → Option Marker
  | state, [] => state
  | none, b :: rest => lineState (if b = Byte.percent then some .percents else none) rest
  | some marker, b :: rest => lineState (some (marker.step b)) rest

/-- Whether a line is a marker if it ends here. -/
def isMarkerState (state : Option Marker) : Bool := state.any Marker.isComplete

theorem lineState_other (line : Bytes) : lineState (some .other) line = some .other := by
  induction line with
  | nil => rfl
  | cons b rest ih => exact ih

theorem lineState_letters (missing line : Bytes) :
    isMarkerState (lineState (some (.letters missing)) line) = true ↔ line = missing := by
  induction line generalizing missing with
  | nil => cases missing <;> simp [lineState, isMarkerState, Marker.isComplete]
  | cons b rest ih =>
    cases missing with
    | nil => simp [lineState, Marker.step, lineState_other, isMarkerState, Marker.isComplete]
    | cons c missing =>
      by_cases same : b = c
      · simp [lineState, Marker.step, same, ih]
      · simp [lineState, Marker.step, same, lineState_other, isMarkerState, Marker.isComplete]

theorem lineState_percents (line : Bytes) :
    isMarkerState (lineState (some .percents) line) = true ↔
      ∃ more, line = List.replicate more Byte.percent ++ markerLetters := by
  induction line with
  | nil =>
    constructor
    · intro found
      cases found
    · rintro ⟨more, same⟩
      cases more <;> cases same
  | cons b rest ih =>
    by_cases letter : b = 'E'.toUInt8
    · subst letter
      have found := lineState_letters Marker.laterLetters rest
      refine Iff.trans found ⟨?_, ?_⟩
      · rintro rfl
        exact ⟨0, rfl⟩
      · rintro ⟨more, same⟩
        cases more with
        | zero => exact (List.cons.inj same).2
        | succ more => cases (List.cons.inj same).1
    · by_cases percent : b = Byte.percent
      · subst percent
        refine Iff.trans ih ⟨?_, ?_⟩
        · rintro ⟨more, rfl⟩
          exact ⟨more + 1, rfl⟩
        · rintro ⟨more, same⟩
          cases more with
          | zero => cases (List.cons.inj same).1
          | succ more => exact ⟨more, (List.cons.inj same).2⟩
      · have lost : lineState (some .percents) (b :: rest) = some .other := by
          simp [lineState, Marker.step, letter, percent, lineState_other]
        rw [lost]
        constructor
        · intro found
          cases found
        · rintro ⟨more, same⟩
          cases more with
          | zero => exact absurd (List.cons.inj same).1 letter
          | succ more => exact absurd (List.cons.inj same).1 percent

/-- The search over a line tells whether it is a marker. -/
theorem lineState_none (line : Bytes) : isMarkerState (lineState none line) = true ↔ IsMarker line := by
  induction line with
  | nil =>
    constructor
    · intro found
      cases found
    · rintro ⟨start, more, _, same⟩
      have length := congrArg List.length same
      simp only [List.length_nil, List.length_append, List.length_replicate] at length
      omega
  | cons b rest ih =>
    by_cases percent : b = Byte.percent
    · subst percent
      refine Iff.trans (lineState_percents rest) ⟨?_, ?_⟩
      · rintro ⟨more, rfl⟩
        exact ⟨[], more, List.not_mem_nil, rfl⟩
      · rintro ⟨start, more, clean, same⟩
        cases start with
        | nil => exact ⟨more, (List.cons.inj same).2⟩
        | cons c start => exact absurd ((List.cons.inj same).1 ▸ List.mem_cons_self) clean
    · have passed : lineState none (b :: rest) = lineState none rest := by
        simp [lineState, percent]
      rw [passed, ih]
      constructor
      · rintro ⟨start, more, clean, rfl⟩
        exact ⟨b :: start, more, List.not_mem_cons_of_ne_of_not_mem (Ne.symm percent) clean, rfl⟩
      · rintro ⟨start, more, clean, same⟩
        cases start with
        | nil => exact absurd (List.cons.inj same).1 percent
        | cons c start =>
          exact ⟨start, more, fun member => clean (List.mem_cons_of_mem c member),
            (List.cons.inj same).2⟩

theorem Terminates.length_pos (ends : Terminates ending after) : 0 < ending.length := by
  cases ends <;> decide

theorem Unbroken.cons {b : UInt8} (inner : Byte.isLineEnding b = false) (unbroken : Unbroken text) :
    Unbroken (b :: text) := List.forall_mem_cons.mpr ⟨inner, unbroken⟩

theorem Unbroken.tail {b : UInt8} (unbroken : Unbroken (b :: text)) :
    Byte.isLineEnding b = false ∧ Unbroken text := List.forall_mem_cons.mp unbroken

/-- A line ending starts a terminator. -/
theorem terminates_start {b : UInt8} {rest : Bytes} (ending : Byte.isLineEnding b = true) :
    ∃ terminator after, b :: rest = terminator ++ after ∧ Terminates terminator after := by
  simp only [Byte.isLineEnding, Bool.or_eq_true, beq_iff_eq] at ending
  rcases ending with rfl | rfl
  · by_cases paired : rest.head? = some Byte.lineFeed
    · obtain ⟨after, rfl⟩ := List.head?_eq_some_iff.mp paired
      exact ⟨_, after, rfl, .pair after⟩
    · exact ⟨_, rest, rfl, .lone paired⟩
  · exact ⟨_, rest, rfl, .feed rest⟩

/-- A text is unbroken, or starts with a closed line. -/
theorem unbroken_or_closed (text : Bytes) : Unbroken text ∨ ∃ line ending after,
    text = line ++ ending ++ after ∧ Unbroken line ∧ Terminates ending after := by
  induction text with
  | nil => exact .inl nofun
  | cons b rest ih =>
    cases ending : Byte.isLineEnding b with
    | true =>
      obtain ⟨terminator, after, same, ends⟩ := @terminates_start b rest ending
      exact .inr ⟨[], terminator, after, same, nofun, ends⟩
    | false =>
      rcases ih with unbroken | ⟨line, terminator, after, rfl, unbroken, ends⟩
      · exact .inl (unbroken.cons ending)
      · exact .inr ⟨b :: line, terminator, after, rfl, unbroken.cons ending, ends⟩

/-- What holds of unbroken texts, and in front of a text for which it holds, holds of all texts. -/
theorem lines_induction {P : Bytes → Prop} (unbroken : ∀ text, Unbroken text → P text)
    (closed : ∀ line ending after, Unbroken line → Terminates ending after → P after →
      P (line ++ ending ++ after)) (text : Bytes) : P text := by
  induction length : text.length using Nat.strongRecOn generalizing text with
  | ind n ih =>
    rcases unbroken_or_closed text with whole | ⟨line, ending, after, rfl, inner, ends⟩
    · exact unbroken text whole
    · have positive := ends.length_pos
      simp only [List.length_append] at length
      exact closed line ending after inner ends (ih after.length (by omega) after rfl)

/-- Nothing is found where no line is closed. -/
theorem trailerEnds_unbroken (unbroken : Unbroken text) : trailerEnds state position text = [] := by
  induction text generalizing state position with
  | nil => cases state <;> rfl
  | cons b rest ih =>
    obtain ⟨inner, later⟩ := unbroken.tail
    cases state with
    | none => exact ih later
    | some marker =>
      simp only [trailerEnds, inner, Bool.false_eq_true, ↓reduceIte]
      exact ih later

/-- At a terminator the state tells what is found, and the search starts anew. -/
theorem trailerEnds_terminator (ends : Terminates ending after) :
    trailerEnds state position (ending ++ after) =
      (if isMarkerState state then [position + ending.length] else []) ++
        trailerEnds none (position + ending.length) after := by
  have feed : Byte.isLineEnding Byte.lineFeed = true := rfl
  have back : Byte.isLineEnding Byte.carriageReturn = true := rfl
  have blank : ¬ Byte.lineFeed = Byte.percent := by decide
  have other : ¬ Byte.lineFeed = Byte.carriageReturn := by decide
  cases state with
  | none => cases ends <;> rfl
  | some marker =>
    have same : isMarkerState (some marker) = marker.isComplete := rfl
    rw [same]
    by_cases complete : marker.isComplete = true
    · cases ends with
      | pair => simp [trailerEnds, back, blank, complete]
      | feed => simp [trailerEnds, feed, other, complete]
      | lone alone => simp [trailerEnds, back, alone, complete]
    · cases ends with
      | pair => simp [trailerEnds, back, blank, complete]
      | feed => simp [trailerEnds, feed, complete]
      | lone alone => simp [trailerEnds, back, complete]

/-- What is found in a text is found in its first line, or behind it. -/
theorem trailerEnds_line (unbroken : Unbroken line) (ends : Terminates ending after) :
    trailerEnds state position (line ++ ending ++ after) =
      (if isMarkerState (lineState state line) then [position + (line.length + ending.length)] else []) ++
        trailerEnds none (position + (line.length + ending.length)) after := by
  induction line generalizing state position with
  | nil =>
    simp only [List.nil_append, List.length_nil, Nat.zero_add]
    cases state <;> exact trailerEnds_terminator ends
  | cons b rest ih =>
    obtain ⟨inner, later⟩ := unbroken.tail
    have moved (state : Option Marker) := @ih state (position + 1) later
    have place : position + 1 + (rest.length + ending.length) =
        position + ((b :: rest).length + ending.length) := by
      simp only [List.length_cons]
      omega
    rw [place] at moved
    cases state with
    | none => exact moved _
    | some marker =>
      simp only [List.cons_append, trailerEnds, inner, Bool.false_eq_true, ↓reduceIte]
      exact moved _

theorem terminates_unique {ending' after' : Bytes} (ends : Terminates ending after)
    (ends' : Terminates ending' after') (same : ending ++ after = ending' ++ after') :
    ending = ending' ∧ after = after' := by
  have other : ¬ Byte.lineFeed = Byte.carriageReturn := by decide
  cases ends with
  | pair =>
    cases ends' with
    | pair => exact ⟨rfl, (List.cons.inj (List.cons.inj same).2).2⟩
    | feed => exact absurd (List.cons.inj same).1.symm other
    | lone alone => exact absurd (congrArg List.head? (List.cons.inj same).2).symm alone
  | feed =>
    cases ends' with
    | pair => exact absurd (List.cons.inj same).1 other
    | feed => exact ⟨rfl, (List.cons.inj same).2⟩
    | lone => exact absurd (List.cons.inj same).1 other
  | lone alone =>
    cases ends' with
    | pair => exact absurd (congrArg List.head? (List.cons.inj same).2) alone
    | feed => exact absurd (List.cons.inj same).1.symm other
    | lone => exact ⟨rfl, (List.cons.inj same).2⟩

/-- A text is cut in one way only: behind its first terminator. -/
theorem closedLine_unique {line' ending' after' : Bytes} (unbroken : Unbroken line)
    (ends : Terminates ending after) (unbroken' : Unbroken line') (ends' : Terminates ending' after')
    (same : line ++ ending ++ after = line' ++ ending' ++ after') :
    line = line' ∧ ending = ending' ∧ after = after' := by
  induction line generalizing line' with
  | nil =>
    cases line' with
    | nil => exact ⟨rfl, terminates_unique ends ends' same⟩
    | cons c line' =>
      obtain ⟨inner, _⟩ := unbroken'.tail
      cases ends <;> cases (List.cons.inj same).1 <;> cases inner
  | cons b line ih =>
    cases line' with
    | nil =>
      obtain ⟨inner, _⟩ := unbroken.tail
      cases ends' <;> cases (List.cons.inj same).1 <;> cases inner
    | cons c line' =>
      obtain ⟨rfl, rest⟩ := List.cons.inj same
      obtain ⟨rfl, sameEnding, sameAfter⟩ := ih unbroken.tail.2 unbroken'.tail.2 rest
      exact ⟨rfl, sameEnding, sameAfter⟩

/-- An unbroken text has no closed line. -/
theorem not_closedLine {stop : Nat} (unbroken : Unbroken text) : ¬ ClosedLine text line stop := by
  have broken {line ending after : Bytes} (ends : Terminates ending after)
      (unbroken : Unbroken (line ++ ending ++ after)) : False := by
    cases ends <;> cases unbroken _ (List.mem_append_left _ (List.mem_append_right _ List.mem_cons_self))
  intro closed
  cases closed with
  | first _ ends => exact broken ends unbroken
  | later _ ends _ => exact broken ends unbroken

/-- The closed lines of a text are its first line and those behind it. -/
theorem closedLine_cases {other : Bytes} {stop : Nat} (unbroken : Unbroken line)
    (ends : Terminates ending after) : ClosedLine (line ++ ending ++ after) other stop ↔
      (other = line ∧ stop = line.length + ending.length) ∨
        ∃ behind, ClosedLine after other behind ∧ stop = line.length + ending.length + behind := by
  constructor
  · intro closed
    generalize whole : line ++ ending ++ after = text at closed
    cases closed with
    | first unbroken' ends' =>
      obtain ⟨rfl, rfl, rfl⟩ := closedLine_unique unbroken ends unbroken' ends' whole
      exact .inl ⟨rfl, rfl⟩
    | later unbroken' ends' closed =>
      obtain ⟨rfl, rfl, rfl⟩ := closedLine_unique unbroken ends unbroken' ends' whole
      exact .inr ⟨_, closed, rfl⟩
  · rintro (⟨rfl, rfl⟩ | ⟨behind, closed, rfl⟩)
    · exact .first unbroken ends
    · exact .later unbroken ends closed

/-- The search finds the ends of the marker lines, and of nothing else. -/
theorem mem_trailerEnds (text : Bytes) (position stop : Nat) :
    stop ∈ trailerEnds none position text ↔
      ∃ line behind, ClosedLine text line behind ∧ IsMarker line ∧ stop = position + behind := by
  induction text using lines_induction generalizing position with
  | unbroken text unbroken =>
    rw [trailerEnds_unbroken unbroken]
    constructor
    · intro found
      cases found
    · rintro ⟨line, behind, closed, _⟩
      exact absurd closed (not_closedLine unbroken)
  | closed line ending after unbroken ends ih =>
    have first : stop ∈ (if isMarkerState (lineState none line) then
        [position + (line.length + ending.length)] else []) ↔
        IsMarker line ∧ stop = position + (line.length + ending.length) := by
      rw [← lineState_none]
      cases isMarkerState (lineState none line) <;> simp
    rw [trailerEnds_line unbroken ends, List.mem_append, first, ih]
    simp only [closedLine_cases unbroken ends]
    constructor
    · rintro (⟨marker, place⟩ | ⟨other, behind, closed, marker, place⟩)
      · exact ⟨line, _, .inl ⟨rfl, rfl⟩, marker, place⟩
      · exact ⟨other, _, .inr ⟨behind, closed, rfl⟩, marker, by omega⟩
    · rintro ⟨other, _, ⟨rfl, rfl⟩ | ⟨behind, closed, rfl⟩, marker, place⟩
      · exact .inl ⟨marker, place⟩
      · exact .inr ⟨other, behind, closed, marker, by omega⟩

theorem closedLine_pos {stop : Nat} (closed : ClosedLine text line stop) : 0 < stop := by
  cases closed with
  | first _ ends => exact Nat.lt_of_lt_of_le ends.length_pos (Nat.le_add_left _ _)
  | later _ ends _ =>
    have positive := ends.length_pos
    omega

/-- They are found in order, and each of them once. -/
theorem trailerEnds_increasing (text : Bytes) (position : Nat) :
    (trailerEnds none position text).Pairwise (· < ·) := by
  induction text using lines_induction generalizing position with
  | unbroken text unbroken =>
    rw [trailerEnds_unbroken unbroken]
    exact .nil
  | closed line ending after unbroken ends ih =>
    rw [trailerEnds_line unbroken ends, List.pairwise_append]
    refine ⟨?_, ih _, ?_⟩
    · cases isMarkerState (lineState none line) <;> simp
    · intro first foundFirst later foundLater
      obtain ⟨_, behind, closed, _, rfl⟩ := (mem_trailerEnds after _ later).mp foundLater
      have positive := closedLine_pos closed
      have place : first = position + (line.length + ending.length) := by
        revert foundFirst
        cases isMarkerState (lineState none line) <;> simp
      omega

end PdfObjects.Lexis
