import PdfObjects.Proofs.Recovery

/-! Gaps, line endings and keywords, told from the bytes. What is skipped in front of a word consists of
blanks and closed comments and of nothing else, and a line ending is skipped like any other blank. So a
keyword starts the next word exactly if there is such a gap in front of it. A line is closed by all of the
line ending behind it, and so much of it is left out in front of a keyword. -/
namespace PdfObjects.Lexis

variable {text gap keyword before opening content ending rest after : Bytes} {limit stop : Nat} {b x : UInt8}

/-- What is skipped in front of a word consists of blanks and closed comments. -/
theorem isGap_skipped (comment : Bool) (text : Bytes) (further : skipped comment text < text.length) :
    isGap comment (text.take (skipped comment text)) = true := by
  induction text generalizing comment with
  | nil => exact absurd further (Nat.not_lt_zero _)
  | cons b rest ih =>
    have later {comment : Bool} (more : skipped comment rest + 1 < (b :: rest).length) :=
      ih comment (Nat.lt_of_succ_lt_succ more)
    cases comment with
    | true => exact later further
    | false =>
      by_cases blank : Byte.isWhitespace b = true
      · simp only [skipped, blank, ↓reduceIte] at further ⊢
        simpa [isGap, blank] using later further
      · by_cases percent : b = Byte.percent
        · subst percent
          simp only [skipped, blank, Bool.false_eq_true, ↓reduceIte] at further ⊢
          simpa [isGap, blank] using later further
        · simp [skipped, blank, percent, isGap]

/-- A gap is blank where no comment starts in it. -/
theorem blank_iff (closed : isGap false gap = true) :
    gap.all Byte.isWhitespace = true ↔ Byte.percent ∉ gap := by
  constructor
  · intro blank member
    exact absurd (List.all_eq_true.mp blank _ member) (by decide)
  · intro clean
    induction gap with
    | nil => rfl
    | cons b gap ih =>
      have other : b ≠ Byte.percent := fun same => clean (same ▸ List.mem_cons_self)
      by_cases blank : Byte.isWhitespace b = true
      · simp only [isGap, blank, ↓reduceIte] at closed
        simp only [List.all_cons, blank, Bool.true_and]
        exact ih closed fun member => clean (List.mem_cons_of_mem b member)
      · simp [isGap, blank, other] at closed

theorem endingLength_le (text : Bytes) : endingLength text ≤ text.length := by
  unfold endingLength
  split
  · split
    · split
      · rename_i pair
        obtain ⟨later, rfl⟩ := List.head?_eq_some_iff.mp pair
        simp
      · simp
    · split <;> simp
  · simp

/-- A line ending is skipped like any other blank. -/
theorem skipped_ending (text : Bytes) :
    skipped false text = endingLength text + skipped false (text.drop (endingLength text)) := by
  have other : Byte.lineFeed ≠ Byte.carriageReturn := by decide
  have blank : Byte.isWhitespace Byte.carriageReturn = true := rfl
  have feeds : Byte.isWhitespace Byte.lineFeed = true := rfl
  cases text with
  | nil => rfl
  | cons b rest =>
    by_cases back : b = Byte.carriageReturn
    · subst back
      cases rest with
      | nil => rfl
      | cons c rest =>
        by_cases feed : c = Byte.lineFeed
        · subst feed
          simp only [endingLength, skipped, blank, feeds, List.head?_cons, ↓reduceIte, List.drop_succ_cons,
            List.drop_zero]
          omega
        · simp [endingLength, feed, skipped, blank, Nat.add_comm]
    · by_cases feed : b = Byte.lineFeed
      · subst feed
        simp [endingLength, skipped, feeds, other, Nat.add_comm]
      · simp [endingLength, back, feed]

/-- So the word behind it is the next word anyway. -/
theorem word_ending (limit : Nat) (text : Bytes) :
    word limit (text.drop (endingLength text)) = word limit text ∧
      endingLength text + reach (text.drop (endingLength text)) = reach text := by
  have place := skipped_ending text
  have same : (text.drop (endingLength text)).drop (skipped false (text.drop (endingLength text))) =
      text.drop (skipped false text) := by rw [List.drop_drop, ← place]
  simp only [word, reach, same]
  exact ⟨trivial, by omega⟩

theorem Solid.starts (solid : Solid keyword) (rest : Bytes) : skipped false (keyword ++ rest) = 0 := by
  obtain ⟨b, letters, rfl⟩ := List.exists_cons_of_ne_nil solid.nonempty
  obtain ⟨_, blank, comment⟩ := inner_class (List.all_eq_true.mp solid.inner b List.mem_cons_self)
  exact skipped_start blank comment _

/-- A keyword goes on with what is glued to it. -/
theorem Solid.lexeme (solid : Solid keyword) (rest : Bytes) :
    lexeme (keyword ++ rest) = keyword ++ rest.takeWhile isInner := by
  obtain ⟨b, letters, rfl⟩ := List.exists_cons_of_ne_nil solid.nonempty
  have inner := List.all_eq_true.mp solid.inner
  have delimiter := (inner_class (inner b List.mem_cons_self)).1
  simp only [List.cons_append, Lexis.lexeme, delimiter, Bool.not_false, Bool.or_true, ↓reduceIte]
  rw [List.takeWhile_append_of_pos fun c member => inner c (List.mem_cons_of_mem b member)]

/-- Behind a gap it is the next word. -/
theorem Solid.behind_gap (solid : Solid keyword) (closed : isGap false gap = true) (rest : Bytes) :
    skipped false (gap ++ (keyword ++ rest)) = gap.length := by
  rw [skipped_isGap closed, solid.starts, Nat.add_zero]

theorem Solid.reach_eq (solid : Solid keyword) (closed : isGap false gap = true) (rest : Bytes) :
    reach (gap ++ (keyword ++ rest)) = (gap ++ Lexis.lexeme (keyword ++ rest)).length := by
  rw [reach, solid.behind_gap closed, List.drop_left, List.length_append]

/-- A word that is a keyword as it stands goes on with nothing. -/
theorem Solid.lexeme_eq (solid : Solid keyword) (same : Lexis.lexeme text = keyword) :
    ∃ rest, Ends rest ∧ text = keyword ++ rest := by
  have split := List.take_append_drop (Lexis.lexeme text).length text
  rw [lexeme_take, same] at split
  have whole := solid.lexeme (text.drop keyword.length)
  rw [split, same] at whole
  have none := List.self_eq_append_right.mp whole
  refine ⟨text.drop keyword.length, fun b next => ?_, split.symm⟩
  obtain ⟨rest, here⟩ := List.head?_eq_some_iff.mp next
  rw [here, List.takeWhile_cons] at none
  by_contra inner
  rw [Bool.not_eq_false] at inner
  rw [if_pos inner] at none
  cases none

/-- A word that is kept in full tells what it is. -/
theorem word_bytes_iff (short : keyword.length < limit) : (word limit text).bytes = keyword ↔
    lexeme (text.drop (skipped false text)) = keyword := by
  simp only [word, Word.ofLexeme]
  constructor
  · intro same
    have length := congrArg List.length same
    rw [List.length_take] at length
    rwa [List.take_of_length_le (by omega)] at same
  · intro same
    rw [same, List.take_of_length_le (Nat.le_of_lt short)]

/-- A keyword starts the next word if there is nothing but a gap in front of it. -/
theorem word_starts_iff (solid : Solid keyword) (short : keyword.length ≤ limit) :
    keyword.isPrefixOf (word limit text).bytes = true ↔
      ∃ gap rest, isGap false gap = true ∧ text = gap ++ (keyword ++ rest) := by
  constructor
  · intro starts
    have ahead : keyword <+: text.drop (skipped false text) := by
      refine (List.isPrefixOf_iff_prefix.mp starts).trans ((List.take_prefix limit _).trans ?_)
      rw [← lexeme_take]
      exact List.take_prefix _ _
    obtain ⟨rest, behind⟩ := ahead
    refine ⟨text.take (skipped false text), rest, isGap_skipped false text ?_, ?_⟩
    · by_contra outside
      rw [List.drop_of_length_le (Nat.le_of_not_lt outside)] at behind
      exact solid.nonempty (List.append_eq_nil_iff.mp behind).1
    · rw [behind, List.take_append_drop]
  · rintro ⟨gap, rest, closed, rfl⟩
    rw [word, solid.behind_gap closed, List.drop_left, solid.lexeme, Word.ofLexeme, List.isPrefixOf_iff_prefix,
      List.prefix_take_iff]
    exact ⟨List.prefix_append _ _, short⟩

/-- A line ending in front of a place is stepped over, however much of it there is. -/
theorem endBefore_lt (same : text.drop (stop - 1) = x :: b :: rest) (positive : 1 ≤ stop)
    (line : Byte.isLineEnding x = true) (plain : Byte.isLineEnding b = false) :
    endBefore text stop < stop := by
  have one : endingLength (text.drop (stop - 1)) = 1 := by
    rw [same]
    have kind : [x] ∈ lineEndings := by
      simp only [Byte.isLineEnding, Bool.or_eq_true, beq_iff_eq] at line
      rcases line with rfl | rfl <;> decide
    exact endingLength_append (.inr kind) plain rest
  unfold endBefore
  rw [if_pos (And.intro positive one)]
  split <;> omega

/-- A text ends in one line ending, or in none. -/
theorem split_ending (text : Bytes) : ∃ content ending, text = content ++ ending ∧
    (ending = [] ∨ ending ∈ lineEndings) ∧
    (ending = [] → ∀ b, content.getLast? = some b → Byte.isLineEnding b = false) ∧
    (ending = [Byte.lineFeed] → content.getLast? ≠ some Byte.carriageReturn) := by
  rcases List.eq_nil_or_concat text with rfl | ⟨front, b, rfl⟩
  · exact ⟨[], [], rfl, .inl rfl, nofun, nofun⟩
  · by_cases feed : b = Byte.lineFeed
    · subst feed
      rcases List.eq_nil_or_concat front with rfl | ⟨front, c, rfl⟩
      · exact ⟨[], [Byte.lineFeed], rfl, .inr (by decide), nofun, nofun⟩
      · by_cases back : c = Byte.carriageReturn
        · subst back
          exact ⟨front, [Byte.carriageReturn, Byte.lineFeed], by simp, .inr (by decide), nofun, nofun⟩
        · refine ⟨front ++ [c], [Byte.lineFeed], by simp, .inr (by decide), nofun, fun _ => ?_⟩
          simpa using back
    · by_cases back : b = Byte.carriageReturn
      · subst back
        exact ⟨front, [Byte.carriageReturn], by simp, .inr (by decide), nofun, nofun⟩
      · refine ⟨front ++ [b], [], by simp, .inl rfl, fun _ c same => ?_, nofun⟩
        simp only [List.getLast?_append, List.getLast?_singleton, Option.some_or, Option.some.injEq] at same
        simp [← same, Byte.isLineEnding, feed, back]

/-- How many bytes the first line of a text has, with what ends it. -/
def lineLength : Bytes → Nat
  | [] => 0
  | b :: rest => if Byte.isLineEnding b then endingLength (b :: rest) else lineLength rest + 1

theorem lineLength_le (text : Bytes) : lineLength text ≤ text.length := by
  induction text with
  | nil => exact Nat.le_refl _
  | cons b rest ih =>
    simp only [lineLength]
    split
    · exact endingLength_le _
    · exact Nat.succ_le_succ ih

/-- A line that is closed ends with a line ending, and that is whole. -/
theorem lineLength_closed (text : Bytes) (further : text.drop (lineLength text) ≠ []) :
    ∃ line opening, text.take (lineLength text) = line ++ opening ∧
      Terminates opening (text.drop (lineLength text)) := by
  induction text with
  | nil => exact absurd rfl further
  | cons b rest ih =>
    by_cases ending : Byte.isLineEnding b = true
    · obtain ⟨opening, after, same, ends⟩ := @terminates_start b rest ending
      have length : endingLength (b :: rest) = opening.length := by
        cases ends with
        | pair | feed => cases same; rfl
        | lone alone =>
          cases same
          simp [endingLength, alone]
      simp only [lineLength, ending, ↓reduceIte]
      rw [length, same, List.take_left, List.drop_left]
      exact ⟨[], opening, rfl, ends⟩
    · simp only [lineLength, ending, Bool.false_eq_true, ↓reduceIte, List.drop_succ_cons,
        List.take_succ_cons] at further ⊢
      obtain ⟨line, opening, same, ends⟩ := ih further
      exact ⟨b :: line, opening, by rw [same, List.cons_append], ends⟩

end PdfObjects.Lexis
