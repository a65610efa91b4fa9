import PdfObjects.Proofs.Listing

/-! Headers, from their keyword backwards. The keyword of an object stands behind two numbers with blanks
behind them; where the first of them starts is told by the bytes in front of the keyword alone. The way back
never crosses a keyword, so headers of different keywords do not overlap. -/
namespace PdfObjects

namespace Lexis

/-- Whether all bytes of a text from one place up to another belong to a class. -/
def AllBetween (member : UInt8 → Bool) (text : Bytes) (first stop : Nat) : Prop :=
  ∀ place, first ≤ place → place < stop → (text[place]?).any member = true

/-- Whether the byte in front of a place, if there is one, is not of a class. -/
def StartsAt (member : UInt8 → Bool) (text : Bytes) (place : Nat) : Prop :=
  ∀ earlier, place = earlier + 1 → (text[earlier]?).any member = false

/-- The least place from which on all bytes up to the given one belong to a class. -/
def runStart (member : UInt8 → Bool) (text : Bytes) : Nat → Nat
  | 0 => 0
  | place + 1 => if (text[place]?).any member then runStart member text place else place + 1

/-- Where the number in front of a place starts, and blanks between it and the place. -/
def numberStart (text : Bytes) (place : Nat) : Option Nat :=
  let stop := runStart Byte.isWhitespace text place
  let start := runStart Byte.isDigit text stop
  if start = stop then none else some start

/-- Where the header starts whose keyword is at a place. -/
def headerStart (text : Bytes) (keyword : Nat) : Option Nat :=
  (numberStart text keyword).bind (numberStart text)

/-- Between two places a text has two numbers, each of them with blanks behind it. -/
def HasNumbers (text : Bytes) (start stop : Nat) : Prop :=
  ∃ first second third, start < first ∧ first < second ∧ second < third ∧ third < stop ∧
    AllBetween Byte.isDigit text start first ∧ AllBetween Byte.isWhitespace text first second ∧
    AllBetween Byte.isDigit text second third ∧ AllBetween Byte.isWhitespace text third stop

/-- Whether a word stands at a place in a text, and its neighbours are not glued to it. -/
def standsFree (word text : Bytes) (place : Nat) : Bool :=
  word.isPrefixOf (text.drop place) &&
    ((place == 0 || !(text[place - 1]?).any (Scan.isGlue false)) &&
      !(text[place + word.length]?).any (Scan.isGlue false))

variable {member : UInt8 → Bool} {text : Bytes} {start place stop keyword : Nat}

theorem runStart_le (member : UInt8 → Bool) (text : Bytes) (place : Nat) :
    runStart member text place ≤ place := by
  induction place with
  | zero => exact Nat.le_refl 0
  | succ place ih =>
    unfold runStart
    split
    · exact Nat.le_succ_of_le ih
    · exact Nat.le_refl _

theorem runStart_between (member : UInt8 → Bool) (text : Bytes) (place : Nat) :
    AllBetween member text (runStart member text place) place := by
  induction place with
  | zero => exact fun _ _ before => absurd before (Nat.not_lt_zero _)
  | succ place ih =>
    intro here behind before
    unfold runStart at behind
    split at behind
    · rename_i last
      rcases Nat.lt_succ_iff_lt_or_eq.mp before with earlier | rfl
      · exact ih here behind earlier
      · exact last
    · exact absurd before (Nat.not_lt_of_le behind)

/-- A run that cannot be extended is the whole run. -/
theorem runStart_eq (between : AllBetween member text start place) (starts : StartsAt member text start)
    (inside : start ≤ place) : runStart member text place = start := by
  induction place with
  | zero => exact (Nat.le_zero.mp inside).symm
  | succ place ih =>
    unfold runStart
    rcases Nat.lt_or_eq_of_le inside with before | last
    · have within : start ≤ place := Nat.le_of_lt_succ before
      rw [if_pos (between place within (Nat.lt_succ_self place))]
      exact ih (fun here behind ahead => between here behind (Nat.lt_succ_of_lt ahead)) within
    · rw [if_neg (Bool.eq_false_iff.mp (starts place last)), last]

theorem runStart_starts (member : UInt8 → Bool) (text : Bytes) (place : Nat) :
    StartsAt member text (runStart member text place) := by
  induction place with
  | zero =>
    intro earlier same
    cases same
  | succ place ih =>
    unfold runStart
    split
    · exact ih
    · rename_i last
      intro earlier same
      cases same
      exact Bool.eq_false_iff.mpr last

/-- A part of a run leads back to where the run starts. -/
theorem runStart_within (between : AllBetween member text start place) (inside : start ≤ place) :
    runStart member text place = runStart member text start := by
  refine runStart_eq (fun here behind before => ?_) (runStart_starts member text start)
    (Nat.le_trans (runStart_le member text start) inside)
  rcases Nat.lt_or_ge here start with earlier | later
  · exact runStart_between member text start here behind earlier
  · exact between here later before

/-- No byte is both a digit and a blank. -/
theorem digit_black {b : UInt8} (digit : Byte.isDigit b = true) : Byte.isWhitespace b = false :=
  (inner_class (Bytes.digit_inner b digit).1).2.1

/-- Behind a run of bytes none of which belongs to a class, a run of that class may start. -/
theorem AllBetween.startsAt {other : UInt8 → Bool} (between : AllBetween member text start place)
    (some : start < place) (apart : ∀ b, member b = true → other b = false) :
    StartsAt other text place := by
  rintro earlier rfl
  have last := between earlier (Nat.le_of_lt_succ some) (Nat.lt_succ_self earlier)
  cases found : text[earlier]? with
  | none => rfl
  | some b =>
    rw [found] at last
    exact apart b last

/-- The way back from behind a number and blanks ends at the start of the number. -/
theorem numberStart_eq {first : Nat} (digits : AllBetween Byte.isDigit text start first) (some : start < first)
    (blanks : AllBetween Byte.isWhitespace text first place) (behind : first ≤ place) :
    numberStart text place = .some (runStart Byte.isDigit text start) := by
  have black : StartsAt Byte.isWhitespace text first := digits.startsAt some fun _ => digit_black
  have back : runStart Byte.isWhitespace text place = first := runStart_eq blanks black behind
  have whole := runStart_within digits (Nat.le_of_lt some)
  have less := runStart_le Byte.isDigit text start
  have differs : runStart Byte.isDigit text start ≠ first := by omega
  simp only [numberStart, back, whole, if_neg differs]

/-- A place where a run starts is where it leads back to. -/
theorem StartsAt.runStart_eq (starts : StartsAt member text place) : runStart member text place = place :=
  Lexis.runStart_eq (fun _ behind before => absurd before (Nat.not_lt_of_le behind)) starts (Nat.le_refl _)

/-- The header in front of a place that follows two numbers starts with all digits of the first one. -/
theorem HasNumbers.headerStart (numbers : HasNumbers text start keyword) :
    headerStart text keyword = some (runStart Byte.isDigit text start) := by
  obtain ⟨first, second, third, some, more, many, last, number, blanks, generation, spaces⟩ := numbers
  have apart : StartsAt Byte.isDigit text second := by
    refine blanks.startsAt more fun b blank => Bool.eq_false_iff.mpr fun digit => ?_
    rw [digit_black digit] at blank
    cases blank
  have behind := numberStart_eq generation many spaces (Nat.le_of_lt last)
  have before := numberStart_eq number some blanks (Nat.le_of_lt more)
  rw [Lexis.headerStart, behind, apart.runStart_eq, Option.bind_some, before]

theorem HasNumbers.headerStart_eq (numbers : HasNumbers text start keyword)
    (starts : StartsAt Byte.isDigit text start) : Lexis.headerStart text keyword = some start := by
  rw [numbers.headerStart, starts.runStart_eq]

/-- More digits in front belong to the first number. -/
theorem HasNumbers.extend (numbers : HasNumbers text start keyword) :
    HasNumbers text (runStart Byte.isDigit text start) keyword := by
  obtain ⟨first, second, third, some, more, many, last, number, blanks, generation, spaces⟩ := numbers
  have less := runStart_le Byte.isDigit text start
  refine ⟨first, second, third, by omega, more, many, last, ?_, blanks, generation, spaces⟩
  intro here after ahead
  rcases Nat.lt_or_ge here start with earlier | later
  · exact runStart_between _ _ _ here after earlier
  · exact number here later ahead

/-- Whether a byte can stand between the start of a header and its keyword. -/
def isNumbering (b : UInt8) : Bool := Byte.isDigit b || Byte.isWhitespace b

theorem numberStart_bytes (found : numberStart text place = some start) :
    start < place ∧ AllBetween isNumbering text start place := by
  have digits := runStart_le Byte.isDigit text (runStart Byte.isWhitespace text place)
  have blanks := runStart_le Byte.isWhitespace text place
  unfold numberStart at found
  dsimp only at found
  split at found
  · cases found
  · rename_i differs
    cases found
    refine ⟨by omega, fun here behind before => ?_⟩
    have wider {member : UInt8 → Bool} (each : ∀ b, member b = true → isNumbering b = true)
        (known : (text[here]?).any member = true) : (text[here]?).any isNumbering = true := by
      cases byte : text[here]? with
      | none =>
        rw [byte] at known
        cases known
      | some b =>
        rw [byte] at known
        exact each b known
    rcases Nat.lt_or_ge here (runStart Byte.isWhitespace text place) with earlier | later
    · refine wider (fun b digit => ?_) (runStart_between _ _ _ here behind earlier)
      rw [isNumbering, digit, Bool.true_or]
    · refine wider (fun b blank => ?_) (runStart_between _ _ _ here later before)
      rw [isNumbering, blank, Bool.or_true]

/-- A header has nothing but digits and blanks in front of its keyword. -/
theorem headerStart_bytes (found : headerStart text keyword = some start) :
    start < keyword ∧ AllBetween isNumbering text start keyword := by
  obtain ⟨generation, last, first⟩ := Option.bind_eq_some_iff.mp found
  obtain ⟨before, spaces⟩ := numberStart_bytes last
  obtain ⟨ahead, blanks⟩ := numberStart_bytes first
  refine ⟨Nat.lt_trans ahead before, fun here behind within => ?_⟩
  rcases Nat.lt_or_ge here generation with earlier | later
  · exact blanks here behind earlier
  · exact spaces here later within

/-- So it does not reach back over a byte of another kind. -/
theorem headerStart_behind (found : headerStart text keyword = some start) {bar : Nat}
    (before : bar ≤ keyword) (barred : StartsAt isNumbering text bar) : bar ≤ start := by
  obtain ⟨_, bytes⟩ := headerStart_bytes found
  rcases Nat.lt_or_ge start bar with earlier | later
  · obtain ⟨last, rfl⟩ := Nat.exists_eq_succ_of_ne_zero (Nat.ne_of_gt (Nat.zero_lt_of_lt earlier))
    have inside := bytes last (Nat.le_of_lt_succ earlier) before
    rw [barred last rfl] at inside
    cases inside
  · exact later

end Lexis

namespace Scan

variable {t : Resident}

theorem skipBack_start (member : UInt8 → Bool) (place : Nat) (t : Resident) :
    (skipBack member place).run t = (Lexis.runStart member t.bytes place, t) := by
  induction place with
  | zero => rfl
  | succ place ih =>
    have byte : (byteAt place).run t = (t.bytes[place]?, t) := rfl
    simp only [skipBack, run_bind, byte, Lexis.runStart]
    cases t.bytes[place]? with
    | none => rfl
    | some b =>
      dsimp only [Option.any_some]
      split
      · exact ih
      · rfl

theorem numberBefore_start (place : Nat) (t : Resident) :
    (numberBefore place).run t = (Lexis.numberStart t.bytes place, t) := by
  simp only [numberBefore, run_bind, skipBack_start]
  rfl

/-- The header of a keyword is found from the bytes in front of it. -/
theorem headerStart_start (keyword : Nat) (t : Resident) :
    (headerStart keyword).run t = (Lexis.headerStart t.bytes keyword, t) := by
  simp only [headerStart, run_bind, numberBefore_start, Lexis.headerStart]
  cases Lexis.numberStart t.bytes keyword with
  | none => rfl
  | some generation => exact numberBefore_start generation t

end Scan
end PdfObjects
