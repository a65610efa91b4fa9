import Mathlib.Data.Nat.Digits.Defs
import PdfObjects.Machine
import PdfObjects.Proofs.Numbers

/-! Numbers are read exactly. Digits are taken one at a time into a word of 32 bits, and the one that would
not fit any more has to be noticed when it is there. One reader notices it by the product and the sum, which
are refused; the other compares with a quotient first, and trusts them. Either way the word always holds
what the digits so far write, and it is given up as soon as the number is too large, for digits behind that
can only make it larger. -/
namespace PdfObjects.Numeral

/-- The number that a word writes in decimal behind its sign, with all digits up to the first byte that is
none. -/
def written (word : Bytes) : Nat :=
  Nat.ofDigits 10 (((unsigned word).takeWhile Byte.isDigit).reverse.map digitValue)

theorem value_eq_ofDigits (digits : Bytes) :
    value digits = Nat.ofDigits 10 (digits.reverse.map digitValue) := by
  rw [value, List.foldl_eq_foldr_reverse, Nat.ofDigits_eq_foldr, List.foldr_map]
  simp only [Nat.add_comm, Nat.cast_id]

/-- Reading the digits against a limit is comparing what is written with it. -/
theorem bounded_unsigned (limit : Nat) (word : Bytes) :
    bounded limit (unsigned word) = if written word ≤ limit then some (written word) else none := by
  rw [bounded_eq, value_eq_ofDigits]
  rfl

/-- What is too large becomes the largest number. -/
theorem saturating_eq (word : Bytes) : saturating word = min (written word) maxUnsigned := by
  rw [saturating, bounded_unsigned, Nat.min_def]
  split <;> rfl

/-- The limit depends on the sign alone. -/
theorem integer_unsigned (word : Bytes) : integer word =
    (if word.head? = some Byte.plus then ((bounded maxSigned (unsigned word)).getD 0 : Nat)
    else if word.head? = some Byte.minus then -((bounded (maxSigned + 1) (unsigned word)).getD 0 : Nat)
    else ((bounded maxUnsigned (unsigned word)).getD 0 : Nat) : Int) := by
  cases word with
  | nil => rfl
  | cons b rest =>
    have apart : Byte.minus ≠ Byte.plus := by decide
    simp only [integer, unsigned, List.head?_cons, Option.some_inj]
    by_cases plus : b = Byte.plus
    · simp only [plus, true_or, ↓reduceIte]
    · by_cases minus : b = Byte.minus
      · simp only [minus, apart, or_true, ↓reduceIte]
      · simp only [plus, minus, or_self, ↓reduceIte]

/-- What is out of the range of its sign becomes zero. -/
theorem integer_eq (word : Bytes) : integer word =
    if word.head? = some Byte.plus then (if written word ≤ maxSigned then written word else 0 : Int)
    else if word.head? = some Byte.minus then (if written word ≤ maxSigned + 1 then -written word else 0)
    else (if written word ≤ maxUnsigned then written word else 0) := by
  have read (limit : Nat) : (bounded limit (unsigned word)).getD 0 =
      if written word ≤ limit then written word else 0 := by
    rw [bounded_unsigned]
    split <;> rfl
  simp only [integer_unsigned, read]
  split_ifs <;> simp

section Words

/-- Takes a digit onto a number. There is no result if a step wraps around, and none inside it if the number
turns out to be too large. -/
abbrev Step : Type := (value digit : UInt32) → Option (Option UInt32)

/-- The product and the sum are refused if they are too large, so nothing can wrap around. -/
def checkedStep : Step := fun value digit =>
  some ((Machine.narrow? (value.toNat * 10 : Nat)).bind fun product =>
    Machine.narrow? (product.toNat + digit.toNat : Nat))

/-- A quotient tells whether the number would be too large. If not, nobody looks at the product and the sum. -/
def comparedStep : Step := fun value digit => do
  let room ← Machine.narrow? (maxUnsigned - digit.toNat)
  if room / 10 < value then pure none
  else
    let product ← Machine.narrow? (value.toNat * 10 : Nat)
    let next ← Machine.narrow? (product.toNat + digit.toNat : Nat)
    pure (some next)

/-- Reads the leading digits of a word onto a number, and gives `beyond` if that gets too large. -/
def machineFrom (step : Step) (beyond : UInt32) : (value : UInt32) → Bytes → Option UInt32
  | value, [] => some value
  | value, b :: rest =>
    if Byte.isDigit b then do
      let digit ← Machine.narrow? (b.toNat - 0x30)
      match ← step value digit with
      | some next => machineFrom step beyond next rest
      | none => pure beyond
    else some value

/-- The unsigned reading in machine words. -/
def machineSaturating (word : Bytes) : Option UInt32 := machineFrom comparedStep 0xFFFFFFFF 0 (unsigned word)

/-- A number that has a sign. Up to the limit it goes into a word of 64 bits, where there is room for both
signs. -/
def machineWithin (limit : Nat) (value : UInt32) : Option Int := do
  let limit ← Machine.narrow? limit
  pure (if limit < value then 0 else value.toNat)

/-- The signed reading in machine words. -/
def machineInteger (word : Bytes) : Option Int := do
  let value ← machineFrom checkedStep 0 0 (unsigned word)
  if word.head? = some Byte.plus then machineWithin maxSigned value
  else if word.head? = some Byte.minus then (machineWithin (maxSigned + 1) value).map Neg.neg
  else pure value.toNat

/-- A step takes the digit onto the number without wrapping around, and notices if that gets too large. -/
def Step.Exact (step : Step) : Prop :=
  ∀ value digit, step value digit = some (Machine.narrow? (10 * value.toNat + digit.toNat : Nat))

variable {step : Step}

/-- A product that is refused would make the sum too large as well. -/
theorem product_sum (value digit : UInt32) :
    ((Machine.narrow? (value.toNat * 10 : Nat)).bind fun product =>
        Machine.narrow? (product.toNat + digit.toNat : Nat)) =
      Machine.narrow? (10 * value.toNat + digit.toNat : Nat) := by
  cases computed : Machine.narrow? (value.toNat * 10 : Nat) with
  | none =>
    have large := Machine.narrow?_eq_none.mp computed
    rw [Option.bind_none, eq_comm, Machine.narrow?_eq_none]
    omega
  | some product =>
    have exact : product.toNat = value.toNat * 10 := Int.ofNat_inj.mp (Machine.narrow?_eq_some.mp computed)
    rw [Option.bind_some, exact, Nat.mul_comm]

theorem checkedStep_exact :
    Step.Exact checkedStep := fun value digit => congrArg some (product_sum value digit)

/-- The quotient tells exactly whether the number would be too large. -/
theorem comparedStep_exact : Step.Exact comparedStep := by
  intro value digit
  have small : digit.toNat < UInt32.size := digit.toNat_lt
  obtain ⟨room, computed, exact⟩ : ∃ room : UInt32,
      Machine.narrow? (maxUnsigned - digit.toNat) = some room ∧ room.toNat = maxUnsigned - digit.toNat := by
    have size : maxUnsigned = UInt32.size - 1 := rfl
    have exact : (UInt32.ofNat (maxUnsigned - digit.toNat)).toNat = maxUnsigned - digit.toNat :=
      UInt32.toNat_ofNat_of_lt' (by omega)
    exact ⟨_, Machine.narrow?_eq_some.mpr (by omega), exact⟩
  have quotient : (room / 10).toNat = room.toNat / 10 := UInt32.toNat_div room 10
  have less : room / 10 < value ↔ UInt32.size ≤ 10 * value.toNat + digit.toNat := by
    rw [UInt32.lt_iff_toNat_lt, quotient, exact]
    simp only [maxUnsigned, UInt32.size] at small ⊢
    omega
  rw [comparedStep, computed, Option.bind_eq_bind, Option.bind_some]
  -- Where the guard lets the digit pass, the sum is a word, and so the product is one.
  cases sum : Machine.narrow? (10 * value.toNat + digit.toNat : Nat) with
  | none =>
    rw [if_pos (less.mpr (Machine.narrow?_eq_none.mp sum))]
    rfl
  | some next =>
    have fits : ¬ room / 10 < value := by
      rw [less, ← Machine.narrow?_eq_none, sum]
      exact Option.some_ne_none next
    obtain ⟨product, multiplied, added⟩ := Option.bind_eq_some_iff.mp ((product_sum value digit).trans sum)
    rw [if_neg fits, multiplied, Option.bind_some, added]
    rfl

/-- A digit is a word that has not wrapped around. -/
theorem narrow?_digit {b : UInt8} (digit : Byte.isDigit b = true) :
    ∃ d : UInt32, Machine.narrow? (b.toNat - 0x30) = some d ∧ d.toNat = digitValue b := by
  have bound := b.toNat_lt
  simp only [Byte.isDigit, Bool.and_eq_true, decide_eq_true_eq, UInt8.le_iff_toNat_le] at digit
  have low : 0x30 ≤ b.toNat := digit.1
  have exact : (UInt32.ofNat (digitValue b)).toNat = digitValue b :=
    UInt32.toNat_ofNat_of_lt' (by simp only [digitValue, UInt32.size]; omega)
  exact ⟨_, Machine.narrow?_eq_some.mpr (by simp only [digitValue] at exact ⊢; omega), exact⟩

/-- No step wraps around, and what is read is what is read against the limit of a word. -/
theorem machineFrom_eq (exact : step.Exact) (beyond value : UInt32) (word : Bytes) :
    machineFrom step beyond value word =
      some (((boundedFrom maxUnsigned value.toNat word).map UInt32.ofNat).getD beyond) := by
  induction word generalizing value with
  | nil =>
    rw [machineFrom, boundedFrom, Option.map_some, Option.getD_some, UInt32.ofNat_toNat]
  | cons b rest ih =>
    cases digit : Byte.isDigit b with
    | false =>
      simp only [machineFrom, boundedFrom, digit, Bool.false_eq_true, ↓reduceIte, Option.map_some,
        Option.getD_some, UInt32.ofNat_toNat]
    | true =>
      obtain ⟨d, computed, same⟩ := narrow?_digit digit
      rw [machineFrom, if_pos digit, computed, Option.bind_eq_bind, Option.bind_some, exact, boundedFrom,
        if_pos digit, same, Option.bind_eq_bind, Option.bind_some]
      cases taken : Machine.narrow? (10 * value.toNat + digitValue b : Nat) with
      | none =>
        -- What comes behind the digit does not matter: both readings end here.
        have large : ¬ 10 * value.toNat + digitValue b ≤ maxUnsigned :=
          Nat.not_le_of_lt (Machine.narrow?_eq_none.mp taken)
        rw [if_neg large]
        rfl
      | some next =>
        have same : next.toNat = 10 * value.toNat + digitValue b :=
          Int.ofNat_inj.mp (Machine.narrow?_eq_some.mp taken)
        have fits : next.toNat ≤ maxUnsigned := Nat.le_of_lt_succ next.toNat_lt
        rw [← same, if_pos fits]
        exact ih next

/-- What a word writes is there in the end, or what stands for too large numbers. -/
theorem machineFrom_written (exact : step.Exact) (beyond : UInt32) (word : Bytes) :
    ∃ value, machineFrom step beyond 0 (unsigned word) = some value ∧
      value.toNat = if written word ≤ maxUnsigned then written word else beyond.toNat := by
  refine ⟨_, machineFrom_eq exact beyond 0 (unsigned word), ?_⟩
  change (((bounded maxUnsigned (unsigned word)).map UInt32.ofNat).getD beyond).toNat = _
  rw [bounded_unsigned]
  split
  · rename_i fits
    exact UInt32.toNat_ofNat_of_lt' (Nat.lt_succ_of_le fits)
  · rfl

theorem machineSaturating_eq (word : Bytes) :
    ∃ value, machineSaturating word = some value ∧ value.toNat = saturating word := by
  obtain ⟨value, read, same⟩ := machineFrom_written comparedStep_exact 0xFFFFFFFF word
  refine ⟨value, read, ?_⟩
  rw [same, saturating_eq, Nat.min_def]
  rfl

/-- A number that was too large for a word is zero by now, and passes no limit. -/
theorem machineWithin_written {limit : Nat} (small : limit ≤ maxUnsigned) {value : UInt32} {word : Bytes}
    (read : value.toNat = if written word ≤ maxUnsigned then written word else 0) :
    machineWithin limit value = some (if written word ≤ limit then written word else 0 : Int) := by
  have exact : (UInt32.ofNat limit).toNat = limit := UInt32.toNat_ofNat_of_lt' (Nat.lt_succ_of_le small)
  have fits : Machine.narrow? limit = some (UInt32.ofNat limit) :=
    Machine.narrow?_eq_some.mpr (congrArg Nat.cast exact)
  have passes : UInt32.ofNat limit < value ↔ limit < value.toNat := by rw [UInt32.lt_iff_toNat_lt, exact]
  rw [machineWithin, fits, Option.bind_eq_bind, Option.bind_some, if_congr passes rfl rfl]
  refine congrArg some ?_
  split_ifs at read ⊢ <;> omega

theorem machineInteger_eq (word : Bytes) : machineInteger word = some (integer word) := by
  obtain ⟨value, read, same⟩ := machineFrom_written checkedStep_exact 0 word
  have half : maxSigned + 1 ≤ maxUnsigned := by decide
  rw [machineInteger, read, Option.bind_eq_bind, Option.bind_some,
    machineWithin_written (Nat.le_of_succ_le half) same, machineWithin_written half same, integer_eq]
  have whole : (value.toNat : Int) = if written word ≤ maxUnsigned then written word else 0 := by
    rw [same]
    split <;> rfl
  rw [whole]
  split_ifs <;> rfl

end Words

/-- Numbers are read exactly, up to the point where they stand for something else. A word without a decimal
point is an integer: the number that its digits write if it has no sign and is below two to the power of 32,
or has a plus in front and is below two to the power of 31; that number negated if it has a minus in front
and is two to the power of 31 at most; and zero in every other case. The unsigned reading of any word is the
number itself, or the largest word of 32 bits if that is smaller. All this can be computed in words of 32
bits, digit by digit, and no step wraps around, however many digits there are. -/
theorem converts_exactly (word : Bytes) :
    let n := written word
    (Byte.point ∉ word → Object.ofNumeral word = .integer (
      if word.head? = some Byte.plus then (if n < 2 ^ 31 then n else 0)
      else if word.head? = some Byte.minus then (if n ≤ 2 ^ 31 then -n else 0)
      else (if n < 2 ^ 32 then n else 0))) ∧
    saturating word = min n (2 ^ 32 - 1) ∧
    machineInteger word = some (integer word) ∧
    ∃ value, machineSaturating word = some value ∧ value.toNat = saturating word := by
  refine ⟨fun whole => ?_, saturating_eq word, machineInteger_eq word, machineSaturating_eq word⟩
  have positive : written word ≤ maxSigned ↔ written word < 2 ^ 31 := Nat.lt_succ_iff.symm
  have unsigned : written word ≤ maxUnsigned ↔ written word < 2 ^ 32 := Nat.lt_succ_iff.symm
  rw [Object.ofNumeral, if_neg (fun found => whole (List.contains_iff_mem.mp found)), integer_eq,
    if_congr positive rfl rfl, if_congr unsigned rfl rfl]
  rfl

/-- The smallest integer there is, with zeros in front and something behind it that is no digit. -/
def smallestWord : Bytes := Bytes.ofAscii "-000000000000002147483648-5".toList

/-- A number that is too large for 64 bits, behind a sign. -/
def largeWord : Bytes := Bytes.ofAscii "+18446744073709551616".toList

/-- The one is read as it is, and is its own unsigned reading; the other one is read as zero, and as the
largest number. -/
theorem smallestWord_converts :
    Byte.point ∉ smallestWord ∧ Object.ofNumeral smallestWord = .integer (-2147483648) ∧
      saturating smallestWord = 2147483648 ∧ machineInteger smallestWord = some (-2147483648) ∧
    Byte.point ∉ largeWord ∧ Object.ofNumeral largeWord = .integer 0 ∧
      saturating largeWord = 4294967295 ∧ machineInteger largeWord = some 0 := by
  have smallest : written smallestWord = 2147483648 := by decide
  have large : written largeWord = 18446744073709551616 := by decide
  have noPoint : Byte.point ∉ smallestWord ∧ Byte.point ∉ largeWord := by decide
  obtain ⟨signed, unsigned, words, _⟩ := converts_exactly smallestWord
  obtain ⟨signed', unsigned', words', _⟩ := converts_exactly largeWord
  rw [smallest] at signed unsigned
  rw [large] at signed' unsigned'
  exact ⟨noPoint.1, signed noPoint.1, unsigned, words, noPoint.2, signed' noPoint.2, unsigned', words'⟩

end PdfObjects.Numeral
