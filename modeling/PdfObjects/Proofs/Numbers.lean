import Mathlib.Data.List.TakeWhile
import PdfObjects.Lexis
import PdfObjects.Object.Shape

/-! Numbers that are written are read back. Reading against a limit gives the number that the leading
digits write, or nothing if that is larger; no digits after the one that passes the limit can make up
for it. -/
namespace PdfObjects

namespace Numeral

/-- Digits read onto a number. -/
def valueFrom (acc : Nat) (digits : Bytes) : Nat :=
  digits.foldl (fun n b => 10 * n + digitValue b) acc

theorem le_valueFrom (acc : Nat) (digits : Bytes) : acc ≤ valueFrom acc digits := by
  induction digits generalizing acc with
  | nil => exact Nat.le_refl acc
  | cons b digits ih =>
    have step := ih (10 * acc + digitValue b)
    simp only [valueFrom, List.foldl_cons] at step ⊢
    omega

theorem boundedFrom_eq (limit acc : Nat) (word : Bytes) (fits : acc ≤ limit) :
    boundedFrom limit acc word =
      if valueFrom acc (word.takeWhile Byte.isDigit) ≤ limit then
        some (valueFrom acc (word.takeWhile Byte.isDigit)) else none := by
  induction word generalizing acc with
  | nil => simp [boundedFrom, valueFrom, fits]
  | cons b word ih =>
    cases digit : Byte.isDigit b with
    | false => simp [boundedFrom, digit, valueFrom, fits]
    | true =>
      simp only [boundedFrom, digit, ↓reduceIte, List.takeWhile_cons_of_pos]
      by_cases passes : 10 * acc + digitValue b ≤ limit
      · rw [if_pos passes, ih _ passes]
        rfl
      · have large := le_valueFrom (10 * acc + digitValue b) (word.takeWhile Byte.isDigit)
        rw [if_neg passes, if_neg]
        simp only [valueFrom, List.foldl_cons] at large ⊢
        omega

/-- Reading against a limit is reading the leading digits, and then comparing. -/
theorem bounded_eq (limit : Nat) (word : Bytes) :
    bounded limit word =
      if value (word.takeWhile Byte.isDigit) ≤ limit then
        some (value (word.takeWhile Byte.isDigit)) else none :=
  boundedFrom_eq limit 0 word (Nat.zero_le limit)

end Numeral

namespace Bytes

theorem digitChar_spec : ∀ d, d < 10 → Byte.isDigit (Nat.digitChar d).toUInt8 = true ∧
    Numeral.digitValue (Nat.digitChar d).toUInt8 = d := by decide

theorem decimal_small {n : Nat} (small : n < 10) : decimal n = [(Nat.digitChar n).toUInt8] := by
  rw [decimal, Nat.toDigits_of_lt_base small]
  rfl

theorem decimal_large {n : Nat} (large : 10 ≤ n) :
    decimal n = decimal (n / 10) ++ [(Nat.digitChar (n % 10)).toUInt8] := by
  rw [decimal, Nat.toDigits_of_base_le (by omega) large, List.map_append]
  rfl

/-- Every byte of a number is a digit. -/
theorem decimal_digits (n : Nat) : ∀ b ∈ decimal n, Byte.isDigit b = true := by
  induction n using Nat.strongRecOn with
  | ind n ih =>
    by_cases small : n < 10
    · rw [decimal_small small]
      simpa using (digitChar_spec n small).1
    · rw [decimal_large (by omega)]
      intro b member
      rcases List.mem_append.mp member with leading | last
      · exact ih (n / 10) (by omega) b leading
      · rw [List.mem_singleton] at last
        subst last
        exact (digitChar_spec (n % 10) (by omega)).1

/-- The digits of a number write it. -/
theorem value_decimal (n : Nat) : Numeral.value (decimal n) = n := by
  induction n using Nat.strongRecOn with
  | ind n ih =>
    by_cases small : n < 10
    · have digit := (digitChar_spec n small).2
      simpa [decimal_small small, Numeral.value] using digit
    · have digit := (digitChar_spec (n % 10) (by omega)).2
      have earlier := ih (n / 10) (by omega)
      simp only [Numeral.value] at earlier ⊢
      rw [decimal_large (by omega), List.foldl_append, earlier]
      simp only [List.foldl_cons, List.foldl_nil]
      omega

theorem decimal_ne_nil (n : Nat) : decimal n ≠ [] := by
  simp [decimal, Nat.toDigits_ne_nil]

/-- A number below two to the power of 32 has ten digits at most. -/
theorem decimal_length {n : Nat} (bound : n ≤ Numeral.maxUnsigned) : (decimal n).length ≤ 10 := by
  rw [decimal, List.length_map, Nat.length_toDigits_le_iff (by omega) (by omega)]
  simp only [Numeral.maxUnsigned] at bound
  omega

theorem takeWhile_decimal (n : Nat) : (decimal n).takeWhile Byte.isDigit = decimal n :=
  List.takeWhile_eq_self_iff.mpr (decimal_digits n)

end Bytes

namespace Numeral
open Bytes

theorem bounded_decimal {limit n : Nat} (fits : n ≤ limit) : bounded limit (decimal n) = some n := by
  rw [bounded_eq, takeWhile_decimal, value_decimal, if_pos fits]

theorem digit_unsigned {b : UInt8} (digit : Byte.isDigit b = true) :
    b ≠ Byte.plus ∧ b ≠ Byte.minus := by
  constructor
  · rintro rfl
    cases digit
  · rintro rfl
    cases digit

/-- A number starts with a digit. -/
theorem decimal_head (n : Nat) : ∃ b digits, decimal n = b :: digits ∧ Byte.isDigit b = true := by
  cases written : decimal n with
  | nil => exact absurd written (decimal_ne_nil n)
  | cons b digits =>
    have digit := decimal_digits n b (by rw [written]; exact List.mem_cons_self)
    exact ⟨b, digits, rfl, digit⟩

theorem saturating_decimal {n : Nat} (fits : n ≤ maxUnsigned) : saturating (decimal n) = n := by
  obtain ⟨b, digits, written, digit⟩ := decimal_head n
  obtain ⟨plus, minus⟩ := digit_unsigned digit
  have same : unsigned (decimal n) = decimal n := by simp [written, unsigned, plus, minus]
  rw [saturating, same, bounded_decimal fits, Option.getD_some]

theorem integer_signedDecimal {n : Int} (fits : Fits n) : integer (signedDecimal n) = n := by
  obtain ⟨low, high⟩ := fits
  cases n with
  | ofNat n =>
    obtain ⟨b, digits, written, digit⟩ := decimal_head n
    obtain ⟨plus, minus⟩ := digit_unsigned digit
    have read : bounded maxUnsigned (decimal n) = some n :=
      bounded_decimal (by simp only [maxUnsigned, Int.ofNat_eq_natCast] at high ⊢; omega)
    rw [written] at read
    simp [signedDecimal, written, integer, plus, minus, read]
  | negSucc n =>
    have read : bounded (maxSigned + 1) (decimal (n + 1)) = some (n + 1) :=
      bounded_decimal (by simp only [maxSigned] at low ⊢; omega)
    have sign : Byte.minus ≠ Byte.plus := by decide
    rw [signedDecimal, integer, if_neg sign, if_pos rfl, read]
    rfl

end Numeral

namespace Bytes

theorem digit_inner : ∀ b : UInt8, Byte.isDigit b = true →
    Lexis.isInner b = true ∧ Byte.isNumeric b = true ∧ b ≠ Byte.point := by decide +kernel

/-- A written integer is made of digits and signs. -/
theorem signedDecimal_bytes (n : Int) : ∀ b ∈ signedDecimal n,
    Lexis.isInner b = true ∧ Byte.isNumeric b = true ∧ b ≠ Byte.point := by
  cases n with
  | ofNat n => exact fun b member => digit_inner b (decimal_digits n b member)
  | negSucc n =>
    intro b member
    rcases List.mem_cons.mp member with sign | digit
    · subst sign
      decide
    · exact digit_inner b (decimal_digits _ b digit)

theorem signedDecimal_length {n : Int} (fits : Numeral.Fits n) : (signedDecimal n).length ≤ 11 := by
  obtain ⟨low, high⟩ := fits
  cases n with
  | ofNat n =>
    have bound := decimal_length (n := n)
      (by simp only [Numeral.maxUnsigned, Int.ofNat_eq_natCast] at high ⊢; omega)
    exact Nat.le_succ_of_le bound
  | negSucc n =>
    have bound := decimal_length (n := n + 1) (by simp only [Numeral.maxUnsigned] at low ⊢; omega)
    exact Nat.succ_le_succ bound

end Bytes

/-- An integer is read back from its digits. -/
theorem Object.ofNumeral_signedDecimal {n : Int} (fits : Numeral.Fits n) :
    ofNumeral (Bytes.signedDecimal n) = .integer n := by
  have whole : (Bytes.signedDecimal n).contains Byte.point = false := by
    rw [Bool.eq_false_iff]
    intro found
    rw [List.contains_iff_mem] at found
    exact (Bytes.signedDecimal_bytes n _ found).2.2 rfl
  rw [ofNumeral, whole, Numeral.integer_signedDecimal fits]
  rfl

end PdfObjects
