/-! Arithmetic of machine words. Offsets, lengths and sizes of files are words of 64 bits, and numbers are
read into words of 32, so a sum or a product need not fit. What does not fit is refused, or the largest
word stands in for it. Here an operation that is neither, and wraps around if nobody prevents it, is taken
for one that is refused; so where a result is shown to be there, nothing has wrapped. Sums that do wrap, and
are compared with a bound afterwards, are `wrapped`. -/
namespace PdfObjects.Machine

/-- A sum of words that is compared with a bound, itself a word, as it comes out where nobody checks it: past
the largest word counting starts over. Within the bound nothing has wrapped. -/
def wrapped (bound sum : Nat) : Nat := if sum ≤ bound then sum else sum % UInt64.size

section Wrapped
variable {bound sum : Nat}

@[simp] theorem wrapped_of_le (inside : sum ≤ bound) : wrapped bound sum = sum := if_pos inside

theorem wrapped_of_fits (fits : sum < UInt64.size) : wrapped bound sum = sum := by
  rw [wrapped, Nat.mod_eq_of_lt fits, ite_self]

theorem wrapped_of_word (word : bound < UInt64.size) : wrapped bound sum = sum % UInt64.size := by
  unfold wrapped
  split
  · exact (Nat.mod_eq_of_lt (by omega)).symm
  · rfl

/-- A word and what was added to it, once the sum has wrapped, make less than the word. -/
theorem wrapped_of_overflow {a b : Nat} (word : b < UInt64.size) (overflow : UInt64.size ≤ a + b) :
    wrapped a (a + b) ≤ a := by
  unfold wrapped
  split
  · assumption
  · by_cases small : a < UInt64.size
    · rw [Nat.mod_eq_sub_mod overflow, Nat.mod_eq_of_lt (by omega)]
      omega
    · have rest := Nat.mod_lt (a + b) (show 0 < UInt64.size by decide)
      omega

end Wrapped

/-- The largest word. -/
def largest : UInt64 := 0xFFFFFFFFFFFFFFFF

/-- The sum, if it fits. -/
def add? (a b : UInt64) : Option UInt64 := if a.toNat + b.toNat < UInt64.size then some (a + b) else none

/-- The product, if it fits. -/
def mul? (a b : UInt64) : Option UInt64 := if a.toNat * b.toNat < UInt64.size then some (a * b) else none

/-- The sum, or the largest word in its place. -/
def addUpTo (a b : UInt64) : UInt64 := (add? a b).getD largest

/-- The product, or the largest word in its place. -/
def mulUpTo (a b : UInt64) : UInt64 := (mul? a b).getD largest

/-- The quotient, rounded up. -/
def divUp? (a b : UInt64) : Option UInt64 := if a % b = 0 then some (a / b) else add? (a / b) 1

/-- The end of a range, if it is a word and not beyond a bound. -/
def endWithin (bound : Nat) (offset length : UInt64) : Option UInt64 :=
  (add? offset length).filter (·.toNat ≤ bound)

/-- The exact result of an operation as a word of 32 bits, if it is one. -/
def narrow? (result : Int) : Option UInt32 :=
  if 0 ≤ result ∧ result < UInt32.size then some (UInt32.ofNat result.toNat) else none

variable {a b c : UInt64}

theorem toNat_le (a : UInt64) : a.toNat ≤ largest.toNat := Nat.le_of_lt_succ a.toNat_lt

theorem toNat_ofNat {n : Nat} (fits : n ≤ largest.toNat) : (UInt64.ofNat n).toNat = n :=
  UInt64.toNat_ofNat_of_lt' (Nat.lt_succ_of_le fits)

theorem toNat_min (a b : UInt64) : (min a b).toNat = min a.toNat b.toNat := by
  by_cases less : a ≤ b
  · rw [Nat.min_eq_left (UInt64.le_iff_toNat_le.mp less)]
    exact congrArg UInt64.toNat (if_pos less)
  · have more : b.toNat ≤ a.toNat :=
      Nat.le_of_not_le fun other => less (UInt64.le_iff_toNat_le.mpr other)
    rw [Nat.min_eq_right more]
    exact congrArg UInt64.toNat (if_neg less)

theorem add?_eq_some : add? a b = some c ↔ c.toNat = a.toNat + b.toNat := by
  have bound := c.toNat_lt
  unfold add?
  split
  · rename_i fits
    have exact : (a + b).toNat = a.toNat + b.toNat := by
      rw [UInt64.toNat_add]
      exact Nat.mod_eq_of_lt fits
    rw [Option.some_inj, ← UInt64.toNat_inj, exact, eq_comm]
  · rename_i large
    simp only [reduceCtorEq, false_iff]
    intro same
    exact large (same ▸ bound)

theorem add?_eq_none : add? a b = none ↔ largest.toNat < a.toNat + b.toNat := by
  have bound : UInt64.size = largest.toNat + 1 := rfl
  unfold add?
  split <;> simp only [reduceCtorEq, false_iff, true_iff] <;> omega

theorem mul?_eq_some : mul? a b = some c ↔ c.toNat = a.toNat * b.toNat := by
  have bound := c.toNat_lt
  unfold mul?
  split
  · rename_i fits
    have exact : (a * b).toNat = a.toNat * b.toNat := by
      rw [UInt64.toNat_mul]
      exact Nat.mod_eq_of_lt fits
    rw [Option.some_inj, ← UInt64.toNat_inj, exact, eq_comm]
  · rename_i large
    simp only [reduceCtorEq, false_iff]
    intro same
    exact large (same ▸ bound)

theorem mul?_eq_none : mul? a b = none ↔ largest.toNat < a.toNat * b.toNat := by
  have bound : UInt64.size = largest.toNat + 1 := rfl
  unfold mul?
  split <;> simp only [reduceCtorEq, false_iff, true_iff] <;> omega

theorem addUpTo_toNat (a b : UInt64) : (addUpTo a b).toNat = min (a.toNat + b.toNat) largest.toNat := by
  unfold addUpTo
  cases sum : add? a b with
  | none =>
    have large := add?_eq_none.mp sum
    rw [Option.getD_none, Nat.min_eq_right (Nat.le_of_lt large)]
  | some c =>
    have exact := add?_eq_some.mp sum
    rw [Option.getD_some, exact, Nat.min_eq_left (exact ▸ toNat_le c)]

theorem mulUpTo_toNat (a b : UInt64) : (mulUpTo a b).toNat = min (a.toNat * b.toNat) largest.toNat := by
  unfold mulUpTo
  cases product : mul? a b with
  | none =>
    have large := mul?_eq_none.mp product
    rw [Option.getD_none, Nat.min_eq_right (Nat.le_of_lt large)]
  | some c =>
    have exact := mul?_eq_some.mp product
    rw [Option.getD_some, exact, Nat.min_eq_left (exact ▸ toNat_le c)]

theorem endWithin_inside {bound : Nat} (small : bound ≤ largest.toNat) (inside : a.toNat + b.toNat ≤ bound) :
    ∃ stop, endWithin bound a b = some stop ∧ stop.toNat = a.toNat + b.toNat := by
  cases sum : add? a b with
  | none =>
    have large := add?_eq_none.mp sum
    omega
  | some stop =>
    have exact := add?_eq_some.mp sum
    exact ⟨stop, by simp [endWithin, sum, Option.filter, exact, inside], exact⟩

/-- A range that ends beyond the bound has an end that is no word, or a word that is too large. -/
theorem endWithin_outside {bound : Nat} (outside : bound < a.toNat + b.toNat) :
    endWithin bound a b = none := by
  cases sum : add? a b with
  | none => simp only [endWithin, sum, Option.filter_none]
  | some stop =>
    have exact := add?_eq_some.mp sum
    simp [endWithin, sum, Option.filter, exact, outside]

theorem narrow?_eq_some {result : Int} {c : UInt32} :
    narrow? result = some c ↔ (c.toNat : Int) = result := by
  have bound : c.toNat < UInt32.size := c.toNat_lt
  unfold narrow?
  split
  · rename_i fits
    have exact : (UInt32.ofNat result.toNat).toNat = result.toNat := UInt32.toNat_ofNat_of_lt' (by omega)
    rw [Option.some_inj, ← UInt32.toNat_inj, exact]
    omega
  · simp only [reduceCtorEq, false_iff]
    omega

/-- A natural number is refused only for its size. -/
theorem narrow?_eq_none {n : Nat} : narrow? n = none ↔ UInt32.size ≤ n := by
  unfold narrow?
  split <;> simp only [reduceCtorEq, false_iff, true_iff] <;> omega

end PdfObjects.Machine
