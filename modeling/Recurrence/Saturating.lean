/-!
# Saturating arithmetic on words

Instants and clock readings are signed 64-bit words. A sum or difference that leaves the range of the word is replaced by
the nearest end of the range: the result is the true integer, clamped (`toInt_satAdd`, `toInt_satSub`). The time between
two readings, and the seconds left of a cycle, stop at zero (`toInt_since`, `toNat_monus`).
-/

namespace Recurrence

/-- The integer of the signed 64-bit range that is nearest to the one given. -/
def clamp64 (n : Int) : Int :=
  max (-9223372036854775808) (min n 9223372036854775807)

/-- The sum, or the end of the range on the side where the sum lies. -/
def satAdd (a b : Int64) : Int64 :=
  Int64.ofInt (clamp64 (a.toInt + b.toInt))

/-- The difference, or the end of the range on the side where the difference lies. -/
def satSub (a b : Int64) : Int64 :=
  Int64.ofInt (clamp64 (a.toInt - b.toInt))

/-- The time from a reading to a later one, and 0 from a reading to an earlier one. -/
def since (start now : Int64) : Int64 :=
  if start ≤ now then satSub now start else 0

/-- The difference of unsigned words, or 0 where it would be negative. -/
def monus (a b : UInt64) : UInt64 :=
  if b ≤ a then a - b else 0

/-- An integer within the signed 64-bit range is its own nearest one. -/
theorem clamp64_of_mem {n : Int} (h : -9223372036854775808 ≤ n) (h' : n < 9223372036854775808) : clamp64 n = n := by
  simp only [clamp64]
  omega

/-- A clamped integer is within the range. -/
theorem clamp64_bounds (n : Int) : -9223372036854775808 ≤ clamp64 n ∧ clamp64 n < 9223372036854775808 := by
  simp only [clamp64]
  omega

/-- A saturating sum is the true sum, clamped. -/
@[simp] theorem toInt_satAdd (a b : Int64) : (satAdd a b).toInt = clamp64 (a.toInt + b.toInt) :=
  Int64.toInt_ofInt_of_le (clamp64_bounds _).1 (clamp64_bounds _).2

/-- A saturating difference is the true difference, clamped. -/
@[simp] theorem toInt_satSub (a b : Int64) : (satSub a b).toInt = clamp64 (a.toInt - b.toInt) :=
  Int64.toInt_ofInt_of_le (clamp64_bounds _).1 (clamp64_bounds _).2

/-- The time since a reading is the true difference, with the ends 0 and the top of the range. -/
theorem toInt_since (start now : Int64) : (since start now).toInt = clamp64 (max 0 (now.toInt - start.toInt)) := by
  have hs := Int64.le_toInt start
  have hn := Int64.le_toInt now
  have hs' := Int64.toInt_lt start
  have hn' := Int64.toInt_lt now
  unfold since
  split
  · next h =>
    have h' := Int64.le_iff_toInt_le.mp h
    rw [toInt_satSub, Int.max_eq_right (by omega)]
  · next h =>
    have h' : ¬ start.toInt ≤ now.toInt := fun hle => h (Int64.le_iff_toInt_le.mpr hle)
    rw [Int.max_eq_left (by omega), clamp64_of_mem (by decide) (by decide)]
    rfl

/-- The difference of unsigned words is that of the natural numbers. -/
@[simp] theorem toNat_monus (a b : UInt64) : (monus a b).toNat = a.toNat - b.toNat := by
  unfold monus
  split
  · next h => exact UInt64.toNat_sub_of_le _ _ h
  · next h =>
    have h' : ¬ b.toNat ≤ a.toNat := fun hle => h (UInt64.le_iff_toNat_le.mpr hle)
    rw [Nat.sub_eq_zero_of_le (by omega)]
    rfl

end Recurrence
