/-!
# Words: arithmetic that does not wrap

The operations of words agree with those of the integers as long as the result is in the range of the word.
-/

namespace Recurrence

/-- A difference of words within the range is the true difference. -/
theorem toInt_sub_of_fits {a b : Int64} (h : -9223372036854775808 ≤ a.toInt - b.toInt)
    (h' : a.toInt - b.toInt < 9223372036854775808) : (a - b).toInt = a.toInt - b.toInt := by
  rw [Int64.toInt_sub, Int.bmod_eq_of_le]
  · omega
  · omega

/-- A product of words within the range is the true product. -/
theorem toInt_mul_of_fits {a b : Int64} (h : -9223372036854775808 ≤ a.toInt * b.toInt)
    (h' : a.toInt * b.toInt < 9223372036854775808) : (a * b).toInt = a.toInt * b.toInt := by
  rw [Int64.toInt_mul, Int.bmod_eq_of_le]
  · omega
  · omega

/-- An unsigned word below the top bit is the same number as a signed word. -/
theorem toInt_toInt64_of_fits {a : UInt64} (h : a.toNat < 9223372036854775808) : a.toInt64.toInt = a.toNat := by
  calc a.toInt64.toInt = (UInt64.ofNat a.toNat).toInt64.toInt := by rw [UInt64.ofNat_toNat]
    _ = (Int64.ofNat a.toNat).toInt := by rw [UInt64.toInt64_ofNat']
    _ = a.toNat := Int64.toInt_ofNat_of_lt h

/-- A signed word that is not negative is the same number as an unsigned word. -/
theorem toUInt64_of_nonneg {a : Int64} (h : 0 ≤ a.toInt) : a.toUInt64 = UInt64.ofNat a.toInt.toNat := by
  obtain ⟨n, hn⟩ := Int.eq_ofNat_of_zero_le h
  calc a.toUInt64 = (Int64.ofInt a.toInt).toUInt64 := by rw [Int64.ofInt_toInt]
    _ = (Int64.ofNat n).toUInt64 := by rw [hn, Int64.ofInt_eq_ofNat]
    _ = UInt64.ofNat a.toInt.toNat := by rw [Int64.toUInt64_ofNat', hn, Int.toNat_natCast]

end Recurrence
