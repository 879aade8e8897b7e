import Mathlib.Data.Rat.Floor
import Recurrence.Proofs.Countdown

/-!
# What is left of a countdown only falls

The seconds left are those of the countdown less the whole seconds that have passed. The seconds passed grow with the
readings, and between two readings by no more than the time between them, rounded up (`Countdown.toNat_passed_sub_le`). So a
countdown never gains, never falls by a second too many, and stays over once it is. Where the time since the start fits a
word, the seconds left are the exact ones, and the countdown is over from a certain millisecond on
(`Countdown.isOver_iff_of_fits`).
-/

namespace Recurrence.Countdown

/-! ### Seconds passed -/

/-- The time since the start is cut to whole seconds, and they fit an unsigned word. -/
theorem toNat_passed_eq_since (c : Countdown) (reading : Int64) :
    ((c.passed reading).toNat : Int) = (since c.start reading).toInt / 1000 := by
  have hbounds := clamp64_bounds (max 0 (reading.toInt - c.start.toInt))
  rw [toNat_passed, toInt_since]
  simp only [clamp64] at hbounds ⊢
  omega

/-- At a later reading no fewer seconds have passed. -/
theorem toNat_passed_le {c : Countdown} {reading later : Int64} (h : reading ≤ later) :
    (c.passed reading).toNat ≤ (c.passed later).toNat := by
  have hle := Int64.le_iff_toInt_le.mp h
  rw [toNat_passed, toNat_passed]
  simp only [clamp64]
  omega

/-- A number is at most a thousand times its thousandth, rounded up. -/
theorem le_ceil_mul_thousand (n : ℤ) : n ≤ 1000 * ⌈(n : ℚ) / 1000⌉ := by
  have hceil : ⌈(n : ℚ) / 1000⌉ = -(-n / 1000) := by exact_mod_cast Rat.ceil_intCast_div_natCast n 1000
  omega

/-- The seconds that pass between two readings are at most the time between them, rounded up. -/
theorem toNat_passed_sub_le (c : Countdown) {reading later : Int64} (h : reading ≤ later) :
    ((c.passed later).toNat : ℤ) - (c.passed reading).toNat ≤ ⌈((later.toInt - reading.toInt : ℤ) : ℚ) / 1000⌉ := by
  have hle := Int64.le_iff_toInt_le.mp h
  have hceil := le_ceil_mul_thousand (later.toInt - reading.toInt)
  rw [toNat_passed, toNat_passed]
  simp only [clamp64]
  omega

/-! ### Seconds left -/

/-- A countdown is over when as many seconds have passed as it had. -/
theorem isOver_iff (c : Countdown) (reading : Int64) :
    c.isOver reading = true ↔ c.seconds.toNat ≤ (c.passed reading).toNat := by
  have hzero : c.isOver reading = true ↔ (c.left reading).toNat = 0 := by
    rw [isOver, decide_eq_true_iff, ← UInt64.toNat_inj]
    rfl
  rw [hzero, toNat_left]
  omega

/-- The seconds left are the exact ones, when the time since the start fits a word. -/
theorem toNat_left_eq_of_fits {c : Countdown} {reading : Int64}
    (hfits : reading.toInt - c.start.toInt ≤ 9223372036854775807) :
    ((c.left reading).toNat : ℤ) = max 0 ((c.seconds.toNat : ℤ) - max 0 (reading.toInt - c.start.toInt) / 1000) := by
  rw [toNat_left, toNat_passed, clamp64_of_mem (by omega) (by omega)]
  omega

/-- A countdown that had seconds is over from the millisecond on that lies so many seconds after its start. -/
theorem isOver_iff_of_fits {c : Countdown} {reading : Int64} (hseconds : 0 < c.seconds)
    (hfits : reading.toInt - c.start.toInt ≤ 9223372036854775807) :
    c.isOver reading = true ↔ c.start.toInt + 1000 * c.seconds.toNat ≤ reading.toInt := by
  have hpos := UInt64.lt_iff_toNat_lt.mp hseconds
  rw [UInt64.toNat_zero] at hpos
  rw [isOver_iff, toNat_passed, clamp64_of_mem (by omega) (by omega)]
  omega

/-- A countdown falls with the readings, ends at the right millisecond and stays over, whatever its seconds and its start
are. For a reading and a later one:
1. at the later reading no more is left, and never more than the countdown had;
2. between the readings it falls by at most the time between them, rounded up to seconds;
3. when it is over at the reading, it is over at the later one;
4. when the time since the start fits a word, the seconds left are the exact ones, and a countdown that had seconds is over
   exactly from so many seconds after the start on;
5. nothing wraps: the time since the start is the true one, held at the ends of the words, its whole seconds are kept as
   they are by the unsigned word, and what is left stops at zero. -/
theorem left_falls (c : Countdown) {reading later : Int64} (h : reading ≤ later) :
    (c.left later ≤ c.left reading ∧ c.left reading ≤ c.seconds) ∧
    ((c.left reading).toNat : ℤ) - (c.left later).toNat ≤ ⌈((later.toInt - reading.toInt : ℤ) : ℚ) / 1000⌉ ∧
    (c.isOver reading = true → c.isOver later = true) ∧
    (reading.toInt - c.start.toInt ≤ 9223372036854775807 →
      ((c.left reading).toNat : ℤ) = max 0 ((c.seconds.toNat : ℤ) - max 0 (reading.toInt - c.start.toInt) / 1000) ∧
      (0 < c.seconds → (c.isOver reading = true ↔ c.start.toInt + 1000 * c.seconds.toNat ≤ reading.toInt))) ∧
    (since c.start reading).toInt = clamp64 (max 0 (reading.toInt - c.start.toInt)) ∧
    ((c.passed reading).toNat : ℤ) = (since c.start reading).toInt / 1000 ∧
    ((c.left reading).toNat : ℤ) = max 0 ((c.seconds.toNat : ℤ) - (c.passed reading).toNat) := by
  have hpassed := toNat_passed_le (c := c) h
  have hgain := c.toNat_passed_sub_le h
  have hleft := c.toNat_left reading
  have hlater := c.toNat_left later
  refine ⟨⟨?_, ?_⟩, ?_, ?_, fun hfits => ⟨toNat_left_eq_of_fits hfits, fun hseconds => ?_⟩, toInt_since c.start reading,
    c.toNat_passed_eq_since reading, ?_⟩
  · rw [UInt64.le_iff_toNat_le]
    omega
  · rw [UInt64.le_iff_toNat_le]
    omega
  · omega
  · rw [isOver_iff, isOver_iff]
    omega
  · exact isOver_iff_of_fits hseconds hfits
  · omega

/-- A countdown of 100 seconds that began at 5000 has its last second until the millisecond before 105000. -/
theorem left_falls_last_second :
    let c : Countdown := ⟨100, 5000⟩
    (104999 : Int64) ≤ 105000 ∧ (c.left 104999 = 1 ∧ c.left 105000 = 0) ∧ c.left 105000 ≤ c.left 104999 ∧
      ((c.left 104999).toNat : ℤ) - (c.left 105000).toNat ≤
        ⌈(((105000 : Int64).toInt - (104999 : Int64).toInt : ℤ) : ℚ) / 1000⌉ ∧
      (c.isOver 104999 = true ↔ c.start.toInt + 1000 * c.seconds.toNat ≤ (104999 : Int64).toInt) ∧
      c.isOver 104999 = false := by
  intro c
  have hle : (104999 : Int64) ≤ 105000 := by decide
  obtain ⟨⟨hfalls, -⟩, hgain, -, hexact, -⟩ := left_falls c hle
  obtain ⟨-, hover⟩ := hexact (by decide)
  exact ⟨hle, ⟨by decide, by decide⟩, hfalls, hgain, hover (by decide), by decide⟩

end Recurrence.Countdown
