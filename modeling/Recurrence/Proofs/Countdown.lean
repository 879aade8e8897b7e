import Recurrence.Countdown.Basic
import Recurrence.Countdown.Clock

/-!
# Clocks and countdowns as integers

A trusted time and the seconds left of a countdown are computed on words. Here both are given as integers: in general with
the ends that words have, and without them where no reading and no sum is beyond the words.
-/

namespace Recurrence

namespace TrustedClock

/-- The trusted time is the anchor and the time since then, each clamped. -/
theorem toInt_now (clock : TrustedClock) (reading : Int64) :
    (clock.now reading).toInt =
      clamp64 (clock.trustedAnchor.toInt + clamp64 (max 0 (reading.toInt - clock.localAnchor.toInt))) := by
  rw [now, toInt_satAdd, toInt_since]

/-- The trusted time goes on as the local clock does, when no time is beyond the words. -/
theorem toInt_now_of_fits {clock : TrustedClock} {reading : Int64} (hle : clock.localAnchor ≤ reading)
    (hfits : reading.toInt - clock.localAnchor.toInt ≤ 9223372036854775807)
    (hfits' : clock.trustedAnchor.toInt + (reading.toInt - clock.localAnchor.toInt) ≤ 9223372036854775807) :
    (clock.now reading).toInt = clock.trustedAnchor.toInt + (reading.toInt - clock.localAnchor.toInt) := by
  have hle' := Int64.le_iff_toInt_le.mp hle
  have hanchor := Int64.le_toInt clock.trustedAnchor
  have hsince : clamp64 (reading.toInt - clock.localAnchor.toInt) = reading.toInt - clock.localAnchor.toInt :=
    clamp64_of_mem (by omega) (by omega)
  rw [toInt_now, Int.max_eq_right (by omega), hsince, clamp64_of_mem (by omega) (by omega)]

end TrustedClock

namespace Countdown

/-- The seconds that have passed are those of the clamped time since the start. -/
theorem toNat_passed (c : Countdown) (reading : Int64) :
    (c.passed reading).toNat = (clamp64 (max 0 (reading.toInt - c.start.toInt)) / 1000).toNat := by
  have hbounds := clamp64_bounds (max 0 (reading.toInt - c.start.toInt))
  rw [passed, toInt_since]
  exact UInt64.toNat_ofNat_of_lt' (by show _ < 18446744073709551616; omega)

/-- The seconds left are those of the countdown less those passed, and none when more have passed. -/
theorem toNat_left (c : Countdown) (reading : Int64) :
    (c.left reading).toNat = c.seconds.toNat - (c.passed reading).toNat := by
  rw [left, toNat_monus]

/-- The seconds left are what is left of the countdown after the seconds that have passed. -/
theorem toNat_left_of_fits {c : Countdown} {reading : Int64} (hle : c.start ≤ reading)
    (hfits : reading.toInt - c.start.toInt ≤ 9223372036854775807) :
    (c.left reading).toNat = c.seconds.toNat - ((reading.toInt - c.start.toInt) / 1000).toNat := by
  have hle' := Int64.le_iff_toInt_le.mp hle
  rw [toNat_left, toNat_passed, Int.max_eq_right (by omega), clamp64_of_mem (by omega) (by omega)]

end Countdown

end Recurrence
