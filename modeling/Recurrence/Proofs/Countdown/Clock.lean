import Recurrence.Proofs.Countdown

/-!
# Trusted time does not precede its anchor or outrun the local clock

The trusted time at a reading is the anchor and the time since the reading it was anchored at, each held at the ends of the
words. Whichever of the two is held, a later reading gives no earlier time, and the time gained between two readings is at
most the time between them (`TrustedClock.toInt_now_sub_le`). A local clock may also be set back, so the same is said of a
whole run of readings in any order (`TrustedClock.forward_map_now_le`).
-/

namespace Recurrence

/-- How far a run of times goes forward: its steps from one time to the next added up, where a step back counts nothing. -/
def forward : List Int64 → Int
  | [] => 0
  | [_] => 0
  | time :: next :: times => max 0 (next.toInt - time.toInt) + forward (next :: times)

namespace TrustedClock

/-! ### One reading -/

/-- Trusted time is never before the anchor. -/
theorem trustedAnchor_le_now (clock : TrustedClock) (reading : Int64) : clock.trustedAnchor ≤ clock.now reading := by
  have hlow := Int64.le_toInt clock.trustedAnchor
  have hhigh := Int64.toInt_lt clock.trustedAnchor
  rw [Int64.le_iff_toInt_le, toInt_now]
  simp only [clamp64]
  omega

/-- Until the local clock has passed the reading of the anchor, trusted time is the anchor. -/
theorem now_of_le_localAnchor {clock : TrustedClock} {reading : Int64} (h : reading ≤ clock.localAnchor) :
    clock.now reading = clock.trustedAnchor := by
  have hlow := Int64.le_toInt clock.trustedAnchor
  have hhigh := Int64.toInt_lt clock.trustedAnchor
  have hle := Int64.le_iff_toInt_le.mp h
  have hsince : clamp64 0 = 0 := by decide
  rw [← Int64.toInt_inj, toInt_now, Int.max_eq_left (by omega), hsince, Int.add_zero, clamp64_of_mem hlow hhigh]

/-- The local clock, trusted as it is, gives its own readings from the anchor on. -/
theorem now_ofLocal_of_fits {anchor reading : Int64} (hle : anchor ≤ reading)
    (hfits : reading.toInt - anchor.toInt ≤ 9223372036854775807) : (ofLocal anchor).now reading = reading := by
  have hhigh := Int64.toInt_lt reading
  have hself : anchor.toInt + (reading.toInt - anchor.toInt) = reading.toInt := by omega
  have hsum : anchor.toInt + (reading.toInt - anchor.toInt) ≤ 9223372036854775807 := by omega
  have hnow : ((ofLocal anchor).now reading).toInt = anchor.toInt + (reading.toInt - anchor.toInt) :=
    toInt_now_of_fits hle hfits hsum
  rw [← Int64.toInt_inj, hnow, hself]

/-! ### Two readings and a run of them -/

/-- A later reading gives no earlier time. -/
theorem now_le_now {clock : TrustedClock} {reading later : Int64} (h : reading ≤ later) :
    clock.now reading ≤ clock.now later := by
  have hle := Int64.le_iff_toInt_le.mp h
  rw [Int64.le_iff_toInt_le, toInt_now, toInt_now]
  simp only [clamp64]
  omega

/-- From one reading to another, trusted time gains at most what the local clock does, and nothing when that goes back. -/
theorem toInt_now_sub_le (clock : TrustedClock) (reading other : Int64) :
    (clock.now other).toInt - (clock.now reading).toInt ≤ max 0 (other.toInt - reading.toInt) := by
  rw [toInt_now, toInt_now]
  simp only [clamp64]
  omega

/-- Over a run of readings, trusted time goes forward at most as far as the local clock does. -/
theorem forward_map_now_le (clock : TrustedClock) (readings : List Int64) :
    forward (readings.map clock.now) ≤ forward readings := by
  induction readings with
  | nil => exact Int.le_refl _
  | cons reading readings ih =>
    cases readings with
    | nil => exact Int.le_refl _
    | cons next readings =>
      have hstep := clock.toInt_now_sub_le reading next
      simp only [List.map_cons, forward] at ih ⊢
      omega

/-- Trusted time is monotone, anchored and without drift, whatever the anchors are. For a reading and a later one:
1. the time is not before the anchor, and the later time is not before the earlier one;
2. between the two readings the time gains at most what the local clock does;
3. the time is the true one, held at the ends of the words, so nothing wraps;
4. up to the reading of the anchor the time is the anchor;
5. after it the time is the anchor and the time since then, if both fit a word;
6. with the local clock alone the time is then the reading itself;
7. over any run of readings, in any order, no time precedes the anchor, no time gains more on another than the local clock
   did between them, and all in all the time goes forward no further than the local clock. -/
theorem now_anchored_without_drift (clock : TrustedClock) {reading later : Int64} (h : reading ≤ later) :
    (clock.trustedAnchor ≤ clock.now reading ∧ clock.now reading ≤ clock.now later) ∧
    (clock.now later).toInt - (clock.now reading).toInt ≤ later.toInt - reading.toInt ∧
    (clock.now reading).toInt =
      clamp64 (clock.trustedAnchor.toInt + clamp64 (max 0 (reading.toInt - clock.localAnchor.toInt))) ∧
    (reading ≤ clock.localAnchor → clock.now reading = clock.trustedAnchor) ∧
    (clock.localAnchor < reading → reading.toInt - clock.localAnchor.toInt ≤ 9223372036854775807 →
      clock.trustedAnchor.toInt + (reading.toInt - clock.localAnchor.toInt) ≤ 9223372036854775807 →
      (clock.now reading).toInt = clock.trustedAnchor.toInt + (reading.toInt - clock.localAnchor.toInt)) ∧
    (∀ anchor < reading, reading.toInt - anchor.toInt ≤ 9223372036854775807 →
      (ofLocal anchor).now reading = reading) ∧
    ∀ readings : List Int64,
      (∀ time ∈ readings.map clock.now, clock.trustedAnchor ≤ time) ∧
      readings.Pairwise (fun earlier next =>
        (clock.now next).toInt - (clock.now earlier).toInt ≤ max 0 (next.toInt - earlier.toInt)) ∧
      forward (readings.map clock.now) ≤ forward readings := by
  have hle := Int64.le_iff_toInt_le.mp h
  refine ⟨⟨clock.trustedAnchor_le_now reading, now_le_now h⟩, ?_, clock.toInt_now reading, now_of_le_localAnchor, ?_, ?_,
    fun readings => ⟨?_, ?_, clock.forward_map_now_le readings⟩⟩
  · have hgain := clock.toInt_now_sub_le reading later
    rwa [Int.max_eq_right (by omega)] at hgain
  · intro hlt hfits hfits'
    exact toInt_now_of_fits (Int64.le_of_lt hlt) hfits hfits'
  · intro anchor hlt hfits
    exact now_ofLocal_of_fits (Int64.le_of_lt hlt) hfits
  · intro time htime
    obtain ⟨reading', -, rfl⟩ := List.mem_map.mp htime
    exact clock.trustedAnchor_le_now reading'
  · exact List.pairwise_of_forall fun earlier next => clock.toInt_now_sub_le earlier next

/-- A clock whose time reaches the end of the words while the local clock goes on, is set back, and goes on again. -/
theorem now_anchored_without_drift_held :
    let clock := ofServer 9223372036854775000 (-9223372036854775808)
    let readings : List Int64 := [0, -9223372036854775808, -9223372036854775708, 5]
    (-9223372036854775708 : Int64) ≤ 0 ∧
      (clock.now (-9223372036854775708) = 9223372036854775100 ∧ clock.now 0 = 9223372036854775807) ∧
      (clock.now 0).toInt - (clock.now (-9223372036854775708)).toInt ≤
        (0 : Int64).toInt - (-9223372036854775708 : Int64).toInt ∧
      (∀ time ∈ readings.map clock.now, clock.trustedAnchor ≤ time) ∧
      forward (readings.map clock.now) = 807 ∧ forward (readings.map clock.now) ≤ forward readings := by
  intro clock readings
  have hle : (-9223372036854775708 : Int64) ≤ 0 := by decide
  obtain ⟨-, hgain, -, -, -, -, hrun⟩ := now_anchored_without_drift clock hle
  obtain ⟨hanchor, -, hforward⟩ := hrun readings
  exact ⟨hle, ⟨by decide, by decide⟩, hgain, hanchor, by decide, hforward⟩

end TrustedClock

end Recurrence
