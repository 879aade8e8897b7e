import Recurrence.Proofs.Countdown
import Recurrence.Proofs.Schedule.Exact

/-!
# A kept countdown agrees with a fresh selection

While no candidate matches, the candidate that matched most recently stays the same (`Selection.IsMostRecent.later`), and so a
selection goes on to choose it. A countdown that was begun before and is kept meanwhile then shows what a fresh selection
shows, or one second more. The difference is one of rounding: the selection rounds the time since the match half up, and
the countdown cuts the time since its beginning to whole seconds (`Schedule.left_countdown_of_no_match`).
-/

namespace Recurrence

namespace Schedule

/-! ## The instants that a schedule asks for -/

/-- The instant at which the candidates are asked, for a client's offset. -/
def reference (schedule : Schedule) (now : Int64) (client : Int32) (catalog : Offset.Catalog) : Int64 :=
  shift now (Offset.resolve schedule.offset client catalog)

/-- A reference that the calendar covers is the true sum of the instant and the offset. -/
theorem toInt_reference {schedule : Schedule} {now : Int64} {client : Int32} {catalog : Offset.Catalog}
    (h : InCalendar (schedule.reference now client catalog).toInt) :
    (schedule.reference now client catalog).toInt =
      now.toInt + 60000 * (Offset.resolve schedule.offset client catalog).toInt := by
  rw [reference, toInt_shift] at h ⊢
  rcases clamp64_eq_or (now.toInt + 60000 * (Offset.resolve schedule.offset client catalog).toInt) with heq | ⟨-, hn⟩
  · exact heq
  · exact absurd h hn

/-- From one local reading to a later one the reference goes on by the time between them. -/
theorem toInt_reference_later {schedule : Schedule} {client : Int32} {catalog : Offset.Catalog} {clock : TrustedClock}
    {reading later : Int64} (hanchor : clock.localAnchor ≤ reading) (hle : reading ≤ later)
    (hfits : later.toInt - clock.localAnchor.toInt ≤ 9223372036854775807)
    (hfits' : clock.trustedAnchor.toInt + (later.toInt - clock.localAnchor.toInt) ≤ 9223372036854775807)
    (hfrom : InCalendar (schedule.reference (clock.now reading) client catalog).toInt)
    (hto : InCalendar (schedule.reference (clock.now later) client catalog).toInt) :
    (schedule.reference (clock.now later) client catalog).toInt =
      (schedule.reference (clock.now reading) client catalog).toInt + (later.toInt - reading.toInt) := by
  have hle' := Int64.le_iff_toInt_le.mp hle
  rw [toInt_reference hfrom, toInt_reference hto, TrustedClock.toInt_now_of_fits (Int64.le_trans hanchor hle) hfits hfits',
    TrustedClock.toInt_now_of_fits hanchor (by omega) (by omega)]
  omega

/-! ## Kept and fresh -/

/-- A countdown that is kept shows what a fresh selection shows, or one second more, and the selection still chooses the same
candidate. This holds from a local reading that is not before the anchor of the clock up to a later one, where no clock
reading is beyond the words, the calendar covers both references, a candidate has matched by the first of them, and none
matches from then on. -/
theorem left_countdown_of_no_match (schedule : Schedule) (catalog : Offset.Catalog) (client : Int32) (clock : TrustedClock)
    (reading later : Int64) (hanchor : clock.localAnchor ≤ reading) (hle : reading ≤ later)
    (hfits : later.toInt - clock.localAnchor.toInt ≤ 9223372036854775807)
    (hfits' : clock.trustedAnchor.toInt + (later.toInt - clock.localAnchor.toInt) ≤ 9223372036854775807)
    (hfrom : InCalendar (schedule.reference (clock.now reading) client catalog).toInt)
    (hto : InCalendar (schedule.reference (clock.now later) client catalog).toInt)
    (hmatched : ∃ c ∈ schedule.candidates, ∃ t ≤ (schedule.reference (clock.now reading) client catalog).toInt,
      c.expression.Matches t)
    (hquiet : ∀ c ∈ schedule.candidates, ∀ t, (schedule.reference (clock.now reading) client catalog).toInt < t →
      t ≤ (schedule.reference (clock.now reading) client catalog).toInt + (later.toInt - reading.toInt) →
      ¬c.expression.Matches t) :
    let kept := (schedule.countdown clock reading client catalog).left later
    let fresh := schedule.selection (clock.now later) client catalog
    fresh.index = (schedule.selection (clock.now reading) client catalog).index ∧
      fresh.remaining ≤ kept ∧ kept.toNat ≤ fresh.remaining.toNat + 1 := by
  intro kept fresh
  have hanchor' := Int64.le_iff_toInt_le.mp hanchor
  have hle' := Int64.le_iff_toInt_le.mp hle
  have hlater := toInt_reference_later hanchor hle hfits hfits' hfrom hto
  obtain ⟨i, c, t, hrecent⟩ := Selection.exists_isMostRecent hfrom hmatched
  have hstill : Selection.IsMostRecent schedule.candidates
      (schedule.reference (clock.now later) client catalog).toInt i c t := by
    refine hrecent.later hto (by omega) ?_
    rw [hlater]
    exact hquiet
  obtain ⟨hindex, hbegun⟩ := Selection.ofCandidates_of_isMostRecent hrecent
  obtain ⟨hindex', hfresh⟩ := Selection.ofCandidates_of_isMostRecent hstill
  have hpast := hrecent.lastMatch.2.1.2
  -- Kept: the time up to the first reference is rounded half up, and the time from then on is cut to whole seconds.
  have hkept : kept.toNat = (c.cycle.toNat -
      (((schedule.reference (clock.now reading) client catalog).toInt - t + 500) / 1000).toNat) -
        ((later.toInt - reading.toInt) / 1000).toNat := by
    rw [← hbegun]
    exact Countdown.toNat_left_of_fits hle (by show later.toInt - reading.toInt ≤ _; omega)
  -- Fresh: all the time since the same match is rounded at once.
  have hfresh' : fresh.remaining.toNat = c.cycle.toNat -
      (((schedule.reference (clock.now reading) client catalog).toInt - t + (later.toInt - reading.toInt) + 500) /
        1000).toNat := by
    rw [show fresh = Selection.ofCandidates schedule.candidates (schedule.reference (clock.now later) client catalog) from rfl,
      hfresh, hlater]
    congr 3
    omega
  refine ⟨hindex'.trans hindex.symm, ?_, ?_⟩
  · rw [UInt64.le_iff_toNat_le]
    omega
  · omega

end Schedule

/-! ## The second more -/

/-- The expression that matches once a day, at a full hour. -/
def Expression.daily (hour : Nat) : Expression :=
  .ofFields fun
    | .second | .minute => .singleton 0
    | .hour => .singleton hour
    | f => .progression f.min f.max 1

/-- Two cycles that begin at midnight and at noon, in the client's own offset. -/
def Schedule.twiceDaily : Schedule :=
  ⟨[⟨.daily 0, 43200⟩, ⟨.daily 12, 43200⟩], "auto"⟩

/-- The second more is seen from the first instants of a second to the last ones of the next. The client is an hour east of
UTC, its clock is ten minutes behind, and it is two hours and 0.3 seconds after noon when the countdown begins. -/
theorem Schedule.left_countdown_of_no_match_one_more :
    let clock := TrustedClock.ofServer 1710507600000 1710507000000
    let kept := (twiceDaily.countdown clock 1710507000300 60 .empty).left 1710507001700
    let fresh := twiceDaily.selection (clock.now 1710507001700) 60 .empty
    kept = 35999 ∧ fresh = ⟨35998, 1⟩ ∧ fresh.index = (twiceDaily.selection (clock.now 1710507000300) 60 .empty).index ∧
      fresh.remaining ≤ kept ∧ kept.toNat ≤ fresh.remaining.toNat + 1 := by
  intro clock kept fresh
  have hfrom : (twiceDaily.reference (clock.now 1710507000300) 60 .empty).toInt = 1710511200300 := by decide
  have hto : (twiceDaily.reference (clock.now 1710507001700) 60 .empty).toInt = 1710511201700 := by decide
  refine ⟨by decide, by decide, left_countdown_of_no_match twiceDaily .empty 60 clock 1710507000300 1710507001700
    (by decide) (by decide) (by decide) (by decide) (by rw [hfrom]; decide) (by rw [hto]; decide) ?_ ?_⟩
  · rw [hfrom]
    exact ⟨⟨.daily 12, 43200⟩, by simp [twiceDaily], 1710504000000, by decide, by decide⟩
  · rw [hfrom]
    intro c hc t hlt hle hmatch
    have hpassed : (1710507001700 : Int64).toInt - (1710507000300 : Int64).toInt = 1400 := by decide
    have hsecond := hmatch.1
    have ht : t = 1710511201000 := by omega
    subst ht
    revert c
    decide

end Recurrence
