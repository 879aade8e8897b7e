import Recurrence.Proofs.Search.Run
import Recurrence.Proofs.Selection
import Recurrence.Proofs.Words
import Recurrence.Schedule.Basic

/-!
# The selection on words is the selection over the integers

Instants, times since a match and cycles are words, which wrap or saturate. `Exact.selection` is the selection without them:
the sums and differences are those of the integers, and the last match is the head of the history. A match is not before 1970
and not after the reference, so no difference, and no rounding of it, comes near the end of a word. A shift that saturates
ends far outside of the calendar, where no match is seen from the true sum either. Hence the two selections agree on every
schedule, instant, client and catalog (`Schedule.selection_exact`).
-/

namespace Recurrence

/-! ## The selection over the integers -/

namespace Exact

/-- A candidate that has occurred: its index, its cycle in seconds, and the milliseconds since then. -/
structure Occurred where
  index : Nat
  cycle : Int
  elapsed : Int

/-- The candidates that have occurred by an instant, in order: those with a match in their history. -/
def occurred (candidates : List Candidate) (now : Int) : List Occurred :=
  candidates.zipIdx.filterMap fun (candidate, index) =>
    (candidate.expression.history now).head?.map fun t => ⟨index, candidate.cycle.toNat, now - t⟩

/-- The seconds left of the cycle of the candidate that occurred last, the first of them on a tie, and its index. When none
has occurred, the first has its full cycle. -/
def selection (candidates : List Candidate) (now : Int) : Int × Nat :=
  match (occurred candidates now).minOn? Occurred.elapsed, candidates with
  | some last, _ => (max 0 (last.cycle - (last.elapsed + 500) / 1000), last.index)
  | none, first :: _ => (first.cycle.toNat, 0)
  | none, [] => (0, 0)

/-- A candidate that has occurred, with its words as integers. -/
def Occurred.ofWords (o : Selection.Occurred) : Occurred :=
  ⟨o.index, o.cycle.toNat, o.elapsed.toNat⟩

end Exact

/-! ## Words in the search -/

/-- Words carry what is done with the last match: the difference to it does not wrap and is not negative, so that the time
since then is this difference, and rounding that does not wrap either. -/
theorem Expression.LastMatch.words {e : Expression} {now : Int64} {t : Int} (h : e.LastMatch now.toInt t) :
    t ≤ now.toInt ∧ (now - Int64.ofInt t).toInt = now.toInt - t ∧
      e.elapsed? now = some (now - Int64.ofInt t).toUInt64 ∧
      ((now - Int64.ofInt t).toUInt64 + 500).toNat = (now.toInt - t).toNat + 500 := by
  have hnonneg := h.2.1.1.nonneg
  have hle := h.2.1.2
  have hnow := Int64.toInt_lt now
  have hinstant : (Int64.ofInt t).toInt = t := Int64.toInt_ofInt_of_le (by omega) (by omega)
  have hsub : (now - Int64.ofInt t).toInt = now.toInt - t := by
    rw [toInt_sub_of_fits (by omega) (by omega), hinstant]
  have hword : (now - Int64.ofInt t).toUInt64 = UInt64.ofNat (now.toInt - t).toNat := by
    rw [toUInt64_of_nonneg (by omega), hsub]
  refine ⟨hle, hsub, ?_, ?_⟩
  · rw [hword, elapsed?, (e.latestInstant?_eq_some_iff now.toInt t).mpr h, Option.map_some]
  · rw [hword, UInt64.toNat_add, toNat_ofNat_sub_of_lastMatch h]
    show ((now.toInt - t).toNat + 500) % 18446744073709551616 = _
    omega

/-! ## Words in the choice -/

/-- The least of a list may be looked for after each member was replaced, when the order is kept. -/
theorem minOn?_map_of_le_iff {α β γ δ : Type} [LE γ] [DecidableLE γ] [Std.IsLinearPreorder γ] [LE δ] [DecidableLE δ]
    [Std.IsLinearPreorder δ] {f : α → β} {g : β → γ} {h : α → δ} (hle : ∀ a b, g (f a) ≤ g (f b) ↔ h a ≤ h b) (xs : List α) :
    (xs.map f).minOn? g = (xs.minOn? h).map f := by
  induction xs with
  | nil => rfl
  | cons x xs ih =>
    rw [List.map_cons, List.minOn?_cons, List.minOn?_cons, ih, Option.map_some]
    cases xs.minOn? h with
    | none => rfl
    | some y =>
      simp only [Option.map_some, Option.elim_some, minOn_eq_if, hle]
      split <;> rfl

namespace Selection

/-- The same candidates have occurred, with the same times since then. -/
theorem map_ofWords_occurred (candidates : List Candidate) (now : Int64) :
    (occurred candidates now).map Exact.Occurred.ofWords = Exact.occurred candidates now.toInt := by
  unfold occurred Exact.occurred
  rw [List.map_filterMap]
  congr 1
  funext ⟨c, i⟩
  simp only [Expression.elapsed?, ← Expression.latestInstant?_eq_head?, Option.map_map]
  cases hfound : c.expression.latestInstant? now.toInt with
  | none => rfl
  | some t =>
    have hlast := (c.expression.latestInstant?_eq_some_iff now.toInt t).mp hfound
    have hle := hlast.2.1.2
    simp only [Option.map_some, Function.comp_apply, Exact.Occurred.ofWords,
      Expression.toNat_ofNat_sub_of_lastMatch hlast]
    rw [Int.toNat_of_nonneg (by omega)]

/-- The selection at a word is the one over the integers. -/
theorem ofCandidates_exact (candidates : List Candidate) (now : Int64) :
    (((ofCandidates candidates now).remaining.toNat : Int), (ofCandidates candidates now).index) =
      Exact.selection candidates now.toInt := by
  have hleast : (Exact.occurred candidates now.toInt).minOn? Exact.Occurred.elapsed =
      (latest? candidates now).map Exact.Occurred.ofWords := by
    rw [← map_ofWords_occurred]
    refine minOn?_map_of_le_iff (fun o o' => ?_) _
    rw [UInt64.le_iff_toNat_le]
    exact Int.ofNat_le
  unfold Exact.selection ofCandidates
  rw [hleast]
  cases hlatest : latest? candidates now with
  | none => cases candidates <;> rfl
  | some o =>
    have hmem : o ∈ occurred candidates now := List.minOn?_mem hlatest
    simp only [Option.map_some, Exact.Occurred.ofWords, toNat_monus, toNat_roundToSeconds_of_mem hmem, Prod.mk.injEq,
      and_true]
    omega

end Selection

/-! ## Words in the shift -/

/-- An instant is its own clamped one, unless it lies beyond the words: then the calendar covers neither of them. -/
theorem clamp64_eq_or (now : Int) : clamp64 now = now ∨ ¬InCalendar now ∧ ¬InCalendar (clamp64 now) := by
  simp only [clamp64, InCalendar]
  omega

namespace Exact

/-- Where the calendar does not cover the instant, no candidate has occurred. -/
theorem occurred_of_not_inCalendar (candidates : List Candidate) {now : Int} (h : ¬InCalendar now) :
    occurred candidates now = [] := by
  have hnone : ∀ e : Expression, e.history now = [] := by
    intro e
    exact e.history_eq_nil (by rw [Expression.latestInstant?, if_neg h])
  simp [occurred, hnone]

/-- The selection is the same at the end of the words as at an instant beyond it. -/
theorem selection_clamp64 (candidates : List Candidate) (now : Int) :
    selection candidates (clamp64 now) = selection candidates now := by
  rcases clamp64_eq_or now with heq | ⟨hnow, hclamp⟩
  · rw [heq]
  · simp only [selection, occurred_of_not_inCalendar candidates hnow, occurred_of_not_inCalendar candidates hclamp]

end Exact

namespace Schedule

/-- An offset in milliseconds is a word. -/
theorem toInt_offset (offset : Int32) : (offset.toInt64 * 60000).toInt = 60000 * offset.toInt := by
  have hlow := Int32.le_toInt offset
  have hhigh := Int32.toInt_lt offset
  have hminute : (60000 : Int64).toInt = 60000 := by decide
  have hproduct : offset.toInt64.toInt * (60000 : Int64).toInt = 60000 * offset.toInt := by
    rw [Int32.toInt_toInt64, hminute, Int.mul_comm]
  rw [toInt_mul_of_fits (by omega) (by omega), hproduct]

/-- A shifted instant is the true sum, clamped. -/
theorem toInt_shift (now : Int64) (offset : Int32) :
    (shift now offset).toInt = clamp64 (now.toInt + 60000 * offset.toInt) := by
  rw [shift, toInt_satAdd, toInt_offset]

/-- The arithmetic of a selection is exact, for every schedule, instant, client and catalog, in four parts.
1. The selection is the one over the integers, at the true sum of the instant and the offset.
2. The offset in milliseconds does not wrap.
3. The shifted instant is the true sum, unless the calendar covers neither of them.
4. The last match of a candidate is not after the shifted instant. The difference between them does not wrap, it is the time
   since then as it stands, and adding half a second to it does not wrap. -/
theorem selection_exact (schedule : Schedule) (now : Int64) (client : Int32) (catalog : Offset.Catalog) :
    let offset := Offset.resolve schedule.offset client catalog
    let sum := now.toInt + 60000 * offset.toInt
    let shifted := shift now offset
    (((schedule.selection now client catalog).remaining.toNat : Int), (schedule.selection now client catalog).index) =
        Exact.selection schedule.candidates sum ∧
      (offset.toInt64 * 60000).toInt = 60000 * offset.toInt ∧
      (shifted.toInt = sum ∨ ¬InCalendar sum ∧ ¬InCalendar shifted.toInt) ∧
      ∀ c ∈ schedule.candidates, ∀ t, c.expression.LastMatch shifted.toInt t →
        t ≤ shifted.toInt ∧ (shifted - Int64.ofInt t).toInt = shifted.toInt - t ∧
          c.expression.elapsed? shifted = some (shifted - Int64.ofInt t).toUInt64 ∧
          ((shifted - Int64.ofInt t).toUInt64 + 500).toNat = (shifted.toInt - t).toNat + 500 := by
  intro offset sum shifted
  have hshifted : shifted.toInt = clamp64 sum := toInt_shift now offset
  refine ⟨?_, toInt_offset offset, ?_, ?_⟩
  · rw [selection, Selection.ofCandidates_exact, ← Exact.selection_clamp64 schedule.candidates sum, ← hshifted]
  · rw [hshifted]
    exact clamp64_eq_or sum
  · intro c _ t hlast
    exact hlast.words

end Schedule

end Recurrence
