import Mathlib.Data.List.ReduceOption
import Mathlib.Data.Set.Card
import Recurrence.Proofs.Search.LatestInstant
import Recurrence.Proofs.Words

/-!
# A run of searches finds every match once

No match is before 1970, so the matches up to an instant can be listed, the latest first: this is the history of the instant
(`Expression.history`). One search finds the head of this list, and the rest of it is the history of a millisecond before that
match (`Expression.history_of_lastMatch`). So a run of searches goes through the list from its head, a search for each member,
and finds nothing once the list has ended (`Expression.read_searches_enumerate`).
-/

namespace Recurrence.Expression

/-! ## The history of an instant -/

/-- The matches before a number of milliseconds from the start of 1970, the latest first. -/
def matchesBelow (e : Expression) (millis : Nat) : List Int :=
  ((List.range millis).reverse.map Int.ofNat).filter fun t => e.Matches t

/-- The matches up to an instant, the latest first. An instant that the calendar does not cover has none. -/
def history (e : Expression) (now : Int) : List Int :=
  if InCalendar now then e.matchesBelow (now + 1).toNat else []

variable {e : Expression} {now t : Int}

/-- The matches before a number of milliseconds are listed. -/
theorem mem_matchesBelow {millis : Nat} : t ∈ e.matchesBelow millis ↔ e.Matches t ∧ t < millis := by
  unfold matchesBelow
  rw [List.mem_filter, List.mem_map, decide_eq_true_eq]
  simp only [List.mem_reverse, List.mem_range]
  constructor
  · rintro ⟨⟨n, hn, rfl⟩, hmatch⟩
    exact ⟨hmatch, Int.ofNat_lt.mpr hn⟩
  · rintro ⟨hmatch, hlt⟩
    have hnonneg := hmatch.nonneg
    exact ⟨⟨t.toNat, by omega, Int.toNat_of_nonneg hnonneg⟩, hmatch⟩

/-- They are listed backwards. -/
theorem pairwise_matchesBelow (e : Expression) (millis : Nat) : (e.matchesBelow millis).Pairwise (· > ·) := by
  refine List.Pairwise.filter _ (List.pairwise_map.mpr (List.pairwise_reverse.mpr ?_))
  exact List.pairwise_lt_range.imp fun hlt => Int.ofNat_lt.mpr hlt

/-- A millisecond more begins the list if it matches, and is left out otherwise. -/
theorem matchesBelow_succ (e : Expression) (millis : Nat) :
    e.matchesBelow (millis + 1) =
      if e.Matches millis then (millis : Int) :: e.matchesBelow millis else e.matchesBelow millis := by
  unfold matchesBelow
  rw [List.range_succ, List.reverse_append, List.reverse_singleton, List.singleton_append, List.map_cons, List.filter_cons]
  simp only [Int.ofNat_eq_natCast, decide_eq_true_eq]

/-- Milliseconds that do not match add nothing to the list. -/
theorem matchesBelow_add (millis more : Nat)
    (hquiet : ∀ t : Int, millis ≤ t → t < millis + more → ¬e.Matches t) :
    e.matchesBelow (millis + more) = e.matchesBelow millis := by
  induction more with
  | zero => rfl
  | succ more ih =>
    have hnot : ¬e.Matches ((millis + more : Nat) : Int) := hquiet _ (by omega) (by omega)
    rw [← Nat.add_assoc, matchesBelow_succ, if_neg hnot]
    exact ih fun t hle hlt => hquiet t hle (by omega)

/-- The history holds the matches up to the instant, and nothing outside of the calendar. -/
theorem mem_history : t ∈ e.history now ↔ InCalendar now ∧ e.Matches t ∧ t ≤ now := by
  unfold history
  by_cases hnow : InCalendar now
  · rw [if_pos hnow, mem_matchesBelow]
    constructor
    · rintro ⟨hmatch, hlt⟩
      exact ⟨hnow, hmatch, by have := hmatch.nonneg; omega⟩
    · rintro ⟨-, hmatch, hle⟩
      exact ⟨hmatch, by omega⟩
  · rw [if_neg hnow]
    simp [hnow]

/-- The history goes back from the latest match, and names none twice. -/
theorem pairwise_history (e : Expression) (now : Int) : (e.history now).Pairwise (· > ·) := by
  unfold history
  split
  · exact e.pairwise_matchesBelow _
  · exact List.Pairwise.nil

/-- The history begins with the last match, and goes on with the history of a millisecond before. -/
theorem history_of_lastMatch (h : e.LastMatch now t) : e.history now = t :: e.history (t - 1) := by
  obtain ⟨hnow, ⟨hmatch, hle⟩, hgreatest⟩ := h
  have hnonneg := hmatch.nonneg
  have hbefore : InCalendar (t - 1) := by
    simp only [InCalendar] at hnow ⊢
    omega
  have hquiet : ∀ t' : Int, (t.toNat + 1 : Nat) ≤ t' → t' < (t.toNat + 1 : Nat) + (now - t).toNat → ¬e.Matches t' := by
    intro t' hlt hle' hmatch'
    have := hgreatest ⟨hmatch', by omega⟩
    omega
  -- Up to the last match, the match itself, and the quiet time after it.
  have hsplit : (now + 1).toNat = t.toNat + 1 + (now - t).toNat := by omega
  have hself : ((t.toNat : Nat) : Int) = t := Int.toNat_of_nonneg hnonneg
  rw [history, history, if_pos hnow, if_pos hbefore, hsplit, matchesBelow_add _ _ hquiet, matchesBelow_succ, hself,
    if_pos hmatch, Int.sub_add_cancel]

/-- The history is empty where there is no last match to begin it. -/
theorem history_eq_nil (h : e.latestInstant? now = none) : e.history now = [] := by
  rw [List.eq_nil_iff_forall_not_mem]
  intro t ht
  obtain ⟨hnow, hmatch, hle⟩ := mem_history.mp ht
  exact (e.latestInstant?_eq_none_iff now).mp h ⟨hnow, t, hmatch, hle⟩

/-- A search finds the head of the history. -/
theorem latestInstant?_eq_head? (e : Expression) (now : Int) : e.latestInstant? now = (e.history now).head? := by
  cases hfound : e.latestInstant? now with
  | none => rw [history_eq_nil hfound, List.head?_nil]
  | some t => rw [history_of_lastMatch ((e.latestInstant?_eq_some_iff now t).mp hfound), List.head?_cons]

/-! ## Runs of searches -/

/-- The occurrences that are listed are the latest matches. -/
theorem latestInstants_eq_take (e : Expression) (now : Int) (count : Nat) :
    e.latestInstants now count = (e.history now).take count := by
  induction count generalizing now with
  | zero => rw [latestInstants, List.take_zero]
  | succ count ih =>
    rw [latestInstants]
    cases hfound : e.latestInstant? now with
    | none => rw [history_eq_nil hfound, List.take_nil]
    | some t =>
      rw [history_of_lastMatch ((e.latestInstant?_eq_some_iff now t).mp hfound), List.take_succ_cons, ← ih]

/-- The instant that a search finds is a word, and so is the instant a millisecond before. -/
theorem toInt_instant_of_elapsed? {now : Int64} {elapsed : UInt64} (h : e.elapsed? now = some elapsed) :
    (now - elapsed.toInt64).toInt = now.toInt - elapsed.toNat ∧
      (now - elapsed.toInt64 - 1).toInt = now.toInt - elapsed.toNat - 1 := by
  have hmatch := ((e.elapsed?_eq_some_iff now elapsed).mp h).2.1.1.nonneg
  have hnow := Int64.toInt_lt now
  have helapsed : elapsed.toInt64.toInt = elapsed.toNat := toInt_toInt64_of_fits (by omega)
  have hinstant : (now - elapsed.toInt64).toInt = now.toInt - elapsed.toNat := by
    rw [toInt_sub_of_fits (by omega) (by omega), helapsed]
  have hone : (1 : Int64).toInt = 1 := by decide
  refine ⟨hinstant, ?_⟩
  rw [toInt_sub_of_fits (by omega) (by omega), hinstant, hone]

/-- The searches of a run find the history, one match each and the latest first, and then nothing. -/
theorem searches_eq_take (e : Expression) (now : Int64) (count : Nat) :
    (e.searches now count).map (Option.map Int64.toInt) = ((e.history now.toInt).map some ++ [none]).take count := by
  induction count generalizing now with
  | zero => rw [searches, List.take_zero, List.map_nil]
  | succ count ih =>
    rw [searches]
    cases hfound : e.elapsed? now with
    | none =>
      have hnil : e.history now.toInt = [] := history_eq_nil (Option.map_eq_none_iff.mp hfound)
      rw [hnil]
      simp
    | some elapsed =>
      obtain ⟨hinstant, hbefore⟩ := toInt_instant_of_elapsed? hfound
      have hhistory := history_of_lastMatch ((e.elapsed?_eq_some_iff now elapsed).mp hfound)
      rw [hhistory, List.map_cons, List.map_cons, ih, hbefore, Option.map_some, hinstant, List.cons_append,
        List.take_succ_cons]

/-- What the searches of a run find is the latest part of the history. -/
theorem reduceOption_searches (e : Expression) (now : Int64) (count : Nat) :
    (e.searches now count).reduceOption.map Int64.toInt = (e.history now.toInt).take count := by
  have hnone : ∀ n : Nat, (([none] : List (Option Int)).take n).reduceOption = [] := by
    intro n
    cases n <;> simp
  rw [← List.reduceOption_map, searches_eq_take, List.take_append, List.reduceOption_append, hnone, List.append_nil,
    ← List.map_take, List.reduceOption, List.filterMap_map]
  exact List.filterMap_some

/-- In the calendar, the history has as many members as there are matches from 1970 up to the instant. -/
theorem length_history (hnow : InCalendar now) :
    (e.history now).length = {t | e.Matches t ∧ 0 ≤ t ∧ t ≤ now}.ncard := by
  -- No match is before 1970, so that the lower end of the interval leaves none out.
  have hset : {t | e.Matches t ∧ 0 ≤ t ∧ t ≤ now} = ↑(e.history now).toFinset := by
    ext t
    rw [Set.mem_ofPred_eq, Finset.mem_coe, List.mem_toFinset, mem_history]
    constructor
    · intro h
      exact ⟨hnow, h.1, h.2.2⟩
    · intro h
      exact ⟨h.2.1, h.2.1.nonneg, h.2.2⟩
  have hnodup : (e.history now).Nodup := (e.pairwise_history now).imp fun hgt => Int.ne_of_gt hgt
  rw [hset, Set.ncard_coe_finset, List.toFinset_card_of_nodup hnodup]

/-- The run of searches for the expression that any text stands for, from any start, in five parts.
1. The searches find the history of the start, one match each and the latest first, and once it has ended nothing.
2. The history goes strictly back, so no match is found twice.
3. From a start in the calendar the history holds every match from 1970 up to the start, and no other instant.
4. So a run finds as many matches as there are, or as it has searches if these are fewer.
5. From a start that the calendar does not cover, the first search finds nothing and the run ends. -/
theorem read_searches_enumerate (text : String) (start : Int64) (count : Nat) :
    ((read text).searches start count).map (Option.map Int64.toInt) =
        (((read text).history start.toInt).map some ++ [none]).take count ∧
      ((read text).history start.toInt).Pairwise (· > ·) ∧
      (InCalendar start.toInt →
        ∀ t, t ∈ (read text).history start.toInt ↔ (read text).Matches t ∧ 0 ≤ t ∧ t ≤ start.toInt) ∧
      (InCalendar start.toInt →
        ((read text).searches start count).reduceOption.length =
          min count {t | (read text).Matches t ∧ 0 ≤ t ∧ t ≤ start.toInt}.ncard) ∧
      (¬InCalendar start.toInt → (read text).searches start (count + 1) = [none]) := by
  refine ⟨(read text).searches_eq_take start count, (read text).pairwise_history start.toInt, ?_, ?_, ?_⟩
  · intro hstart t
    rw [mem_history]
    constructor
    · intro h
      exact ⟨h.2.1, h.2.1.nonneg, h.2.2⟩
    · intro h
      exact ⟨hstart, h.1, h.2.2⟩
  · intro hstart
    have hfound := congrArg List.length ((read text).reduceOption_searches start count)
    rw [List.length_map, List.length_take] at hfound
    rw [hfound, length_history hstart]
  · intro hstart
    have hmiss : (read text).elapsed? start = none := by
      rw [elapsed?, latestInstant?, if_neg hstart, Option.map_none]
    rw [searches, hmiss]

end Recurrence.Expression
