import Recurrence.Proofs.Search.LatestInstant
import Recurrence.Schedule.Selection

/-!
# The selection is the most recent candidate

The candidates that have occurred are listed with their indices, in ascending order, and with the time since they occurred.
The least of these times, the first of them on a tie, belongs to the candidate whose last match is the greatest, and so the
selection is the candidate that matched most recently (`Selection.ofCandidates_most_recent`). A candidate that never matched
is not listed, and does not shift the indices of the others.
-/

namespace Recurrence.Selection

/-! ## The candidates that have occurred -/

/-- A candidate is listed exactly if it has a last match, with its index, its cycle and the time since then. -/
theorem mem_occurred {candidates : List Candidate} {now : Int64} {o : Occurred} :
    o ∈ occurred candidates now ↔
      ∃ c, candidates[o.index]? = some c ∧ o.cycle = c.cycle ∧
        c.expression.LastMatch now.toInt (now.toInt - o.elapsed.toNat) := by
  unfold occurred
  rw [List.mem_filterMap]
  constructor
  · intro h
    obtain ⟨⟨c, i⟩, hmem, hsome⟩ := h
    obtain ⟨elapsed, helapsed, rfl⟩ := Option.map_eq_some_iff.mp hsome
    exact ⟨c, List.mk_mem_zipIdx_iff_getElem?.mp hmem, rfl, (c.expression.elapsed?_eq_some_iff now elapsed).mp helapsed⟩
  · intro h
    obtain ⟨c, hc, hcycle, hlast⟩ := h
    refine ⟨(c, o.index), List.mk_mem_zipIdx_iff_getElem?.mpr hc, ?_⟩
    show (c.expression.elapsed? now).map (Occurred.mk o.index c.cycle) = some o
    rw [(c.expression.elapsed?_eq_some_iff now o.elapsed).mpr hlast, ← hcycle]
    rfl

/-- The indices of the listed candidates ascend. -/
theorem pairwise_occurred (candidates : List Candidate) (now : Int64) :
    (occurred candidates now).Pairwise fun o o' => o.index < o'.index := by
  have hindex : (candidates.zipIdx).Pairwise fun p p' => p.2 < p'.2 := by
    have hrange := List.pairwise_lt_range' (s := 0) (n := candidates.length) 1
    rw [← List.zipIdx_map_snd 0 candidates, List.pairwise_map] at hrange
    exact hrange
  refine List.Pairwise.filterMap _ ?_ hindex
  intro p p' hlt o ho o' ho'
  obtain ⟨elapsed, -, rfl⟩ := Option.map_eq_some_iff.mp ho
  obtain ⟨elapsed', -, rfl⟩ := Option.map_eq_some_iff.mp ho'
  exact hlt

/-- The least of a list with ascending indices is in it, has no greater time than any other, and the lowest index among
those of the same time. -/
theorem minOn?_spec {os : List Occurred} (hasc : os.Pairwise fun o o' => o.index < o'.index) {o : Occurred}
    (h : os.minOn? Occurred.elapsed = some o) :
    o ∈ os ∧ ∀ o' ∈ os, o.elapsed ≤ o'.elapsed ∧ (o'.elapsed = o.elapsed → o.index ≤ o'.index) := by
  induction os generalizing o with
  | nil => cases h
  | cons first rest ih =>
    obtain ⟨hfirst, hrest⟩ := List.pairwise_cons.mp hasc
    rw [List.minOn?_cons, Option.some.injEq] at h
    cases hr : rest.minOn? Occurred.elapsed with
    | none =>
      have hnil : rest = [] := by
        by_contra hne
        have := List.isSome_minOn?_iff (f := Occurred.elapsed).mpr hne
        rw [hr] at this
        cases this
      rw [hr] at h
      subst hnil
      subst h
      refine ⟨List.mem_cons_self, fun o' ho' => ?_⟩
      rw [List.mem_singleton] at ho'
      subst ho'
      exact ⟨UInt64.le_refl _, fun _ => Nat.le_refl _⟩
    | some best =>
      obtain ⟨hmem, hbest⟩ := ih hrest hr
      rw [hr] at h
      simp only [Option.elim_some, minOn] at h
      split at h
      · next hle =>
        subst h
        refine ⟨List.mem_cons_self, fun o' ho' => ?_⟩
        rcases List.mem_cons.mp ho' with rfl | ho'
        · exact ⟨UInt64.le_refl _, fun _ => Nat.le_refl _⟩
        · exact ⟨UInt64.le_trans hle (hbest o' ho').1, fun _ => Nat.le_of_lt (hfirst o' ho')⟩
      · next hlt =>
        subst h
        refine ⟨List.mem_cons_of_mem _ hmem, fun o' ho' => ?_⟩
        rcases List.mem_cons.mp ho' with rfl | ho'
        · rw [UInt64.not_le] at hlt
          exact ⟨UInt64.le_of_lt hlt, fun heq => absurd heq.symm (UInt64.ne_of_lt hlt)⟩
        · exact hbest o' ho'

/-! ## The most recent candidate -/

/-- The candidate `c` at index `i` matched most recently, at `t`: no other has a later last match, and none at a lower index
has the same. -/
structure IsMostRecent (candidates : List Candidate) (now : Int) (i : Nat) (c : Candidate) (t : Int) : Prop where
  candidate : candidates[i]? = some c
  lastMatch : c.expression.LastMatch now t
  latest : ∀ (j : Nat) (c' : Candidate) (t' : Int), candidates[j]? = some c' → c'.expression.LastMatch now t' → t' ≤ t
  first : ∀ (j : Nat) (c' : Candidate), candidates[j]? = some c' → c'.expression.LastMatch now t → i ≤ j

namespace IsMostRecent

variable {candidates : List Candidate} {now : Int} {i : Nat} {c : Candidate} {t : Int}

/-- No candidate matches after the most recent one. -/
theorem not_matches_later (h : IsMostRecent candidates now i c t) {j : Nat} {c' : Candidate}
    (hc' : candidates[j]? = some c') {t' : Int} (hlt : t < t') (hle : t' ≤ now) : ¬c'.expression.Matches t' := by
  intro hmatch
  obtain ⟨t'', hlast, hge⟩ := Expression.exists_lastMatch h.lastMatch.1 hmatch hle
  have := h.latest j c' t'' hc' hlast
  omega

/-- No candidate at a lower index matches together with the most recent one. -/
theorem not_matches_of_lt (h : IsMostRecent candidates now i c t) {j : Nat} {c' : Candidate}
    (hc' : candidates[j]? = some c') (hlt : j < i) : ¬c'.expression.Matches t := by
  intro hmatch
  obtain ⟨t', hlast, hge⟩ := Expression.exists_lastMatch h.lastMatch.1 hmatch h.lastMatch.2.1.2
  have hle := h.latest j c' t' hc' hlast
  have heq : t' = t := by omega
  subst heq
  have := h.first j c' hc' hlast
  omega

/-- Only one candidate is the most recent one. -/
theorem unique (h : IsMostRecent candidates now i c t) {j : Nat} {c' : Candidate} {t' : Int}
    (h' : IsMostRecent candidates now j c' t') : i = j ∧ c = c' ∧ t = t' := by
  have ht : t = t' := Int.le_antisymm (h'.latest i c t h.candidate h.lastMatch) (h.latest j c' t' h'.candidate h'.lastMatch)
  subst ht
  have hi : i = j := Nat.le_antisymm (h.first j c' h'.candidate h'.lastMatch) (h'.first i c h.candidate h.lastMatch)
  subst hi
  have hc := h.candidate.symm.trans h'.candidate
  rw [Option.some.injEq] at hc
  exact ⟨rfl, hc, rfl⟩

/-- The most recent candidate is still the most recent one later on, if no candidate matches until then. -/
theorem later {later : Int} (h : IsMostRecent candidates now i c t) (hlater : InCalendar later) (hle : now ≤ later)
    (hquiet : ∀ c ∈ candidates, ∀ t, now < t → t ≤ later → ¬c.expression.Matches t) :
    IsMostRecent candidates later i c t := by
  have hsame : ∀ (j : Nat) (c' : Candidate) (t' : Int), candidates[j]? = some c' →
      (c'.expression.LastMatch later t' ↔ c'.expression.LastMatch now t') := by
    intro j c' t' hc'
    exact Expression.lastMatch_iff_of_no_match h.lastMatch.1 hlater hle (hquiet c' (List.mem_of_getElem? hc'))
  refine ⟨h.candidate, (hsame i c t h.candidate).mpr h.lastMatch, ?_, ?_⟩
  · intro j c' t' hc' hlast
    exact h.latest j c' t' hc' ((hsame j c' t' hc').mp hlast)
  · intro j c' hc' hlast
    exact h.first j c' hc' ((hsame j c' t hc').mp hlast)

end IsMostRecent

/-- A candidate without others is the most recent one when it has matched. -/
theorem isMostRecent_singleton {c : Candidate} {now t : Int} (h : c.expression.LastMatch now t) :
    IsMostRecent [c] now 0 c t := by
  refine ⟨rfl, h, ?_, fun j _ _ _ => Nat.zero_le j⟩
  intro j c' t' hc' hlast
  have hc : c' = c := List.mem_singleton.mp (List.mem_of_getElem? hc')
  rw [hc] at hlast
  exact Int.le_of_eq (hlast.2.unique h.2)

/-- The least time since an occurrence belongs to the most recent candidate. -/
theorem isMostRecent_of_latest? {candidates : List Candidate} {now : Int64} {o : Occurred}
    (h : latest? candidates now = some o) :
    ∃ c, IsMostRecent candidates now.toInt o.index c (now.toInt - o.elapsed.toNat) ∧ o.cycle = c.cycle := by
  obtain ⟨hmem, hleast⟩ := minOn?_spec (pairwise_occurred candidates now) h
  obtain ⟨c, hc, hcycle, hlast⟩ := mem_occurred.mp hmem
  -- Every last match of a candidate is listed, so the least time is compared with the time since it.
  have hlisted : ∀ (j : Nat) (c' : Candidate) (t' : Int), candidates[j]? = some c' →
      c'.expression.LastMatch now.toInt t' →
      ∃ o' ∈ occurred candidates now, o'.index = j ∧ t' = now.toInt - o'.elapsed.toNat := by
    intro j c' t' hc' hlast'
    have hnat := Expression.toNat_ofNat_sub_of_lastMatch hlast'
    have hle := hlast'.2.1.2
    have hself : t' = now.toInt - (UInt64.ofNat (now.toInt - t').toNat).toNat := by
      rw [hnat]
      omega
    refine ⟨⟨j, c'.cycle, UInt64.ofNat (now.toInt - t').toNat⟩, mem_occurred.mpr ⟨c', hc', rfl, ?_⟩, rfl, hself⟩
    rw [← hself]
    exact hlast'
  refine ⟨c, ⟨hc, hlast, ?_, ?_⟩, hcycle⟩
  · intro j c' t' hc' hlast'
    obtain ⟨o', ho', -, rfl⟩ := hlisted j c' t' hc' hlast'
    have hle := UInt64.le_iff_toNat_le.mp (hleast o' ho').1
    omega
  · intro j c' hc' hlast'
    obtain ⟨o', ho', rfl, heq⟩ := hlisted j c' _ hc' hlast'
    refine (hleast o' ho').2 (UInt64.toNat_inj.mp ?_)
    omega

/-- Nothing is selected exactly if no candidate has a last match. -/
theorem latest?_eq_none_iff (candidates : List Candidate) (now : Int64) :
    latest? candidates now = none ↔ ∀ c ∈ candidates, ∀ t, ¬c.expression.LastMatch now.toInt t := by
  have hnil : latest? candidates now = none ↔ occurred candidates now = [] := by
    unfold latest?
    rw [← Option.not_isSome_iff_eq_none, List.isSome_minOn?_iff, not_not]
  rw [hnil, List.eq_nil_iff_forall_not_mem]
  constructor
  · intro h c hc t hlast
    obtain ⟨i, hi⟩ := List.mem_iff_getElem?.mp hc
    have helapsed : c.expression.elapsed? now ≠ none := by
      rw [Expression.elapsed?, (c.expression.latestInstant?_eq_some_iff now.toInt t).mpr hlast]
      simp
    obtain ⟨elapsed, helapsed⟩ := Option.ne_none_iff_exists'.mp helapsed
    exact h ⟨i, c.cycle, elapsed⟩
      (mem_occurred.mpr ⟨c, hi, rfl, (c.expression.elapsed?_eq_some_iff now elapsed).mp helapsed⟩)
  · intro h o ho
    obtain ⟨c, hc, -, hlast⟩ := mem_occurred.mp ho
    exact h c (List.mem_of_getElem? hc) _ hlast

/-- In the calendar, one of the candidates is the most recent if any of them has matched. -/
theorem exists_isMostRecent {candidates : List Candidate} {now : Int64} (hnow : InCalendar now.toInt)
    (hmatched : ∃ c ∈ candidates, ∃ t ≤ now.toInt, c.expression.Matches t) :
    ∃ i c t, IsMostRecent candidates now.toInt i c t := by
  obtain ⟨c, hc, t, hle, hmatch⟩ := hmatched
  cases hlatest : latest? candidates now with
  | none =>
    obtain ⟨t', hlast, -⟩ := Expression.exists_lastMatch hnow hmatch hle
    exact absurd hlast ((latest?_eq_none_iff candidates now).mp hlatest c hc t')
  | some o =>
    obtain ⟨c', hrecent, -⟩ := isMostRecent_of_latest? hlatest
    exact ⟨o.index, c', _, hrecent⟩

/-- A time that is not near the end of the words is rounded half up. -/
theorem toNat_roundToSeconds {millis : UInt64} (h : millis.toNat < 18446744073709551116) :
    (roundToSeconds millis).toNat = (millis.toNat + 500) / 1000 := by
  unfold roundToSeconds
  rw [UInt64.toNat_div, UInt64.toNat_add]
  show (millis.toNat + 500) % 18446744073709551616 / 1000 = _
  omega

/-- The time since an occurrence is rounded as the integer that it is. -/
theorem toNat_roundToSeconds_of_mem {candidates : List Candidate} {now : Int64} {o : Occurred}
    (h : o ∈ occurred candidates now) : (roundToSeconds o.elapsed).toNat = (o.elapsed.toNat + 500) / 1000 := by
  obtain ⟨c, -, -, hlast⟩ := mem_occurred.mp h
  have hnonneg := hlast.2.1.1.nonneg
  have hnow := Int64.toInt_lt now
  exact toNat_roundToSeconds (by omega)

/-- The most recent candidate is selected, with its cycle less the rounded time since its match. -/
theorem ofCandidates_of_isMostRecent {candidates : List Candidate} {now : Int64} {i : Nat} {c : Candidate} {t : Int}
    (h : IsMostRecent candidates now.toInt i c t) :
    (ofCandidates candidates now).index = i ∧
      (ofCandidates candidates now).remaining.toNat = c.cycle.toNat - ((now.toInt - t + 500) / 1000).toNat := by
  cases hlatest : latest? candidates now with
  | none =>
    have hnone := (latest?_eq_none_iff candidates now).mp hlatest c (List.mem_of_getElem? h.candidate) t
    exact absurd h.lastMatch hnone
  | some o =>
    obtain ⟨c', hrecent, hcycle⟩ := isMostRecent_of_latest? hlatest
    obtain ⟨rfl, rfl, rfl⟩ := h.unique hrecent
    have hround := toNat_roundToSeconds_of_mem (List.minOn?_mem hlatest)
    simp only [ofCandidates, hlatest, toNat_monus, hround, hcycle, true_and]
    omega

/-- The match of the most recent candidate is the greatest instant up to the reference at which any candidate matches. -/
theorem IsMostRecent.isGreatest {candidates : List Candidate} {now : Int} {i : Nat} {c : Candidate} {t : Int}
    (h : IsMostRecent candidates now i c t) :
    IsGreatest {t | (∃ c ∈ candidates, c.expression.Matches t) ∧ t ≤ now} t := by
  refine ⟨⟨⟨c, List.mem_of_getElem? h.candidate, h.lastMatch.2.1.1⟩, h.lastMatch.2.1.2⟩, ?_⟩
  rintro t' ⟨⟨c', hc', hmatch⟩, hle⟩
  obtain ⟨j, hj⟩ := List.mem_iff_getElem?.mp hc'
  exact Int.not_lt.mp fun hlt => h.not_matches_later hj hlt hle hmatch

/-- Candidates that match at the same instants as others have a most recent one when the others do, and its match is the same. -/
theorem IsMostRecent.exists_of_same_matches {candidates candidates' : List Candidate} {now : Int64} {i : Nat} {c : Candidate}
    {t : Int} (h : IsMostRecent candidates now.toInt i c t)
    (hsame : ∀ t, (∃ c ∈ candidates, c.expression.Matches t) ↔ ∃ c ∈ candidates', c.expression.Matches t) :
    ∃ i' c', IsMostRecent candidates' now.toInt i' c' t := by
  obtain ⟨c', hc', hmatch⟩ := (hsame t).mp h.isGreatest.1.1
  obtain ⟨i', c', t', h'⟩ := exists_isMostRecent h.lastMatch.1 ⟨c', hc', t, h.isGreatest.1.2, hmatch⟩
  have hgreatest := h'.isGreatest
  simp only [← hsame] at hgreatest
  rw [h.isGreatest.unique hgreatest]
  exact ⟨i', c', h'⟩

/-- Where no candidate has a last match, candidates of one cycle have all of it left. -/
theorem remaining_of_latest?_eq_none {candidates : List Candidate} {now : Int64} {cycle : UInt64} (hne : candidates ≠ [])
    (hcycle : ∀ c ∈ candidates, c.cycle = cycle) (h : latest? candidates now = none) :
    (ofCandidates candidates now).remaining = cycle := by
  obtain ⟨first, rest, rfl⟩ := List.exists_cons_of_ne_nil hne
  simp only [ofCandidates, h]
  exact hcycle first List.mem_cons_self

/-- What is left of one cycle depends only on the instants at which any candidate matches, not on how they are spread over the
candidates. -/
theorem remaining_eq_of_same_matches {candidates candidates' : List Candidate} (cycle : UInt64) (hne : candidates ≠ [])
    (hne' : candidates' ≠ []) (hcycle : ∀ c ∈ candidates, c.cycle = cycle) (hcycle' : ∀ c ∈ candidates', c.cycle = cycle)
    (hsame : ∀ t, (∃ c ∈ candidates, c.expression.Matches t) ↔ ∃ c ∈ candidates', c.expression.Matches t) (now : Int64) :
    (ofCandidates candidates now).remaining = (ofCandidates candidates' now).remaining := by
  cases hlatest : latest? candidates now with
  | some o =>
    obtain ⟨c, hrecent, -⟩ := isMostRecent_of_latest? hlatest
    obtain ⟨i', c', hrecent'⟩ := hrecent.exists_of_same_matches hsame
    apply UInt64.toNat_inj.mp
    rw [(ofCandidates_of_isMostRecent hrecent).2, (ofCandidates_of_isMostRecent hrecent').2,
      hcycle c (List.mem_of_getElem? hrecent.candidate), hcycle' c' (List.mem_of_getElem? hrecent'.candidate)]
  | none =>
    cases hlatest' : latest? candidates' now with
    | some o' =>
      obtain ⟨c', hrecent', -⟩ := isMostRecent_of_latest? hlatest'
      obtain ⟨i, c, hrecent⟩ := hrecent'.exists_of_same_matches fun t => (hsame t).symm
      exact absurd hrecent.lastMatch
        ((latest?_eq_none_iff candidates now).mp hlatest c (List.mem_of_getElem? hrecent.candidate) _)
    | none => rw [remaining_of_latest?_eq_none hne hcycle hlatest, remaining_of_latest?_eq_none hne' hcycle' hlatest']

/-- The selection is the most recent candidate: the one with the greatest last match, the first of them on a tie, so that no
candidate matches after it up to the reference, and none before it in the list matches with it. What remains is its cycle
less the time since then, rounded half up, and nothing if that is longer. Where no candidate has a last match, the first one
starts its cycle, and an empty list gives zeros. A selection from a list that is not empty always names a candidate of it,
and never more seconds than that candidate's cycle. -/
theorem ofCandidates_most_recent (candidates : List Candidate) (now : Int64) :
    ((∃ c t, IsMostRecent candidates now.toInt (ofCandidates candidates now).index c t ∧
        ((ofCandidates candidates now).remaining.toNat : Int) =
          max 0 (c.cycle.toNat - (now.toInt - t + 500) / 1000) ∧
        (∀ c' ∈ candidates, ∀ t', t < t' → t' ≤ now.toInt → ¬c'.expression.Matches t') ∧
        (∀ c' ∈ candidates.take (ofCandidates candidates now).index, ¬c'.expression.Matches t)) ∨
      ((∀ c ∈ candidates, ∀ t, ¬c.expression.LastMatch now.toInt t) ∧
        ((∃ c rest, candidates = c :: rest ∧ ofCandidates candidates now = ⟨c.cycle, 0⟩) ∨
          (candidates = [] ∧ ofCandidates candidates now = ⟨0, 0⟩)))) ∧
    (candidates = [] ∨
      ∃ c, candidates[(ofCandidates candidates now).index]? = some c ∧
        (ofCandidates candidates now).remaining ≤ c.cycle) := by
  cases hl : latest? candidates now with
  | some o =>
    obtain ⟨c, hrecent, hcycle⟩ := isMostRecent_of_latest? hl
    have hchosen : ofCandidates candidates now = ⟨monus c.cycle (roundToSeconds o.elapsed), o.index⟩ := by
      simp only [ofCandidates, hl, hcycle]
    have hlate := hrecent.lastMatch.2.1.1.nonneg
    have hnow := Int64.toInt_lt now
    rw [hchosen]
    refine ⟨Or.inl ⟨c, _, hrecent, ?_, ?_, ?_⟩, Or.inr ⟨c, hrecent.candidate, ?_⟩⟩
    · show ((monus c.cycle (roundToSeconds o.elapsed)).toNat : Int) = _
      rw [toNat_monus, toNat_roundToSeconds (by omega)]
      omega
    · intro c' hc' t' hlt hle
      obtain ⟨j, hj⟩ := List.mem_iff_getElem?.mp hc'
      exact hrecent.not_matches_later hj hlt hle
    · intro c' hc'
      obtain ⟨j, hj⟩ := List.mem_iff_getElem?.mp hc'
      have hlt : j < o.index := by
        by_contra hge
        rw [List.getElem?_take_eq_none (Nat.not_lt.mp hge)] at hj
        cases hj
      rw [List.getElem?_take_of_lt hlt] at hj
      exact hrecent.not_matches_of_lt hj hlt
    · rw [UInt64.le_iff_toNat_le, toNat_monus]
      exact Nat.sub_le _ _
  | none =>
    have hnone := (latest?_eq_none_iff candidates now).mp hl
    cases candidates with
    | nil =>
      have hchosen : ofCandidates [] now = ⟨0, 0⟩ := by
        simp only [ofCandidates, hl]
      exact ⟨Or.inr ⟨hnone, Or.inr ⟨rfl, hchosen⟩⟩, Or.inl rfl⟩
    | cons c rest =>
      have hchosen : ofCandidates (c :: rest) now = ⟨c.cycle, 0⟩ := by
        simp only [ofCandidates, hl]
      refine ⟨Or.inr ⟨hnone, Or.inl ⟨c, rest, rfl, hchosen⟩⟩, Or.inr ⟨c, ?_, ?_⟩⟩
      · rw [hchosen]
        rfl
      · rw [hchosen]
        exact UInt64.le_refl _

end Recurrence.Selection
