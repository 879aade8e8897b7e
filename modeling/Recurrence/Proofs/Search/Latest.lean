import Recurrence.ValueSet

/-!
# The latest of the things looked for

A search that goes down from the top answers with the latest of the things it looks for, or with nothing when there are
none. `IsLatest` says so of an answer. The lemmas carry it from the parts of a search to the whole: from the slices of a
descending search to all of them (`IsLatest.findSome?`), from one search and another that looks further back to both of
them (`IsLatest.or`), from two searches side by side to both of them (`IsLatest.merge`), and from a date and a time of day to a
moment (`IsLatest.bind_map`).
-/

namespace Recurrence

variable {α β γ : Type}

/-- An answer is the latest of the things that satisfy `P`, as ordered by `time`; no answer means that there are none. -/
def IsLatest (P : α → Prop) (time : α → Int) : Option α → Prop
  | some a => P a ∧ ∀ b, P b → time b ≤ time a
  | none => ∀ a, ¬P a

namespace IsLatest

/-- What an answer is the latest of may be said in other words. -/
theorem congr {P Q : α → Prop} {time : α → Int} {answer : Option α} (h : IsLatest P time answer)
    (hPQ : ∀ a, P a ↔ Q a) : IsLatest Q time answer := by
  have hfun : P = Q := funext fun a => propext (hPQ a)
  rw [← hfun]
  exact h

/-- There is no answer exactly if nothing satisfies `P`. -/
theorem eq_none_iff {P : α → Prop} {time : α → Int} {answer : Option α} (h : IsLatest P time answer) :
    answer = none ↔ ∀ a, ¬P a := by
  cases answer with
  | none => exact ⟨fun _ => h, fun _ => rfl⟩
  | some a =>
    refine ⟨fun he => ?_, fun hn => absurd h.1 (hn a)⟩
    cases he

/-- A single thing that passes a test is the latest one that does. -/
theorem guard (P : α → Prop) [DecidablePred P] (time : α → Int) (a : α) :
    IsLatest (fun b => b = a ∧ P b) time (Option.guard (fun b => decide (P b)) a) := by
  unfold Option.guard
  by_cases hp : P a
  · rw [if_pos (decide_eq_true hp)]
    refine ⟨⟨rfl, hp⟩, ?_⟩
    intro b h
    obtain ⟨rfl, -⟩ := h
    exact Int.le_refl _
  · rw [if_neg (by simpa using hp)]
    intro b h
    obtain ⟨rfl, hb⟩ := h
    exact hp hb

/-- A descending search: each value has a slice of its own, the slice of a greater value is later, and each slice is
searched for its latest thing. The first answer is then the latest of all slices. -/
theorem findSome? {P : Nat → α → Prop} {time : α → Int} {values : List Nat} {search : Nat → Option α}
    (hdesc : values.Pairwise (· > ·)) (hsearch : ∀ n ∈ values, IsLatest (P n) time (search n))
    (hlater : ∀ m n a b, m < n → P m a → P n b → time a ≤ time b) :
    IsLatest (fun a => ∃ n ∈ values, P n a) time (values.findSome? search) := by
  induction values with
  | nil =>
    intro a h
    obtain ⟨n, hn, -⟩ := h
    cases hn
  | cons n values ih =>
    obtain ⟨hn, hdesc⟩ := List.pairwise_cons.mp hdesc
    have hhead := hsearch n List.mem_cons_self
    have htail := ih hdesc fun m hm => hsearch m (List.mem_cons_of_mem _ hm)
    rw [List.findSome?_cons]
    cases hs : search n with
    | some a =>
      rw [hs] at hhead
      refine ⟨⟨n, List.mem_cons_self, hhead.1⟩, ?_⟩
      intro b h
      obtain ⟨m, hm, hb⟩ := h
      rcases List.mem_cons.mp hm with rfl | hm
      · exact hhead.2 b hb
      · exact hlater m n b a (hn m hm) hb hhead.1
    | none =>
      rw [hs] at hhead
      refine htail.congr fun a => ⟨?_, ?_⟩
      · intro h
        obtain ⟨m, hm, ha⟩ := h
        exact ⟨m, List.mem_cons_of_mem _ hm, ha⟩
      · intro h
        obtain ⟨m, hm, ha⟩ := h
        rcases List.mem_cons.mp hm with rfl | hm
        · exact absurd ha (hhead a)
        · exact ⟨m, hm, ha⟩

/-- A second search counts where the first finds nothing, and is right to when all that it looks for is earlier. -/
theorem or {P Q : α → Prop} {time : α → Int} {first second : Option α} (hP : IsLatest P time first)
    (hQ : IsLatest Q time second) (hlater : ∀ a b, Q a → P b → time a ≤ time b) :
    IsLatest (fun a => P a ∨ Q a) time (first.or second) := by
  cases first with
  | some a =>
    refine ⟨Or.inl hP.1, ?_⟩
    intro b h
    rcases h with hb | hb
    · exact hP.2 b hb
    · exact hlater b a hb hP.1
  | none =>
    refine IsLatest.congr hQ fun a => ⟨Or.inr, ?_⟩
    intro h
    rcases h with ha | ha
    · exact absurd ha (hP a)
    · exact ha

/-- An answer may be put in another form that keeps the order. -/
theorem map {P : α → Prop} {time : α → Int} {answer : Option α} (h : IsLatest P time answer) (f : α → β)
    (time' : β → Int) (hmono : ∀ a b, P a → P b → time a ≤ time b → time' (f a) ≤ time' (f b)) :
    IsLatest (fun b => ∃ a, P a ∧ f a = b) time' (answer.map f) := by
  cases answer with
  | some a =>
    refine ⟨⟨a, h.1, rfl⟩, ?_⟩
    intro b h
    obtain ⟨a', ha', rfl⟩ := h
    exact hmono a' a ha' h.1 (h.2 a' ha')
  | none =>
    intro b h
    obtain ⟨a, ha, -⟩ := h
    exact h a ha

/-- An answer in another form that keeps the order is the latest in the form that it was put from. -/
theorem of_map {P : α → Prop} {Q : β → Prop} {time : α → Int} {time' : β → Int} {answer : Option α} {f : α → β}
    (h : IsLatest Q time' (answer.map f)) (hPQ : ∀ a, P a ↔ Q (f a)) (htime : ∀ a, time' (f a) = time a) :
    IsLatest P time answer := by
  cases answer with
  | some a =>
    refine ⟨(hPQ a).mpr h.1, fun b hb => ?_⟩
    rw [← htime, ← htime]
    exact h.2 (f b) ((hPQ b).mp hb)
  | none => exact fun a ha => h (f a) ((hPQ a).mp ha)

/-- Of pairs whose two parts are free of each other, ordered by the first part before the second, the latest has the latest
of both parts. -/
theorem bind_map {P : α → Prop} {Q : β → Prop} {time : α → Int} {time' : β → Int} {first : Option α} {second : Option β}
    (hP : IsLatest P time first) (hQ : IsLatest Q time' second) (f : α → β → γ) (time'' : γ → Int)
    (hmono : ∀ a b a' b', P a → P a' → Q b → Q b' → time a ≤ time a' → time' b ≤ time' b' →
      time'' (f a b) ≤ time'' (f a' b')) :
    IsLatest (fun c => ∃ a b, P a ∧ Q b ∧ f a b = c) time'' (first.bind fun a => second.map (f a)) := by
  cases first with
  | none =>
    intro c h
    obtain ⟨a, b, ha, -, -⟩ := h
    exact hP a ha
  | some a =>
    cases second with
    | none =>
      intro c h
      obtain ⟨a', b, -, hb, -⟩ := h
      exact hQ b hb
    | some b =>
      refine ⟨⟨a, b, hP.1, hQ.1, rfl⟩, ?_⟩
      intro c h
      obtain ⟨a', b', ha', hb', rfl⟩ := h
      exact hmono a' b' a b ha' hP.1 hb' hQ.1 (hP.2 a' ha') (hQ.2 b' hb')

/-- There is at most one answer, when no two of the things looked for have the same time. -/
theorem unique_of_inj {P : α → Prop} {time : α → Int} {answer answer' : Option α} (h : IsLatest P time answer)
    (h' : IsLatest P time answer') (hinj : ∀ a b, P a → P b → time a = time b → a = b) : answer = answer' := by
  cases answer with
  | none => exact (h'.eq_none_iff.mpr h).symm
  | some a =>
    cases answer' with
    | none => exact absurd h.1 (h' a)
    | some a' => rw [hinj a a' h.1 h'.1 (Int.le_antisymm (h'.2 a h.1) (h.2 a' h'.1))]

/-- Instants have at most one latest among them. -/
theorem unique {P : Int → Prop} {answer answer' : Option Int} (h : IsLatest P (fun t => t) answer)
    (h' : IsLatest P (fun t => t) answer') : answer = answer' :=
  h.unique_of_inj h' fun _ _ _ _ ht => ht

/-- The latest of the instants of two kinds is the later one of the latest of each kind. -/
theorem merge {P Q : Int → Prop} {first second : Option Int} (hP : IsLatest P (fun t => t) first)
    (hQ : IsLatest Q (fun t => t) second) : IsLatest (fun t => P t ∨ Q t) (fun t => t) (Option.merge max first second) := by
  cases first with
  | none =>
    rw [Option.merge_none_left]
    exact IsLatest.congr hQ fun t => ⟨Or.inr, fun ht => ht.resolve_left (hP t)⟩
  | some a =>
    cases second with
    | none =>
      rw [Option.merge_none_right]
      exact IsLatest.congr hP fun t => ⟨Or.inl, fun ht => ht.resolve_right (hQ t)⟩
    | some b =>
      obtain ⟨ha, hle⟩ := hP
      obtain ⟨hb, hle'⟩ := hQ
      refine ⟨?_, ?_⟩
      · rcases Int.le_total a b with hab | hba
        · rw [Int.max_eq_right hab]
          exact Or.inr hb
        · rw [Int.max_eq_left hba]
          exact Or.inl ha
      · intro t ht
        rcases ht with ht | ht
        · exact Int.le_trans (hle t ht) (Int.le_max_left a b)
        · exact Int.le_trans (hle' t ht) (Int.le_max_right a b)

end IsLatest

end Recurrence
