import Recurrence.Proofs.Expression.Word
import Recurrence.Proofs.Selection
import Recurrence.Proofs.Text

/-!
# Alternatives of a word

A comma in a word separates alternatives: the set of the word is the union of the sets of both sides
(`Expression.mem_wordValues_append`), malformed chunks and Sundays included. A word is read for one field at most, so the text
with both alternatives matches exactly where the text with one of them does (`Expression.matches_iff_of_alternatives`). The last
match is then the later one of both, and a countdown cannot tell one candidate with both alternatives from two candidates with
one each (`Expression.read_alternatives`).
-/

namespace Recurrence

namespace Expression

/-! ## Reading -/

/-- The chunks on both sides of a comma are those of the two sides. -/
theorem chunks_append (x y : List Char) : chunks (x ++ ',' :: y) = chunks x ++ chunks y :=
  List.splitOn_append_cons_self x y

/-- The set of a word with alternatives is the union of the sets of both. -/
theorem mem_wordValues_append {f : Field} {x y : List Char} {n : Nat} :
    n ∈ wordValues f (x ++ ',' :: y) ↔ n ∈ wordValues f x ∨ n ∈ wordValues f y := by
  simp only [mem_wordValues, chunks_append, List.mem_append, or_and_right, exists_or]

/-- Another word in the place of one does not change the words at other places. -/
theorem getElem?_append_cons_of_ne {α : Type} {before after : List α} {i : Nat} (h : i ≠ before.length) (word word' : α) :
    (before ++ word :: after)[i]? = (before ++ word' :: after)[i]? := by
  rcases Nat.lt_or_gt_of_ne h with hlt | hgt
  · rw [List.getElem?_append_left hlt, List.getElem?_append_left hlt]
  · obtain ⟨k, rfl⟩ : ∃ k, i = before.length + (k + 1) := ⟨i - before.length - 1, by omega⟩
    rw [List.getElem?_append_right (by omega), List.getElem?_append_right (by omega), Nat.add_sub_cancel_left,
      List.getElem?_cons_succ, List.getElem?_cons_succ]

/-- A word of a text is read for the field at one index only, and any other word in its place is read for that field. -/
theorem exists_wordFor_append_cons (before after : List (List Char)) :
    ∃ index, ∀ (f : Field) (word : List Char),
      wordFor (before ++ word :: after) f = if f.index = index then word else wordFor (before ++ [] :: after) f := by
  refine ⟨before.length + (6 - (before.length + (after.length + 1))), fun f word => ?_⟩
  simp only [wordFor, List.length_append, List.length_cons, List.getD_eq_getElem?_getD]
  generalize 6 - (before.length + (after.length + 1)) = skipped
  by_cases hf : f.index = before.length + skipped
  · rw [if_pos hf, if_neg (by omega), hf, Nat.add_sub_cancel]
    simp
  · rw [if_neg hf]
    by_cases hskip : f.index < skipped
    · simp only [if_pos hskip]
    · have hsame : (before ++ word :: after)[f.index - skipped]? = (before ++ [] :: after)[f.index - skipped]? :=
        getElem?_append_cons_of_ne (by omega) word []
      simp only [if_neg hskip, hsame]

/-! ## Matching -/

/-- A text whose words have a comma in one place matches exactly where one of the two texts does that have only one side of the
comma there. -/
theorem matches_iff_of_alternatives {text text₁ text₂ : String} {before after : List (List Char)} {x y : List Char}
    (h : wordsOf text = before ++ (x ++ ',' :: y) :: after) (h₁ : wordsOf text₁ = before ++ x :: after)
    (h₂ : wordsOf text₂ = before ++ y :: after) (t : Int) :
    (read text).Matches t ↔ (read text₁).Matches t ∨ (read text₂).Matches t := by
  obtain ⟨index, hword⟩ := exists_wordFor_append_cons before after
  have hunion : ∀ f n, n ∈ (read text).values f ↔ n ∈ (read text₁).values f ∨ n ∈ (read text₂).values f := by
    intro f n
    rw [values_read, values_read, values_read, h, h₁, h₂, hword f (x ++ ',' :: y), hword f x, hword f y]
    split
    · exact mem_wordValues_append
    · exact (or_self_iff).symm
  have hother : ∀ f, f.index ≠ index →
      (read text₁).values f = (read text).values f ∧ (read text₂).values f = (read text).values f := by
    intro f hf
    rw [values_read, values_read, values_read, h, h₁, h₂, hword f (x ++ ',' :: y), hword f x, hword f y]
    simp only [if_neg hf, and_self]
  constructor
  · rintro ⟨hsec, hyear, hvalue⟩
    -- No more than one field has the two sides in its set, so one side is enough for all fields.
    have hside : (∀ f, f.index = index → (Moment.ofMillis t).value f ∈ (read text₁).values f) ∨
        ∀ f, f.index = index → (Moment.ofMillis t).value f ∈ (read text₂).values f := by
      by_cases hfield : ∃ f : Field, f.index = index
      · obtain ⟨f, hf⟩ := hfield
        refine ((hunion f _).mp (hvalue f)).imp ?_ ?_
        · intro hmem f' hf'
          rwa [Field.eq_of_index_eq (hf'.trans hf.symm)]
        · intro hmem f' hf'
          rwa [Field.eq_of_index_eq (hf'.trans hf.symm)]
      · exact Or.inl fun f hf => absurd ⟨f, hf⟩ hfield
    refine hside.imp (fun hmem => ⟨hsec, hyear, fun f => ?_⟩) (fun hmem => ⟨hsec, hyear, fun f => ?_⟩)
    · by_cases hf : f.index = index
      · exact hmem f hf
      · rw [(hother f hf).1]
        exact hvalue f
    · by_cases hf : f.index = index
      · exact hmem f hf
      · rw [(hother f hf).2]
        exact hvalue f
  · rintro (⟨hsec, hyear, hvalue⟩ | ⟨hsec, hyear, hvalue⟩)
    · exact ⟨hsec, hyear, fun f => (hunion f _).mpr (Or.inl (hvalue f))⟩
    · exact ⟨hsec, hyear, fun f => (hunion f _).mpr (Or.inr (hvalue f))⟩

/-! ## Searching -/

variable {e e₁ e₂ : Expression}

/-- The last match of an expression that matches where one of two others does is the later one of their last matches. -/
theorem latestInstant?_of_matches_iff (h : ∀ t, e.Matches t ↔ e₁.Matches t ∨ e₂.Matches t) (now : Int) :
    e.latestInstant? now = Option.merge max (e₁.latestInstant? now) (e₂.latestInstant? now) := by
  by_cases hnow : InCalendar now
  · have hmerge := (e₁.isLatest_latestInstant? hnow).merge (e₂.isLatest_latestInstant? hnow)
    refine (e.isLatest_latestInstant? hnow).unique (hmerge.congr fun t => ?_)
    rw [h, or_and_right]
  · simp only [latestInstant?, if_neg hnow, Option.merge_none_left]

/-- The time since the last match of an expression that matches where one of two others does is the shorter one of theirs. -/
theorem elapsed?_of_matches_iff (h : ∀ t, e.Matches t ↔ e₁.Matches t ∨ e₂.Matches t) (now : Int64) :
    e.elapsed? now = Option.merge min (e₁.elapsed? now) (e₂.elapsed? now) := by
  have hlatest := latestInstant?_of_matches_iff h now.toInt
  unfold elapsed?
  cases h₁ : e₁.latestInstant? now.toInt with
  | none => rw [hlatest, h₁, Option.merge_none_left, Option.map_none, Option.merge_none_left]
  | some t₁ =>
    cases h₂ : e₂.latestInstant? now.toInt with
    | none => rw [hlatest, h₁, h₂, Option.merge_none_right, Option.map_none, Option.merge_none_right]
    | some t₂ =>
      rw [h₁, h₂] at hlatest
      have hlast := (e.latestInstant?_eq_some_iff _ _).mp hlatest
      have hlast₁ := (e₁.latestInstant?_eq_some_iff _ _).mp h₁
      have hlast₂ := (e₂.latestInstant?_eq_some_iff _ _).mp h₂
      have hle₁ := hlast₁.2.1.2
      have hle₂ := hlast₂.2.1.2
      rw [hlatest]
      simp only [Option.merge, Option.map_some, Option.some.injEq]
      apply UInt64.toNat_inj.mp
      rw [UInt64.toNat_min, toNat_ofNat_sub_of_lastMatch hlast, toNat_ofNat_sub_of_lastMatch hlast₁,
        toNat_ofNat_sub_of_lastMatch hlast₂]
      omega

/-! ## Texts -/

/-- A word between blanks is one of the words of a text. -/
theorem wordsOf_between {before word after : String} (hbefore : Text.EndsBlank before.toList)
    (hword : Text.IsWord word.toList) (hafter : Text.BeginsBlank after.toList) :
    wordsOf (before ++ word ++ after) = Text.words before.toList ++ word.toList :: Text.words after.toList := by
  rw [wordsOf, String.toList_append, String.toList_append]
  exact Text.words_between hbefore hword hafter

/-- Putting the two sides of a comma into texts of their own changes nothing, at any instant and for a word in any place of any
text, in four parts.
1. The last match of the text with the comma is the later one of the last matches of the two texts.
2. So the time since then is the shorter one of the two times.
3. The text has no last match exactly if neither of the two has one.
4. One candidate with the comma has as many seconds left as two candidates with one side each, all of one cycle. -/
theorem read_alternatives (before x y after : String) (hbefore : Text.EndsBlank before.toList)
    (hx : Text.IsWord x.toList) (hy : Text.IsWord y.toList) (hafter : Text.BeginsBlank after.toList) (now : Int64) :
    let both := read (before ++ (x ++ "," ++ y) ++ after)
    let first := read (before ++ x ++ after)
    let second := read (before ++ y ++ after)
    both.latestInstant? now.toInt = Option.merge max (first.latestInstant? now.toInt) (second.latestInstant? now.toInt) ∧
      both.elapsed? now = Option.merge min (first.elapsed? now) (second.elapsed? now) ∧
      (both.elapsed? now = none ↔ first.elapsed? now = none ∧ second.elapsed? now = none) ∧
      ∀ cycle, (Selection.ofCandidates [⟨both, cycle⟩] now).remaining =
        (Selection.ofCandidates [⟨first, cycle⟩, ⟨second, cycle⟩] now).remaining := by
  intro both first second
  have hchars : (x ++ "," ++ y).toList = x.toList ++ ',' :: y.toList := by simp
  have hcomma : Text.IsWord [','] := by decide
  have hboth : Text.IsWord (x ++ "," ++ y).toList := by
    rw [hchars]
    exact hx.append (hcomma.append hy)
  have hwords := wordsOf_between hbefore hboth hafter
  rw [hchars] at hwords
  have hmatches : ∀ t, both.Matches t ↔ first.Matches t ∨ second.Matches t :=
    matches_iff_of_alternatives hwords (wordsOf_between hbefore hx hafter) (wordsOf_between hbefore hy hafter)
  have helapsed := elapsed?_of_matches_iff hmatches now
  refine ⟨latestInstant?_of_matches_iff hmatches now.toInt, helapsed, ?_, fun cycle => ?_⟩
  · rw [helapsed, Option.merge_eq_none_iff]
  · refine Selection.remaining_eq_of_same_matches cycle (List.cons_ne_nil _ _) (List.cons_ne_nil _ _) ?_ ?_ ?_ now
    · simp
    · simp
    · intro t
      simp [hmatches]

/-- A reversed range, a list and a Sunday written as 7 on the two sides of a comma, in a short text with an uncommon blank. -/
theorem read_alternatives_weekday :
    let both := read ("30 9,17\u00A0* * " ++ ("FRI-MON,WED" ++ "," ++ "5-7/2") ++ "")
    let first := read ("30 9,17\u00A0* * " ++ "FRI-MON,WED" ++ "")
    let second := read ("30 9,17\u00A0* * " ++ "5-7/2" ++ "")
    Text.EndsBlank "30 9,17\u00A0* * ".toList ∧ Text.IsWord "FRI-MON,WED".toList ∧ Text.IsWord "5-7/2".toList ∧
      Text.BeginsBlank "".toList ∧
      both.elapsed? 1710507600000 = Option.merge min (first.elapsed? 1710507600000) (second.elapsed? 1710507600000) ∧
      (Selection.ofCandidates [⟨both, 604800⟩] 1710507600000).remaining =
        (Selection.ofCandidates [⟨first, 604800⟩, ⟨second, 604800⟩] 1710507600000).remaining := by
  intro both first second
  have hbefore : Text.EndsBlank "30 9,17\u00A0* * ".toList := by decide
  have hx : Text.IsWord "FRI-MON,WED".toList := by decide
  have hy : Text.IsWord "5-7/2".toList := by decide
  have hafter : Text.BeginsBlank "".toList := by decide
  obtain ⟨-, helapsed, -, hremaining⟩ :=
    read_alternatives "30 9,17\u00A0* * " "FRI-MON,WED" "5-7/2" "" hbefore hx hy hafter 1710507600000
  exact ⟨hbefore, hx, hy, hafter, helapsed, hremaining 604800⟩

end Expression

end Recurrence
