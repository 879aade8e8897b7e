/-!
# Text: cutting at the first separator

`cut` divides a text at the first occurrence of a separator. Nothing of the text is lost: with a separator found the two
parts and the separator make up the text (`cut_some`), without one the left part is the whole text (`cut_none`).
-/

namespace Recurrence.Text

/-- The part before the first `separator`, and the part after it when there is one. -/
def cut (separator : Char) (cs : List Char) : List Char × Option (List Char) :=
  (cs.takeWhile (· != separator), (cs.dropWhile (· != separator)).tail?)

/-- A text cut in two is the left part, the separator and the right part, and the left part holds no separator. -/
theorem cut_some {separator : Char} {cs left right : List Char} (h : cut separator cs = (left, some right)) :
    cs = left ++ separator :: right ∧ separator ∉ left := by
  simp only [cut, Prod.mk.injEq] at h
  obtain ⟨hl, hr⟩ := h
  have htail : ∃ c, cs.dropWhile (· != separator) = c :: right := by
    cases hd : cs.dropWhile (· != separator) with
    | nil => simp [hd] at hr
    | cons c rest => simp only [hd, List.tail?_cons, Option.some.injEq] at hr; exact ⟨c, by rw [hr]⟩
  obtain ⟨c, hc⟩ := htail
  have hsep : c = separator := by
    have hne : cs.dropWhile (· != separator) ≠ [] := by simp [hc]
    have := List.head_dropWhile_not (· != separator) hne
    simpa [hc] using this
  refine ⟨?_, fun hm => ?_⟩
  · have := List.takeWhile_append_dropWhile (p := (· != separator)) (l := cs)
    rw [hl, hc, hsep] at this
    exact this.symm
  · rw [← hl] at hm
    have hall := List.all_takeWhile (p := (· != separator)) (l := cs)
    have := (List.all_eq_true.mp hall) separator hm
    simp at this

/-- A text that is not cut is its left part, and holds no separator. -/
theorem cut_none {separator : Char} {cs left : List Char} (h : cut separator cs = (left, none)) :
    left = cs ∧ separator ∉ cs := by
  simp only [cut, Prod.mk.injEq] at h
  obtain ⟨hl, hr⟩ := h
  have hd : cs.dropWhile (· != separator) = [] := by
    cases hd : cs.dropWhile (· != separator) with
    | nil => rfl
    | cons c rest => simp [hd] at hr
  have hcs : left = cs := by
    have := List.takeWhile_append_dropWhile (p := (· != separator)) (l := cs)
    rw [hl, hd, List.append_nil] at this
    exact this
  refine ⟨hcs, fun hm => ?_⟩
  have hall := List.all_takeWhile (p := (· != separator)) (l := cs)
  rw [hl, hcs] at hall
  have := (List.all_eq_true.mp hall) separator hm
  simp at this

end Recurrence.Text
