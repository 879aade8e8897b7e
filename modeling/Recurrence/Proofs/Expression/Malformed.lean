import Recurrence.Expression.Reader
import Recurrence.Proofs.Expression.Chunk

/-!
# Chunks: why they mean nothing

`Malformed` gives the chunks of a field that are not well-formed, each with the one cause that is found for it: a bad step
before a bad value, and a bad value before a reversed range. A chunk is refused for a cause exactly if it is malformed for
that cause (`Chunk.read_eq_error_iff`), so a chunk is either well-formed or malformed for one cause.
-/

namespace Recurrence

namespace Chunk

/-- A chunk is well-formed when it means something. -/
def IsWellFormed (f : Field) (chunk : List Char) : Prop :=
  ∃ first last step, Means f chunk first last step

/-- The texts that span no values in a field, with the cause. -/
inductive Misspans (f : Field) : List Char → Error → Prop where
  /-- A text without a dash, other than the star, must be a value. -/
  | single {cs : List Char} : '-' ∉ cs → cs ≠ ['*'] → (∀ v, ¬IsValue f cs v) → Misspans f cs .badValue
  /-- The texts on both sides of the first dash must be values. -/
  | range {left right : List Char} : '-' ∉ left → ((∀ v, ¬IsValue f left v) ∨ ∀ v, ¬IsValue f right v) →
      Misspans f (left ++ '-' :: right) .badValue
  /-- The right value of a range must not be below the left one. -/
  | reversed {left right : List Char} {a b : Nat} : IsValue f left a → IsValue f right b → b < a →
      Misspans f (left ++ '-' :: right) .reversedRange

/-- The malformed chunks of a field, with the cause. -/
inductive Malformed (f : Field) : List Char → Error → Prop where
  /-- The text after the first slash must be a step. -/
  | badStep {cs stepText : List Char} : '/' ∉ cs → (∀ n, ¬IsStep f stepText n) →
      Malformed f (cs ++ '/' :: stepText) .badStep
  /-- A chunk without a slash must span values. -/
  | plain {cs : List Char} {cause : Error} : '/' ∉ cs → Misspans f cs cause → Malformed f cs cause
  /-- The text before a step must span values. -/
  | stepped {cs stepText : List Char} {n : Nat} {cause : Error} : '/' ∉ cs → IsStep f stepText n → Misspans f cs cause →
      Malformed f (cs ++ '/' :: stepText) cause

/-! ### Reading fails for the cause -/

/-- A text is read as no value exactly if it stands for none. -/
theorem value?_eq_none_iff {f : Field} {cs : List Char} : value? f cs = none ↔ ∀ v, ¬IsValue f cs v := by
  rw [Option.eq_none_iff_forall_ne_some]
  simp only [ne_eq, value?_eq_some_iff]

/-- A text is read as no step exactly if it stands for none. -/
theorem step?_eq_none_iff {f : Field} {cs : List Char} : step? f cs = none ↔ ∀ n, ¬IsStep f cs n := by
  rw [Option.eq_none_iff_forall_ne_some]
  simp only [ne_eq, step?_eq_some_iff]

/-- The step of a chunk is refused only when there is one that stands for no step. -/
theorem stride_eq_error_iff {f : Field} {stepText? : Option (List Char)} {cause : Error} :
    stride f stepText? = .error cause ↔ cause = .badStep ∧ ∃ cs, stepText? = some cs ∧ ∀ n, ¬IsStep f cs n := by
  cases stepText? with
  | none => simp [stride]
  | some cs =>
    simp only [stride, ← step?_eq_none_iff, Option.some.injEq, exists_eq_left']
    cases step? f cs <;> simp [eq_comm]

/-- A refused part before the slash spans no values. -/
theorem misspans_of_ends {f : Field} {cs : List Char} {stepped : Bool} {cause : Error}
    (h : ends f cs stepped = .error cause) : Misspans f cs cause := by
  unfold ends at h
  split at h
  · cases h
  · next single hstar hcut =>
    obtain ⟨rfl, hdash⟩ := Text.cut_none hcut
    split at h
    · cases h
    · next hv =>
      cases h
      exact Misspans.single hdash hstar (value?_eq_none_iff.mp hv)
  · next left right hcut =>
    obtain ⟨rfl, hdash⟩ := Text.cut_some hcut
    split at h
    · next a b ha hb =>
      split at h
      · next hlt =>
        cases h
        exact Misspans.reversed (value?_eq_some_iff.mp ha) (value?_eq_some_iff.mp hb) hlt
      · cases h
    · next hnone =>
      cases h
      refine Misspans.range hdash ?_
      simp only [← value?_eq_none_iff]
      cases ha : value? f left with
      | none => exact Or.inl rfl
      | some a =>
        cases hb : value? f right with
        | none => exact Or.inr rfl
        | some b => exact absurd hb (hnone a b ha)

/-- What spans no values is refused before the slash, with or without a step after it. -/
theorem Misspans.ends_eq {f : Field} {cs : List Char} {cause : Error} (h : Misspans f cs cause) (stepped : Bool) :
    ends f cs stepped = .error cause := by
  cases h with
  | single hdash hstar hv =>
    unfold ends
    rw [Text.cut_of_notMem hdash]
    split
    · next heq =>
      cases heq
      exact absurd rfl hstar
    · next heq =>
      cases heq
      rw [value?_eq_none_iff.mpr hv]
    · next heq => cases heq
  | range hdash hv =>
    unfold ends
    rw [Text.cut_append _ hdash]
    rcases hv with ha | hb
    · simp only [value?_eq_none_iff.mpr ha]
    · simp only [value?_eq_none_iff.mpr hb]
      split
      · next heq => cases heq
      · rfl
  | reversed ha hb hlt =>
    unfold ends
    rw [Text.cut_append _ ha.notMem.1]
    simp only [value?_eq_some_iff.mpr ha, value?_eq_some_iff.mpr hb, if_pos hlt]

/-- A refused chunk is malformed for the cause that is given. -/
theorem malformed_of_read {f : Field} {chunk : List Char} {cause : Error} (h : read f chunk = .error cause) :
    Malformed f chunk cause := by
  unfold read at h
  cases hcut : Text.cut '/' chunk with
  | mk left right? =>
    simp only [hcut] at h
    -- The step is read first, so a bad one is the cause whatever stands before the slash.
    cases hstride : stride f right? with
    | error cause' =>
      obtain ⟨rfl, cs, rfl, hstep⟩ := stride_eq_error_iff.mp hstride
      obtain ⟨rfl, hslash⟩ := Text.cut_some hcut
      rw [hstride] at h
      cases h
      exact Malformed.badStep hslash hstep
    | ok n =>
      rw [hstride] at h
      cases hends : ends f left right?.isSome with
      | error cause' =>
        simp only [bind, Except.bind, hends] at h
        cases h
        have hspan := misspans_of_ends hends
        cases right? with
        | none =>
          obtain ⟨rfl, hslash⟩ := Text.cut_none hcut
          exact Malformed.plain hslash hspan
        | some right =>
          obtain ⟨rfl, hslash⟩ := Text.cut_some hcut
          exact Malformed.stepped hslash (stride_some_eq_ok_iff.mp hstride) hspan
      | ok pair =>
        simp only [bind, Except.bind, hends] at h
        cases h

/-- A malformed chunk is refused for its cause. -/
theorem Malformed.read_eq {f : Field} {chunk : List Char} {cause : Error} (h : Malformed f chunk cause) :
    read f chunk = .error cause := by
  unfold read
  cases h with
  | badStep hslash hstep =>
    rw [Text.cut_append _ hslash]
    simp only [stride_eq_error_iff.mpr ⟨rfl, _, rfl, hstep⟩]
    rfl
  | plain hslash hspan =>
    rw [Text.cut_of_notMem hslash]
    simp only [stride, hspan.ends_eq]
    rfl
  | stepped hslash hstep hspan =>
    rw [Text.cut_append _ hslash]
    simp only [stride_some_eq_ok_iff.mpr hstep, hspan.ends_eq]
    rfl

/-- A chunk is refused for a cause exactly if it is malformed for that cause. -/
theorem read_eq_error_iff {f : Field} {chunk : List Char} {cause : Error} :
    read f chunk = .error cause ↔ Malformed f chunk cause :=
  ⟨malformed_of_read, Malformed.read_eq⟩

/-- A chunk is read exactly if it is well-formed. -/
theorem exists_read_eq_ok_iff {f : Field} {chunk : List Char} :
    (∃ s, read f chunk = .ok s) ↔ IsWellFormed f chunk := by
  simp only [read_eq_ok_iff]
  constructor
  · rintro ⟨s, first, last, step, h, -⟩
    exact ⟨first, last, step, h⟩
  · rintro ⟨first, last, step, h⟩
    exact ⟨_, first, last, step, h, rfl⟩

end Chunk

namespace Expression

/-- A chunk has no defect exactly if it is well-formed. -/
theorem chunkDefect?_eq_none_iff {f : Field} {chunk : List Char} :
    chunkDefect? f chunk = none ↔ Chunk.IsWellFormed f chunk := by
  rw [← Chunk.exists_read_eq_ok_iff]
  unfold chunkDefect?
  cases Chunk.read f chunk <;> simp

/-- The defect of a malformed chunk names the field, the cause and the whole chunk. -/
theorem chunkDefect?_eq_some_iff {f : Field} {chunk : List Char} {d : Defect} :
    chunkDefect? f chunk = some d ↔
      ∃ cause, Chunk.Malformed f chunk cause ∧ d = .malformed f cause (String.ofList chunk) := by
  simp only [← Chunk.read_eq_error_iff]
  unfold chunkDefect?
  cases Chunk.read f chunk <;> simp [eq_comm]

end Expression

end Recurrence
