import Mathlib.Data.List.Nodup
import Recurrence.Expression.Chunk
import Recurrence.Proofs.Text

/-!
# Chunks: what they mean

`Means` gives the well-formed chunks of a field and the first value, the last value and the step that each of them stands
for, without saying how a chunk is taken apart. No value holds a dash, a slash or a star, so only the first slash of a chunk
and the first dash before it can divide it: `Chunk.read` finds the meaning of every chunk that has one (`read_eq_ok_iff`),
and no chunk has two (`Means.unique`).
-/

namespace Recurrence

namespace Chunk

/-- A text stands for a value of a field: it is a name of the field, or a literal up to 9999. -/
inductive IsValue (f : Field) : List Char → Nat → Prop where
  | name {i : Nat} {name : String} : f.valueNames[i]? = some name → IsValue f name.toList (f.min + i)
  | literal {cs : List Char} {n : Nat} : Text.IsLiteral cs n → n ≤ 9999 → IsValue f cs n

/-- A text stands for a step of a field: it is a literal from 1 to the number of values between the bounds. -/
def IsStep (f : Field) (cs : List Char) (n : Nat) : Prop :=
  Text.IsLiteral cs n ∧ 1 ≤ n ∧ n ≤ f.max - f.min + 1

/-- The first and the last value that a text stands for in a field, without a step or before one. -/
inductive Spans (f : Field) : Bool → List Char → Nat → Nat → Prop where
  /-- A star stands for all values between the bounds. -/
  | star {stepped : Bool} : Spans f stepped ['*'] f.min f.max
  /-- A value without a step stands for itself. -/
  | alone {cs : List Char} {v : Nat} : IsValue f cs v → Spans f false cs v v
  /-- A value before a step goes up to the highest value of the field, unless it is above that. -/
  | upward {cs : List Char} {v : Nat} : IsValue f cs v → Spans f true cs v (max f.max v)
  /-- Two values with a dash between them are a range. -/
  | range {stepped : Bool} {left right : List Char} {a b : Nat} : IsValue f left a → IsValue f right b → a ≤ b →
      Spans f stepped (left ++ '-' :: right) a b

/-- The well-formed chunks of a field, with the first value, the last value and the step that they stand for. -/
inductive Means (f : Field) : List Char → Nat → Nat → Nat → Prop where
  | plain {cs : List Char} {first last : Nat} : Spans f false cs first last → Means f cs first last 1
  | stepped {cs stepText : List Char} {first last step : Nat} : Spans f true cs first last → IsStep f stepText step →
      Means f (cs ++ '/' :: stepText) first last step

end Chunk

/-! ### Names -/

/-- The names of values are in capitals, and capitals are neither digits nor plus signs. -/
theorem Field.isUpper_of_mem_valueNames {f : Field} {name : String} (hname : name ∈ f.valueNames) {c : Char}
    (hc : c ∈ name.toList) : c.isUpper = true ∧ ¬ (c.isDigit = true ∨ c = '+') := by
  have hall : (f.valueNames.all fun name => name.toList.all fun c => c.isUpper && !(c.isDigit || c == '+')) = true := by
    cases f <;> decide
  simpa using List.all_eq_true.mp (List.all_eq_true.mp hall name hname) c hc

/-- The names of values are different. -/
theorem Field.nodup_valueNames (f : Field) : f.valueNames.Nodup := by
  cases f <;> decide

/-- A name stands for the value at its place among the names. -/
theorem Field.named?_eq_some_iff {f : Field} {name : String} {v : Nat} :
    f.named? name = some v ↔ ∃ i, f.valueNames[i]? = some name ∧ f.min + i = v := by
  unfold named?
  rw [Option.map_eq_some_iff]
  constructor
  · rintro ⟨i, hi, hv⟩
    rw [List.idxOf?_eq_some_iff] at hi
    obtain ⟨hlt, hget, -⟩ := hi
    exact ⟨i, List.getElem?_eq_some_iff.mpr ⟨hlt, hget⟩, hv⟩
  · rintro ⟨i, hi, hv⟩
    obtain ⟨hlt, hget⟩ := List.getElem?_eq_some_iff.mp hi
    refine ⟨i, List.idxOf?_eq_some_iff.mpr ⟨hlt, hget, ?_⟩, hv⟩
    intro j hj heq
    have hji : j = i := f.nodup_valueNames.getElem_inj_iff.mp (heq.trans hget.symm)
    omega

namespace Chunk

/-! ### Values and steps -/

/-- The text of a value has only capitals, digits and plus signs. -/
theorem IsValue.isUpper_or {f : Field} {cs : List Char} {v : Nat} (h : IsValue f cs v) {c : Char} (hc : c ∈ cs) :
    c.isUpper = true ∨ c.isDigit = true ∨ c = '+' := by
  cases h with
  | name hname => exact Or.inl (Field.isUpper_of_mem_valueNames (List.mem_of_getElem? hname) hc).1
  | literal hliteral _ => exact Or.inr (hliteral.isDigit_or hc)

/-- The text of a value holds no dash, slash or star. -/
theorem IsValue.notMem {f : Field} {cs : List Char} {v : Nat} (h : IsValue f cs v) :
    '-' ∉ cs ∧ '/' ∉ cs ∧ '*' ∉ cs := by
  refine ⟨?_, ?_, ?_⟩
  · intro hc
    exact absurd (h.isUpper_or hc) (by decide)
  · intro hc
    exact absurd (h.isUpper_or hc) (by decide)
  · intro hc
    exact absurd (h.isUpper_or hc) (by decide)

/-- A literal is no name. -/
theorem named?_of_isLiteral (f : Field) {cs : List Char} {n : Nat} (h : Text.IsLiteral cs n) :
    f.named? (String.ofList cs) = none := by
  rw [Option.eq_none_iff_forall_ne_some]
  intro v hv
  obtain ⟨i, hi, -⟩ := Field.named?_eq_some_iff.mp hv
  obtain ⟨c, rest, rfl⟩ := List.exists_cons_of_ne_nil h.ne_nil
  have hname : c ∈ (String.ofList (c :: rest)).toList := by
    rw [String.toList_ofList]
    exact List.mem_cons_self
  exact (Field.isUpper_of_mem_valueNames (List.mem_of_getElem? hi) hname).2 (h.isDigit_or List.mem_cons_self)

/-- A text is read as a value exactly if it stands for that value. -/
theorem value?_eq_some_iff {f : Field} {cs : List Char} {v : Nat} : value? f cs = some v ↔ IsValue f cs v := by
  unfold value?
  rw [Option.or_eq_some_iff, Option.filter_eq_some_iff, Text.unsigned?_eq_some_iff, decide_eq_true_eq]
  constructor
  · intro h
    rcases h with hname | ⟨-, hliteral, hle⟩
    · obtain ⟨i, hi, rfl⟩ := Field.named?_eq_some_iff.mp hname
      have hvalue := IsValue.name hi
      rw [String.toList_ofList] at hvalue
      exact hvalue
    · exact IsValue.literal hliteral hle
  · intro h
    cases h with
    | name hname =>
      left
      rw [String.ofList_toList]
      exact Field.named?_eq_some_iff.mpr ⟨_, hname, rfl⟩
    | literal hliteral hle =>
      right
      exact ⟨named?_of_isLiteral f hliteral, hliteral, hle⟩

/-- A text is read as a step exactly if it stands for that step. -/
theorem step?_eq_some_iff {f : Field} {cs : List Char} {n : Nat} : step? f cs = some n ↔ IsStep f cs n := by
  unfold step?
  rw [Option.filter_eq_some_iff, Text.unsigned?_eq_some_iff, Bool.and_eq_true, decide_eq_true_eq, decide_eq_true_eq]
  rfl

/-- The step of a chunk that has one is what its text stands for. -/
theorem stride_some_eq_ok_iff {f : Field} {cs : List Char} {n : Nat} :
    stride f (some cs) = .ok n ↔ IsStep f cs n := by
  rw [← step?_eq_some_iff]
  simp only [stride]
  cases step? f cs <;> simp

/-! ### The part before the slash -/

/-- A text that spans values holds no slash. -/
theorem Spans.slash_notMem {f : Field} {stepped : Bool} {cs : List Char} {first last : Nat}
    (h : Spans f stepped cs first last) : '/' ∉ cs := by
  cases h with
  | star => decide
  | alone hv => exact hv.notMem.2.1
  | upward hv => exact hv.notMem.2.1
  | range ha hb _ =>
    intro hc
    rw [List.mem_append, List.mem_cons] at hc
    rcases hc with hleft | hdash | hright
    · exact ha.notMem.2.1 hleft
    · exact absurd hdash (by decide)
    · exact hb.notMem.2.1 hright

/-- A value is read from the part before the slash: it stands alone, or goes up when a step follows. -/
theorem ends_of_isValue {f : Field} {cs : List Char} {v : Nat} (stepped : Bool) (h : IsValue f cs v) :
    ends f cs stepped = .ok (v, if stepped then max f.max v else v) := by
  have hstar : cs ≠ ['*'] := by
    intro heq
    exact h.notMem.2.2 (heq ▸ List.mem_cons_self)
  unfold ends
  rw [Text.cut_of_notMem h.notMem.1]
  split
  · next heq =>
    cases heq
    exact absurd rfl hstar
  · next heq =>
    cases heq
    rw [value?_eq_some_iff.mpr h]
  · next heq => cases heq

/-- The first and the last value that are read from the part before the slash are those that it spans. -/
theorem ends_eq_ok_iff {f : Field} {cs : List Char} {stepped : Bool} {first last : Nat} :
    ends f cs stepped = .ok (first, last) ↔ Spans f stepped cs first last := by
  constructor
  · intro h
    unfold ends at h
    split at h
    · next hcut =>
      obtain ⟨rfl, -⟩ := Text.cut_none hcut
      cases h
      exact Spans.star
    · next single _ hcut =>
      obtain ⟨rfl, -⟩ := Text.cut_none hcut
      split at h
      · next v hv =>
        have hvalue := value?_eq_some_iff.mp hv
        cases h
        cases stepped with
        | false => exact Spans.alone hvalue
        | true => exact Spans.upward hvalue
      · cases h
    · next left right hcut =>
      obtain ⟨rfl, -⟩ := Text.cut_some hcut
      split at h
      · next a b ha hb =>
        split at h
        · cases h
        · next hle =>
          cases h
          exact Spans.range (value?_eq_some_iff.mp ha) (value?_eq_some_iff.mp hb) (Nat.le_of_not_lt hle)
      · cases h
  · intro h
    cases h with
    | star => rfl
    | alone hv => exact ends_of_isValue false hv
    | upward hv => exact ends_of_isValue true hv
    | range ha hb hle =>
      unfold ends
      rw [Text.cut_append _ ha.notMem.1]
      simp only [value?_eq_some_iff.mpr ha, value?_eq_some_iff.mpr hb, if_neg (Nat.not_lt.mpr hle)]

/-! ### Chunks -/

/-- A chunk has a meaning exactly if its step and its first and last value are read from the two sides of its first
slash. -/
theorem means_iff {f : Field} {chunk : List Char} {first last step : Nat} :
    Means f chunk first last step ↔ stride f (Text.cut '/' chunk).2 = .ok step ∧
      ends f (Text.cut '/' chunk).1 (Text.cut '/' chunk).2.isSome = .ok (first, last) := by
  constructor
  · intro h
    cases h with
    | plain hspan =>
      rw [Text.cut_of_notMem hspan.slash_notMem]
      exact ⟨rfl, ends_eq_ok_iff.mpr hspan⟩
    | stepped hspan hstep =>
      rw [Text.cut_append _ hspan.slash_notMem]
      exact ⟨stride_some_eq_ok_iff.mpr hstep, ends_eq_ok_iff.mpr hspan⟩
  · rintro ⟨hstride, hends⟩
    rw [ends_eq_ok_iff] at hends
    cases hcut : Text.cut '/' chunk with
    | mk left right? =>
      rw [hcut] at hstride hends
      cases right? with
      | none =>
        obtain ⟨rfl, -⟩ := Text.cut_none hcut
        cases hstride
        exact Means.plain hends
      | some right =>
        obtain ⟨rfl, -⟩ := Text.cut_some hcut
        exact Means.stepped hends (stride_some_eq_ok_iff.mp hstride)

/-- A chunk has at most one meaning. -/
theorem Means.unique {f : Field} {chunk : List Char} {first last step first' last' step' : Nat}
    (h : Means f chunk first last step) (h' : Means f chunk first' last' step') :
    first = first' ∧ last = last' ∧ step = step' := by
  obtain ⟨hstride, hends⟩ := means_iff.mp h
  obtain ⟨hstride', hends'⟩ := means_iff.mp h'
  rw [hstride] at hstride'
  rw [hends] at hends'
  cases hstride'
  cases hends'
  exact ⟨rfl, rfl, rfl⟩

/-- The first value that a text spans is not above the last. -/
theorem Spans.first_le_last {f : Field} {stepped : Bool} {cs : List Char} {first last : Nat}
    (h : Spans f stepped cs first last) : first ≤ last := by
  cases h with
  | star => exact f.min_le_max
  | alone _ => exact Nat.le_refl _
  | upward _ => exact Nat.le_max_right _ _
  | range _ _ hle => exact hle

/-- The first value that a chunk means is not above the last. -/
theorem Means.first_le_last {f : Field} {chunk : List Char} {first last step : Nat} (h : Means f chunk first last step) :
    first ≤ last := by
  cases h with
  | plain hspan => exact hspan.first_le_last
  | stepped hspan _ => exact hspan.first_le_last

/-- A chunk is read exactly if it has a meaning, and then as the progression that it means. -/
theorem read_eq_ok_iff {f : Field} {chunk : List Char} {s : ValueSet} :
    read f chunk = .ok s ↔ ∃ first last step, Means f chunk first last step ∧ s = .progression first last step := by
  simp only [means_iff]
  unfold read
  obtain ⟨left, right?⟩ := Text.cut '/' chunk
  constructor
  · intro h
    cases hstride : stride f right? with
    | error cause =>
      simp only [hstride] at h
      cases h
    | ok step =>
      cases hends : ends f left right?.isSome with
      | error cause =>
        simp only [hstride, hends] at h
        cases h
      | ok pair =>
        obtain ⟨first, last⟩ := pair
        simp only [hstride, hends] at h
        cases h
        exact ⟨first, last, step, ⟨rfl, rfl⟩, rfl⟩
  · rintro ⟨first, last, step, ⟨hstride, hends⟩, rfl⟩
    simp only at hstride hends
    simp only [hstride, hends]
    rfl

end Chunk

end Recurrence
