import Recurrence.CycleLength.Basic

/-!
# Cycle lengths: exact values and first failures

Beside `Tree.eval`, which stops at the first failure, stand two definitions that do not stop: the value of a calculation over
unbounded integers (`Tree.exact`) and the list of its parts in the order in which they are worked out (`Tree.postorder`).
Each part fails or not by itself (`Tree.failure?`). Evaluation gives the failure of the first part that fails, and the exact
value when none does (`Tree.eval_eq`).
-/

namespace Recurrence.CycleLength

/-- An integer of the signed 64-bit range. -/
def IsWord (n : Int) : Prop :=
  -9223372036854775808 ≤ n ∧ n ≤ 9223372036854775807

instance (n : Int) : Decidable (IsWord n) :=
  inferInstanceAs (Decidable (_ ∧ _))

/-- The result of an operation over unbounded integers. Division goes toward zero. -/
def Operator.exact (op : Operator) (a b : Int) : Int :=
  match op with
  | add => a + b
  | sub => a - b
  | mul => a * b
  | div => a.tdiv b

/-- How an operation fails on two integers: at a zero divisor, or with a result that is not a word. -/
def Operator.failure? (op : Operator) (a b : Int) : Option Error :=
  if op = div ∧ b = 0 then some .divisionByZero
  else if IsWord (op.exact a b) then none
  else some .overflow

namespace Tree

/-- The value of a calculation over unbounded integers, as far as it could be read. -/
def exact : Tree → Int
  | number value unit => value * unit.seconds
  | operation op left right => op.exact left.exact right.exact
  | missing _ => 0
  | stopped before _ => before.exact

/-- The parts of a calculation, from left to right, each after the parts that it is made of. -/
def postorder : Tree → List Tree
  | number value unit => [number value unit]
  | operation op left right => left.postorder ++ right.postorder ++ [operation op left right]
  | missing cause => [missing cause]
  | stopped before cause => before.postorder ++ [stopped before cause]

/-- How a part fails by itself, when the parts that it is made of do not: a number that is not a word, alone or in seconds,
an operation that fails on the exact values, a place where reading stopped. -/
def failure? : Tree → Option Error
  | number value unit => if IsWord value ∧ IsWord (value * unit.seconds) then none else some .overflow
  | operation op left right => op.failure? left.exact right.exact
  | missing cause => some (.unreadable cause)
  | stopped _ cause => some (.unreadable cause)

/-- The failure of the first part that fails. -/
def firstFailure? (t : Tree) : Option Error :=
  t.postorder.findSome? failure?

end Tree

/-! ### Evaluation -/

/-- A number in seconds is at least the number. -/
theorem TimeUnit.one_le_seconds (unit : TimeUnit) : 1 ≤ unit.seconds := by
  cases unit <;> decide

/-- A checked integer is given back exactly if it is a word. -/
theorem checked_eq (n : Int) : checked n = if IsWord n then .ok n else .error .overflow :=
  rfl

/-- An operation gives its failure, and the exact result when it does not fail. -/
theorem Operator.apply_eq (op : Operator) (a b : Int) :
    op.apply a b = match op.failure? a b with
      | some error => .error error
      | none => .ok (op.exact a b) := by
  unfold failure?
  by_cases hzero : op = div ∧ b = 0
  · obtain ⟨rfl, rfl⟩ := hzero
    rfl
  · have happly : op.apply a b = checked (op.exact a b) := by
      cases op with
      | div => exact if_neg fun hb => hzero ⟨rfl, hb⟩
      | add | sub | mul => rfl
    rw [if_neg hzero, happly, checked_eq]
    split <;> rfl

namespace Tree

/-- Evaluation gives the failure of the first part that fails, and the exact value when none does. -/
theorem eval_eq (t : Tree) :
    t.eval = match t.firstFailure? with
      | some error => .error error
      | none => .ok t.exact := by
  unfold firstFailure?
  induction t with
  | number value unit =>
    have hunit := unit.one_le_seconds
    have hiff : IsWord value ∧ IsWord (value * unit.seconds) ↔ IsWord (value * unit.seconds) := by
      refine ⟨fun h => h.2, fun h => ⟨?_, h⟩⟩
      have hle : value ≤ value * unit.seconds := Nat.le_mul_of_pos_right value hunit
      have h2 := h.2
      simp only [IsWord] at h ⊢
      omega
    simp only [postorder, List.findSome?_cons, List.findSome?_nil, failure?, hiff, eval, checked_eq, exact]
    split <;> rfl
  | operation op left right ihl ihr =>
    simp only [postorder, List.findSome?_append, List.findSome?_cons, List.findSome?_nil, eval, ihl, ihr]
    cases hl : left.postorder.findSome? failure? with
    | some error => rfl
    | none =>
      cases hr : right.postorder.findSome? failure? with
      | some error => rfl
      | none =>
        show op.apply left.exact right.exact = _
        rw [Operator.apply_eq]
        cases h : op.failure? left.exact right.exact <;> simp [failure?, h, exact]
  | missing cause => rfl
  | stopped before cause ih =>
    simp only [postorder, List.findSome?_append, List.findSome?_cons, List.findSome?_nil, eval, ih]
    cases before.postorder.findSome? failure? <;> rfl

/-- A calculation is the last of its parts. -/
theorem mem_postorder_self (t : Tree) : t ∈ t.postorder := by
  cases t <;> simp [postorder]

/-- A calculation without a failure does not fail by itself. -/
theorem failure?_eq_none {t : Tree} (h : t.firstFailure? = none) : t.failure? = none :=
  List.findSome?_eq_none_iff.mp h t t.mem_postorder_self

/-- An exact value without a failure is a word. -/
theorem isWord_exact {t : Tree} (h : t.firstFailure? = none) : IsWord t.exact := by
  have hself := failure?_eq_none h
  cases t with
  | number value unit =>
    simp only [failure?] at hself
    split at hself
    · next hword => exact hword.2
    · cases hself
  | operation op left right =>
    simp only [failure?, Operator.failure?] at hself
    split at hself
    · cases hself
    · split at hself
      · next hword => exact hword
      · cases hself
  | missing cause => cases hself
  | stopped before cause => cases hself

/-- A calculation that could not be read to its end fails. -/
theorem isComplete_of_firstFailure? {t : Tree} (h : t.firstFailure? = none) : t.IsComplete := by
  unfold firstFailure? at h
  induction t with
  | number value unit => trivial
  | operation op left right ihl ihr =>
    rw [postorder, List.findSome?_append, List.findSome?_append, Option.or_eq_none_iff, Option.or_eq_none_iff] at h
    exact ⟨ihl h.1.1, ihr h.1.2⟩
  | missing cause => cases h
  | stopped before cause ih =>
    rw [postorder, List.findSome?_append, Option.or_eq_none_iff] at h
    cases h.2

/-- The parts of a calculation that was read to its end were read to their ends. -/
theorem isComplete_of_mem_postorder {t part : Tree} (ht : t.IsComplete) (hpart : part ∈ t.postorder) :
    part.IsComplete := by
  induction t with
  | number value unit =>
    rw [postorder, List.mem_singleton] at hpart
    rw [hpart]
    exact ht
  | operation op left right ihl ihr =>
    rw [postorder, List.mem_append, List.mem_append, List.mem_singleton] at hpart
    rcases hpart with (hleft | hright) | hself
    · exact ihl ht.1 hleft
    · exact ihr ht.2 hright
    · rw [hself]
      exact ht
  | missing cause => exact ht.elim
  | stopped before cause => exact ht.elim

/-- A number or an operation fails only with an overflow or at a zero divisor. -/
theorem failure?_of_isComplete {t : Tree} {error : Error} (ht : t.IsComplete) (h : t.failure? = some error) :
    error = .overflow ∨ error = .divisionByZero := by
  cases t with
  | number value unit =>
    simp only [failure?] at h
    split at h
    · cases h
    · cases h
      exact Or.inl rfl
  | operation op left right =>
    simp only [failure?, Operator.failure?] at h
    split at h
    · cases h
      exact Or.inr rfl
    · split at h
      · cases h
      · cases h
        exact Or.inl rfl
  | missing cause => exact ht.elim
  | stopped before cause => exact ht.elim

/-- A calculation that was read to its end fails only with an overflow or at a zero divisor. -/
theorem firstFailure?_of_isComplete {t : Tree} {error : Error} (ht : t.IsComplete) (h : t.firstFailure? = some error) :
    error = .overflow ∨ error = .divisionByZero := by
  obtain ⟨part, hpart, hfail⟩ := List.exists_of_findSome?_eq_some h
  exact failure?_of_isComplete (isComplete_of_mem_postorder ht hpart) hfail

/-- A calculation that fails has no length, for the same reason. -/
theorem length_of_firstFailure? {t : Tree} {error : Error} (h : t.firstFailure? = some error) :
    t.length = .error error := by
  simp only [length, eval_eq, h]
  rfl

/-- The length of a calculation without a failure is its exact value, unless that is negative. -/
theorem length_of_exact {t : Tree} (h : t.firstFailure? = none) :
    t.length = if t.exact < 0 then .error (.negative t.exact) else .ok (UInt64.ofNat t.exact.toNat) := by
  simp only [length, eval_eq, h]
  rfl

/-- A calculation has a length exactly if no part of it fails and the exact value is that length. -/
theorem length_eq_ok_iff {t : Tree} {n : UInt64} : t.length = .ok n ↔ t.firstFailure? = none ∧ t.exact = n.toNat := by
  cases hf : t.firstFailure? with
  | some error => simp [length_of_firstFailure? hf]
  | none =>
    have hword := (isWord_exact hf).2
    rw [length_of_exact hf]
    by_cases hneg : t.exact < 0
    · rw [if_pos hneg]
      refine ⟨fun h => (nomatch h), fun h => ?_⟩
      omega
    · rw [if_neg hneg, Except.ok.injEq]
      have hnat : (UInt64.ofNat t.exact.toNat).toNat = t.exact.toNat :=
        UInt64.toNat_ofNat_of_lt' (by show _ < 18446744073709551616; omega)
      refine ⟨fun h => ⟨rfl, ?_⟩, fun h => ?_⟩
      · rw [← h, hnat]
        omega
      · apply UInt64.toNat_inj.mp
        rw [hnat]
        omega

end Tree

end Recurrence.CycleLength
