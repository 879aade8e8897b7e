/-!
# Sets of field values

A `ValueSet` is a finite set of natural numbers, held as the strictly ascending list of its members, so that two sets
with the same members are equal (`ValueSet.ext`). Each operation is pinned by what it does to membership.
-/

namespace Recurrence

/-- A finite set of natural numbers, as its members in strictly ascending order. -/
structure ValueSet where
  toList : List Nat
  ascending : toList.Pairwise (· < ·)
  deriving DecidableEq

namespace ValueSet

/-! ### Merging ascending lists -/

/-- The members of two ascending lists, in ascending order; a member of both is kept once. -/
def merge : List Nat → List Nat → List Nat
  | [], ys => ys
  | x :: xs, [] => x :: xs
  | x :: xs, y :: ys =>
    if x < y then x :: merge xs (y :: ys)
    else if y < x then y :: merge (x :: xs) ys
    else x :: merge xs ys
  termination_by xs ys => xs.length + ys.length

/-- Merging loses no member and adds none. -/
theorem mem_merge {n : Nat} {xs ys : List Nat} : n ∈ merge xs ys ↔ n ∈ xs ∨ n ∈ ys := by
  fun_induction merge xs ys with
  | case1 => simp
  | case2 => simp
  | case3 x xs y ys _ ih => simp [ih, or_assoc]
  | case4 x xs y ys _ _ ih =>
    simp only [List.mem_cons, ih]
    constructor <;> (intro h; rcases h with h | h | h <;> simp_all)
  | case5 x xs y ys h h' ih =>
    have hxy : x = y := by omega
    subst hxy
    simp only [List.mem_cons, ih]
    constructor
    · rintro (h | h | h) <;> simp [h]
    · rintro ((h | h) | h | h) <;> simp [h]

/-- Merging ascending lists gives an ascending list. -/
theorem pairwise_merge {xs ys : List Nat} (hx : xs.Pairwise (· < ·)) (hy : ys.Pairwise (· < ·)) :
    (merge xs ys).Pairwise (· < ·) := by
  fun_induction merge xs ys with
  | case1 => exact hy
  | case2 => exact hx
  | case3 x xs y ys h ih =>
    have hx' := List.pairwise_cons.mp hx
    have hy' := List.pairwise_cons.mp hy
    refine List.pairwise_cons.mpr ⟨fun n hn => ?_, ih hx'.2 hy⟩
    rcases mem_merge.mp hn with hn | hn
    · exact hx'.1 n hn
    · rcases List.mem_cons.mp hn with rfl | hn
      · exact h
      · exact Nat.lt_trans h (hy'.1 n hn)
  | case4 x xs y ys _ h ih =>
    have hx' := List.pairwise_cons.mp hx
    have hy' := List.pairwise_cons.mp hy
    refine List.pairwise_cons.mpr ⟨fun n hn => ?_, ih hx hy'.2⟩
    rcases mem_merge.mp hn with hn | hn
    · rcases List.mem_cons.mp hn with rfl | hn
      · exact h
      · exact Nat.lt_trans h (hx'.1 n hn)
    · exact hy'.1 n hn
  | case5 x xs y ys h h' ih =>
    have hx' := List.pairwise_cons.mp hx
    have hy' := List.pairwise_cons.mp hy
    have hxy : x = y := by omega
    subst hxy
    refine List.pairwise_cons.mpr ⟨fun n hn => ?_, ih hx'.2 hy'.2⟩
    rcases mem_merge.mp hn with hn | hn
    · exact hx'.1 n hn
    · exact hy'.1 n hn

/-! ### Sets and their members -/

instance : Membership Nat ValueSet :=
  ⟨fun s n => n ∈ s.toList⟩

instance (n : Nat) (s : ValueSet) : Decidable (n ∈ s) :=
  inferInstanceAs (Decidable (n ∈ s.toList))

/-- Membership is membership in the list. -/
theorem mem_toList {s : ValueSet} {n : Nat} : n ∈ s.toList ↔ n ∈ s :=
  Iff.rfl

/-- Sets with the same members are equal. -/
@[ext] theorem ext {s t : ValueSet} (h : ∀ n, n ∈ s ↔ n ∈ t) : s = t := by
  have key : ∀ (xs ys : List Nat), xs.Pairwise (· < ·) → ys.Pairwise (· < ·) → (∀ n, n ∈ xs ↔ n ∈ ys) → xs = ys := by
    intro xs
    induction xs with
    | nil =>
      intro ys _ _ h
      cases ys with
      | nil => rfl
      | cons y ys => exact absurd ((h y).mpr (by simp)) (by simp)
    | cons x xs ih =>
      intro ys hx hy h
      have hx' := List.pairwise_cons.mp hx
      cases ys with
      | nil => exact absurd ((h x).mp (by simp)) (by simp)
      | cons y ys =>
        have hy' := List.pairwise_cons.mp hy
        have hxy : x = y := by
          rcases List.mem_cons.mp ((h x).mp (by simp)) with h1 | h1
          · exact h1
          · rcases List.mem_cons.mp ((h y).mpr (by simp)) with h2 | h2
            · exact h2.symm
            · have := hy'.1 x h1
              have := hx'.1 y h2
              omega
        subst hxy
        rw [ih ys hx'.2 hy'.2 fun n => ?_]
        constructor
        · intro hn
          have hlt := hx'.1 n hn
          rcases List.mem_cons.mp ((h n).mp (List.mem_cons_of_mem _ hn)) with h1 | h1
          · omega
          · exact h1
        · intro hn
          have hlt := hy'.1 n hn
          rcases List.mem_cons.mp ((h n).mpr (List.mem_cons_of_mem _ hn)) with h1 | h1
          · omega
          · exact h1
  cases s with
  | mk xs hx =>
    cases t with
    | mk ys hy =>
      have := key xs ys hx hy h
      subst this
      rfl

/-- The set without members. -/
def empty : ValueSet :=
  ⟨[], List.Pairwise.nil⟩

/-- The set with one member. -/
def singleton (n : Nat) : ValueSet :=
  ⟨[n], List.pairwise_singleton _ _⟩

/-- The members of either set. -/
def union (s t : ValueSet) : ValueSet :=
  ⟨merge s.toList t.toList, pairwise_merge s.ascending t.ascending⟩

/-- The members that satisfy a test. -/
def filter (p : Nat → Bool) (s : ValueSet) : ValueSet :=
  ⟨s.toList.filter p, s.ascending.filter p⟩

/-- The members of a list. -/
def ofList (ns : List Nat) : ValueSet :=
  ns.foldr (fun n s => (singleton n).union s) empty

/-- The numbers `first`, `first + step`, `first + 2 * step` and so on, up to `last`. -/
def progression (first last step : Nat) : ValueSet :=
  ⟨(List.range' first (last + 1 - first)).filter (fun n => (n - first) % step = 0),
    (List.pairwise_lt_range' 1).filter _⟩

/-- The least member. -/
def min? (s : ValueSet) : Option Nat :=
  s.toList.head?

/-- The greatest member. -/
def max? (s : ValueSet) : Option Nat :=
  s.toList.getLast?

/-- The members from `high` down to `low`. -/
def downFrom (s : ValueSet) (high low : Nat) : List Nat :=
  (s.toList.filter (fun n => low ≤ n && n ≤ high)).reverse

@[simp] theorem not_mem_empty (n : Nat) : ¬ n ∈ empty :=
  List.not_mem_nil

@[simp] theorem mem_singleton {m n : Nat} : m ∈ singleton n ↔ m = n :=
  List.mem_singleton

@[simp] theorem mem_union {n : Nat} {s t : ValueSet} : n ∈ s.union t ↔ n ∈ s ∨ n ∈ t :=
  mem_merge

@[simp] theorem mem_filter {n : Nat} {p : Nat → Bool} {s : ValueSet} : n ∈ s.filter p ↔ n ∈ s ∧ p n = true :=
  List.mem_filter

@[simp] theorem mem_ofList {n : Nat} {ns : List Nat} : n ∈ ofList ns ↔ n ∈ ns := by
  induction ns with
  | nil => simp [ofList]
  | cons m ns ih =>
    show n ∈ (singleton m).union (ofList ns) ↔ _
    simp [ih]

@[simp] theorem mem_progression {n first last step : Nat} :
    n ∈ progression first last step ↔ first ≤ n ∧ n ≤ last ∧ (n - first) % step = 0 := by
  show n ∈ List.filter _ _ ↔ _
  simp only [List.mem_filter, List.mem_range'_1, decide_eq_true_eq]
  omega

@[simp] theorem mem_downFrom {n high low : Nat} {s : ValueSet} :
    n ∈ s.downFrom high low ↔ n ∈ s ∧ low ≤ n ∧ n ≤ high := by
  simp [downFrom, mem_toList]

/-- Going down, the greatest members come first. -/
theorem pairwise_downFrom (s : ValueSet) (high low : Nat) : (s.downFrom high low).Pairwise (· > ·) :=
  List.pairwise_reverse.mpr (s.ascending.filter _)

end ValueSet

end Recurrence
