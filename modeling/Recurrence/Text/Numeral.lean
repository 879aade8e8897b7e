/-!
# Text: decimal numerals

Three ways a whole text reads as a number. `natural?` wants ASCII digits only and at least one; `unsigned?` also takes a
single leading plus sign, and `signed?` a single leading plus or minus sign. Leading zeros are welcome in all of them.
Writing a number in decimal and reading it back gives the number (`natural?_decimal`, `unsigned?_decimal`).
-/

namespace Recurrence.Text

/-- The number that a nonempty text of ASCII digits writes in decimal. -/
def natural? (cs : List Char) : Option Nat :=
  if cs ≠ [] ∧ cs.all Char.isDigit = true then some (Nat.ofDigitChars 10 cs 0) else none

/-- The number that digits write, with or without one plus sign before them. -/
def unsigned? : List Char → Option Nat
  | '+' :: digits => natural? digits
  | digits => natural? digits

/-- The integer that digits write, with or without one plus or minus sign before them. -/
def signed? : List Char → Option Int
  | '+' :: digits => (natural? digits).map (fun n => (n : Int))
  | '-' :: digits => (natural? digits).map (fun n => -(n : Int))
  | digits => (natural? digits).map (fun n => (n : Int))

/-- The decimal digits of a number, without leading zeros. -/
def decimal (n : Nat) : List Char :=
  Nat.toDigits 10 n

/-- A number written in decimal reads as that number. -/
@[simp] theorem natural?_decimal (n : Nat) : natural? (decimal n) = some n := by
  have h : decimal n ≠ [] ∧ (decimal n).all Char.isDigit = true :=
    ⟨Nat.toDigits_ne_nil,
      List.all_eq_true.mpr fun _ hc => Nat.isDigit_of_mem_toDigits (by decide) (by decide) hc⟩
  rw [natural?, if_pos h, decimal, Nat.ofDigitChars_toDigits (by decide) (by decide)]

/-- A digit is no sign. -/
theorem decimal_head_ne {n : Nat} {c : Char} {rest : List Char} (h : decimal n = c :: rest) : c ≠ '+' ∧ c ≠ '-' := by
  have hc : c.isDigit = true :=
    Nat.isDigit_of_mem_toDigits (b := 10) (n := n) (by decide) (by decide) (by rw [← decimal, h]; simp)
  constructor <;> (rintro rfl; revert hc; decide)

/-- A number above zero, written in decimal, does not begin with a zero. -/
theorem head?_decimal {n : Nat} (h : 0 < n) : (decimal n).head? ≠ some '0' := by
  induction n using Nat.strongRecOn with
  | ind n ih =>
    rcases Nat.lt_or_ge n 10 with hlt | hge
    · have hdigits : ∀ d < 10, 0 < d → some (Nat.digitChar d) ≠ some '0' := by decide
      rw [decimal, Nat.toDigits_of_lt_base hlt]
      exact hdigits n hlt h
    · have hhead := ih (n / 10) (by omega) (by omega)
      rw [decimal] at hhead ⊢
      rw [Nat.toDigits_of_base_le (by decide) hge]
      cases hdigits : Nat.toDigits 10 (n / 10) with
      | nil => exact absurd hdigits Nat.toDigits_ne_nil
      | cons d digits =>
        rw [hdigits] at hhead
        exact hhead

/-- A number written in decimal reads as that number also where a sign may stand. -/
@[simp] theorem unsigned?_decimal (n : Nat) : unsigned? (decimal n) = some n := by
  rw [unsigned?.eq_def]
  split
  · next h => exact absurd rfl (decimal_head_ne h).1
  · exact natural?_decimal n

end Recurrence.Text
