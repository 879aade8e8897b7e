import Mathlib
import Recurrence.CycleLength.Basic
import Recurrence.Expression.Fault
import Recurrence.Offset.Catalog
import Recurrence.Proofs.Expression.Strict
import Recurrence.Proofs.Text
import Recurrence.Schedule.Settings

/-!
# Messages tell what they report

No two things that are reported have the same message, so nothing is lost when only the messages are kept. For each kind of
report that is one statement: `Expression.Fault.message_injective`, `Expression.Defect.message_injective`,
`CycleLength.Error.message_injective`, `LengthMismatch.message_injective`, `Offset.Buckets.Error.message_injective` and
`Offset.Miss.message_injective`. The name of a field ends at the first colon and a number at the first character that is no
digit (`Text.append_cons_inj`). A text that may hold anything stands at the end of a message, or a last blank comes after it
(`Text.append_cons_inj_of_notMem_last`).
-/

namespace Recurrence

/-! ### Parts of a message -/

namespace Text

/-- A text is divided at its first separator in one way. -/
theorem append_cons_inj {separator : Char} {left left' right right' : List Char} (h : separator ∉ left)
    (h' : separator ∉ left') (heq : left ++ separator :: right = left' ++ separator :: right') :
    left = left' ∧ right = right' := by
  have hcut := congrArg (cut separator) heq
  rw [cut_append right h, cut_append right' h', Prod.mk.injEq, Option.some.injEq] at hcut
  exact hcut

/-- A text is divided at its last separator in one way. -/
theorem append_cons_inj_of_notMem_last {separator : Char} {left left' right right' : List Char} (h : separator ∉ right)
    (h' : separator ∉ right') (heq : left ++ separator :: right = left' ++ separator :: right') :
    left = left' ∧ right = right' := by
  have hreverse : right.reverse ++ separator :: left.reverse = right'.reverse ++ separator :: left'.reverse := by
    simpa using congrArg List.reverse heq
  obtain ⟨hright, hleft⟩ := append_cons_inj (by simpa using h) (by simpa using h') hreverse
  exact ⟨List.reverse_injective hleft, List.reverse_injective hright⟩

/-- Numbers with the same decimal digits are equal. -/
theorem decimal_injective : Function.Injective decimal := by
  intro n n' h
  have hread : some n = some n' := by rw [← natural?_decimal n, h, natural?_decimal]
  exact Option.some.inj hread

/-- A character that is no digit is in no number. -/
theorem notMem_decimal {c : Char} (hc : c.isDigit = false) (n : Nat) : c ∉ decimal n := by
  intro h
  rw [isDigit_of_mem_decimal h] at hc
  cases hc

/-- A number ends at the first character that is no digit. -/
theorem decimal_append_cons_inj {n n' : Nat} {c : Char} {rest rest' : List Char} (hc : c.isDigit = false)
    (h : decimal n ++ c :: rest = decimal n' ++ c :: rest') : n = n' ∧ rest = rest' := by
  obtain ⟨hdigits, hrest⟩ := append_cons_inj (notMem_decimal hc n) (notMem_decimal hc n') h
  exact ⟨decimal_injective hdigits, hrest⟩

/-- An integer is written without a blank. -/
theorem notMem_toList_repr (n : Int) : ' ' ∉ n.repr.toList := by
  rw [Int.repr_eq_if]
  split
  · simpa [decimal] using notMem_decimal rfl n.toNat
  · simpa [decimal] using notMem_decimal rfl (-n).toNat

/-! ### Quoted characters -/

/-- Numbers with the same digits of base 16 are equal. -/
theorem toDigits_sixteen_injective : Function.Injective (Nat.toDigits 16) := by
  have hdigits : ∀ n < 16, ∀ m < 16, Nat.digitChar n = Nat.digitChar m → n = m := by decide
  have hone : ∀ n, (Nat.toDigits 16 n).length ≤ 1 ↔ n < 16 :=
    fun n => Nat.length_toDigits_le_iff (by decide) (by decide)
  intro n m h
  induction n using Nat.strongRecOn generalizing m with
  | ind n ih =>
    have hboth : n < 16 ↔ m < 16 := by rw [← hone, h, hone]
    rcases Nat.lt_or_ge n 16 with hn | hn
    · have hm := hboth.mp hn
      rw [Nat.toDigits_of_lt_base hn, Nat.toDigits_of_lt_base hm] at h
      exact hdigits n hn m hm (List.cons.inj h).1
    · have hm : 16 ≤ m := by omega
      rw [Nat.toDigits_of_base_le (by decide) hn, Nat.toDigits_of_base_le (by decide) hm] at h
      obtain ⟨hinit, hlast⟩ := List.append_inj' h rfl
      have hquotient := ih (n / 16) (by omega) hinit
      have hremainder := hdigits _ (Nat.mod_lt n (by decide)) _ (Nat.mod_lt m (by decide)) (List.cons.inj hlast).1
      omega

/-- What may come after a backslash alone, with the character that it stands for. -/
def letterEscapes : List (Char × Char) :=
  [('0', '\x00'), ('t', '\t'), ('n', '\n'), ('r', '\r'), ('\'', '\''), ('\\', '\\')]

/-- Between the quotes stands the character itself, or a backslash with a letter, or a code point. -/
theorem quotedBody_cases (c : Char) :
    quotedBody c = [c] ∨ (∃ letter, (letter, c) ∈ letterEscapes ∧ quotedBody c = ['\\', letter]) ∨
      quotedBody c = codePointEscape c := by
  unfold quotedBody
  split
  case h_7 =>
    split
    · exact Or.inr (Or.inr rfl)
    · exact Or.inl rfl
  all_goals exact Or.inr (Or.inl ⟨_, by decide, rfl⟩)

/-- What stands between the quotes stands for one character. -/
theorem quotedBody_injective : Function.Injective quotedBody := by
  have hletters : ∀ p ∈ letterEscapes, ∀ q ∈ letterEscapes, p.1 = q.1 → p.2 = q.2 := by decide
  intro c c' h
  -- The three forms differ in length, so both characters have the same form.
  rcases quotedBody_cases c with hc | ⟨letter, hletter, hc⟩ | hc <;>
    rcases quotedBody_cases c' with hc' | ⟨letter', hletter', hc'⟩ | hc' <;>
    rw [hc, hc'] at h <;>
    simp [codePointEscape] at h
  · exact h
  · exact hletters _ hletter _ hletter' h
  · exact Char.toNat_inj.mp (toDigits_sixteen_injective h)

/-- Characters that are shown alike are equal. -/
theorem quoted_injective : Function.Injective quoted := by
  intro c c' h
  have hchars := String.ofList_injective h
  exact quotedBody_injective (List.append_inj_left' (List.cons.inj hchars).2 rfl)

end Text

/-! ### Faults of an expression -/

namespace Field

/-- Fields with the same name are equal. -/
theorem name_injective : Function.Injective name := by
  have hall : ∀ f ∈ all, ∀ f' ∈ all, f.name = f'.name → f = f' := by decide
  intro f f' h
  exact hall f f.mem_all f' f'.mem_all h

/-- A text that begins with the name of a field and goes on with a colon names one field. -/
theorem name_append_cons_inj {f f' : Field} {label rest rest' : List Char} (hlabel : ':' ∉ label)
    (h : f.name.toList ++ (label ++ ':' :: rest) = f'.name.toList ++ (label ++ ':' :: rest')) : f = f' ∧ rest = rest' := by
  have hname : ∀ f ∈ all, ':' ∉ f.name.toList := by decide
  rw [← List.append_assoc, ← List.append_assoc] at h
  obtain ⟨hleft, hrest⟩ := Text.append_cons_inj
    (by simpa using ⟨hname f f.mem_all, hlabel⟩) (by simpa using ⟨hname f' f'.mem_all, hlabel⟩) h
  exact ⟨name_injective (String.toList_injective (List.append_cancel_right hleft)), hrest⟩

end Field

namespace Expression

/-- Within one field, defects with the same text are equal. -/
theorem Defect.eq_of_text_eq {d d' : Defect} (hfield : d.field = d'.field) (h : d.text = d'.text) : d = d' := by
  -- `delta`, because Lean takes very long to prove the equations of a match whose branches are interpolated texts.
  delta text at h
  have hchars := congrArg String.toList h
  -- Texts of different forms differ in a letter that is the same in every text of the form.
  rcases d with count | ⟨f, _ | _ | _, chunk⟩ <;> rcases d' with count' | ⟨f', _ | _ | _, chunk'⟩ <;>
    simp [toString, field] at hchars hfield
  · rw [Text.decimal_injective hchars]
  all_goals rw [hfield, String.toList_injective hchars]

/-- The message of a defect names the field before the colon. -/
theorem Defect.toList_message (d : Defect) :
    d.message.toList = "Invalid ".toList ++ (d.field.name.toList ++ (" field".toList ++ ':' :: ' ' :: d.text.toList)) := by
  delta message
  simp [toString]

/-- Defects with the same message are equal. -/
theorem Defect.message_injective : Function.Injective Defect.message := by
  intro d d' h
  have hchars := congrArg String.toList h
  rw [toList_message, toList_message] at hchars
  obtain ⟨hfield, hrest⟩ := Field.name_append_cons_inj (by decide) (List.append_cancel_left hchars)
  exact eq_of_text_eq hfield (String.toList_injective (List.cons.inj hrest).2)

/-- The text of a defect does not begin like that of a set outside its bounds. -/
theorem Defect.head?_text (d : Defect) : d.text.toList.head? ≠ some 'V' := by
  delta text
  rcases d with count | ⟨f, _ | _ | _, chunk⟩ <;> simp [toString]

/-- Within one field, faults with the same text are equal. -/
theorem Fault.eq_of_text_eq {fault fault' : Fault} (hfield : fault.field = fault'.field)
    (h : fault.text = fault'.text) : fault = fault' := by
  delta text at h
  have hchars := congrArg String.toList h
  rcases fault with d | ⟨f, lowest, highest⟩ <;> rcases fault' with d' | ⟨f', lowest', highest'⟩ <;>
    simp [toString, field] at hchars hfield
  · rw [Defect.eq_of_text_eq hfield (String.toList_injective hchars)]
  · exact absurd (by rw [hchars]; rfl) d.head?_text
  · exact absurd (by rw [← hchars]; rfl) d'.head?_text
  · obtain ⟨hlowest, hrest⟩ := Text.decimal_append_cons_inj rfl hchars
    obtain ⟨hhighest, -⟩ := Text.decimal_append_cons_inj rfl hrest
    rw [hfield, hlowest, hhighest]

/-- The message of a fault begins with the name of the field and the colon. -/
theorem Fault.toList_message (fault : Fault) :
    fault.message.toList = fault.field.name.toList ++ ':' :: ' ' :: fault.text.toList := by
  delta message
  simp [toString]

/-- Faults with the same message are equal. -/
theorem Fault.message_injective : Function.Injective Fault.message := by
  intro fault fault' h
  have hchars := congrArg String.toList h
  rw [toList_message, toList_message] at hchars
  obtain ⟨hfield, hrest⟩ := Field.name_append_cons_inj List.not_mem_nil hchars
  exact eq_of_text_eq hfield (String.toList_injective (List.cons.inj hrest).2)

end Expression

/-! ### Cycle lengths, schedules and offsets -/

/-- Errors of a cycle length with the same message are equal. -/
theorem CycleLength.Error.message_injective : Function.Injective Error.message := by
  intro error error' h
  delta message at h
  have hchars := congrArg String.toList h
  -- Messages of different forms differ in a letter that is the same in every message of the form.
  rcases error with ⟨⟨offset, c⟩ | _ | offset⟩ | _ | _ | value <;>
    rcases error' with ⟨⟨offset', c'⟩ | _ | offset'⟩ | _ | _ | value' <;>
    simp [toString] at hchars
  case unreadable.unexpectedChar.unreadable.unexpectedChar =>
    have hsplit : (Text.quoted c).toList ++ " at".toList ++ ' ' :: Text.decimal offset =
        (Text.quoted c').toList ++ " at".toList ++ ' ' :: Text.decimal offset' := by
      simpa [Text.decimal] using hchars
    obtain ⟨hleft, hoffset⟩ := Text.append_cons_inj_of_notMem_last (Text.notMem_decimal rfl _)
      (Text.notMem_decimal rfl _) hsplit
    rw [Text.quoted_injective (String.toList_injective (List.append_cancel_right hleft)),
      Text.decimal_injective hoffset]
  case unreadable.unbalanced.unreadable.unbalanced => rw [Text.decimal_injective hchars]
  case negative.negative => rw [Int.repr_injective (String.toList_injective hchars)]
  all_goals rfl

/-- Mismatches with the same message are equal. -/
theorem LengthMismatch.message_injective : Function.Injective message := by
  intro m m' h
  delta message at h
  have hchars := congrArg String.toList h
  simp [toString] at hchars
  obtain ⟨hstarts, hrest⟩ := Text.decimal_append_cons_inj rfl hchars
  simp only [List.cons.injEq, true_and] at hrest
  obtain ⟨hintervals, -⟩ := Text.decimal_append_cons_inj rfl hrest
  cases m
  cases m'
  rw [mk.injEq]
  exact ⟨hstarts, hintervals⟩

/-- Errors of a list of buckets with the same message are equal. -/
theorem Offset.Buckets.Error.message_injective : Function.Injective Error.message := by
  intro error error' h
  delta message at h
  have hchars := congrArg String.toList h
  rcases error with count | _ | _ <;> rcases error' with count' | _ | _ <;> simp [toString] at hchars
  case wrongLength.wrongLength => rw [Text.decimal_injective hchars]
  all_goals rfl

/-- Misses with the same message are equal. The name may hold anything, so it ends where the message ends with the minutes. -/
theorem Offset.Miss.message_injective : Function.Injective message := by
  intro m m' h
  delta message at h
  have hchars : m.name.toList ++ " covers".toList ++ ' ' :: m.client.toInt.repr.toList ++ " minutes".toList =
      m'.name.toList ++ " covers".toList ++ ' ' :: m'.client.toInt.repr.toList ++ " minutes".toList := by
    simpa [toString] using congrArg String.toList h
  obtain ⟨hleft, hminutes⟩ := Text.append_cons_inj_of_notMem_last (Text.notMem_toList_repr _) (Text.notMem_toList_repr _)
    (List.append_cancel_right hchars)
  have hname := String.toList_injective (List.append_cancel_right hleft)
  have hclient := Int32.toInt_inj.mp (Int.repr_injective (String.toList_injective hminutes))
  cases m
  cases m'
  rw [mk.injEq]
  exact ⟨hname, hclient⟩

end Recurrence
