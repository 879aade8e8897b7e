import Recurrence.Countdown.Breakdown
import Recurrence.Proofs.Text

/-!
# What is shown gives back the seconds

A number of seconds is shown as four groups of digits with colons between them. Each part is a remainder of the whole number,
and together the parts are the only ones that make it up within the bounds of the units (`Breakdown.eq_ofSeconds_iff`). A
group reads as its part (`Breakdown.natural?_twoDigits`) and holds no colon, so the whole text reads as the number
(`Breakdown.secondsIn?_text`). The days may take more than two digits.
-/

namespace Recurrence.Breakdown

/-- The form of a group: ASCII digits, at least two, and a zero in front at most to make them two. -/
def IsGroup (group : List Char) : Prop :=
  (∀ c ∈ group, c.isDigit = true) ∧ 2 ≤ group.length ∧ (2 < group.length → group.head? ≠ some '0')

/-- The seconds that days, hours, minutes and seconds make. -/
def total (b : Breakdown) : Nat :=
  86400 * b.days + 3600 * b.hours + 60 * b.minutes + b.seconds

/-- The seconds that a text of four decimal groups with colons between them stands for. -/
def secondsIn? (text : String) : Option Nat :=
  match (text.toList.splitOn ':').mapM Text.natural? with
  | some [days, hours, minutes, seconds] => some (total ⟨days, hours, minutes, seconds⟩)
  | _ => none

/-! ### Parts -/

/-- The parts of a number of seconds are the only ones that make it up with hours below 24, and minutes and seconds below
60. -/
theorem eq_ofSeconds_iff (b : Breakdown) (seconds : Nat) :
    b = ofSeconds seconds ↔ b.total = seconds ∧ b.hours < 24 ∧ b.minutes < 60 ∧ b.seconds < 60 := by
  constructor
  · rintro rfl
    exact ofSeconds_spec seconds
  · rintro ⟨htotal, hhours, hminutes, hseconds⟩
    obtain ⟨days, hours, minutes, rest⟩ := b
    simp only [total] at htotal hhours hminutes hseconds
    simp only [ofSeconds, mk.injEq]
    omega

/-! ### Groups -/

/-- A group is the decimal digits of a number, with zeros before them. -/
theorem twoDigits_eq (n : Nat) :
    twoDigits n = List.replicate (2 - (Text.decimal n).length) '0' ++ Text.decimal n :=
  rfl

/-- A group of more than two digits is the number as it is written in decimal. -/
theorem twoDigits_of_two_lt {n : Nat} (h : 2 < (twoDigits n).length) : twoDigits n = Text.decimal n := by
  rw [twoDigits_eq, List.length_append, List.length_replicate] at h
  rw [twoDigits_eq, Nat.sub_eq_zero_of_le (by omega)]
  rfl

/-- A group has only digits. -/
theorem isDigit_of_mem_twoDigits {n : Nat} {c : Char} (h : c ∈ twoDigits n) : c.isDigit = true := by
  rw [twoDigits_eq, List.mem_append] at h
  rcases h with hzero | hdecimal
  · rw [List.eq_of_mem_replicate hzero]
    rfl
  · exact Text.isDigit_of_mem_decimal hdecimal

/-- Every number is shown as a group. -/
theorem isGroup_twoDigits (n : Nat) : IsGroup (twoDigits n) := by
  refine ⟨fun c hc => isDigit_of_mem_twoDigits hc, ?_, fun hlong => ?_⟩
  · rw [twoDigits, List.length_leftpad]
    exact Nat.le_max_left _ _
  · rw [twoDigits_of_two_lt hlong]
    refine Text.head?_decimal (Nat.pos_of_ne_zero ?_)
    rintro rfl
    revert hlong
    decide

/-- A group reads as the number that is shown by it. -/
theorem natural?_twoDigits (n : Nat) : Text.natural? (twoDigits n) = some n := by
  refine Text.natural?_eq_some_iff.mpr ⟨⟨?_, fun c hc => isDigit_of_mem_twoDigits hc⟩, ?_⟩
  · exact List.ne_nil_of_length_pos (Nat.lt_of_lt_of_le (by decide) (isGroup_twoDigits n).2.1)
  · rw [twoDigits_eq, Nat.ofDigitChars_append, Nat.ofDigitChars_replicate_zero, Nat.mul_zero, Text.decimal,
      Nat.ofDigitChars_ten_toDigits]

/-! ### The text -/

/-- The text is cut at its colons into the groups of the parts. -/
theorem splitOn_text (b : Breakdown) : b.text.toList.splitOn ':' = b.parts.map twoDigits := by
  rw [text, String.toList_ofList]
  refine List.splitOn_intercalate ':' (fun group hgroup hcolon => ?_) (List.cons_ne_nil _ _)
  obtain ⟨n, -, rfl⟩ := List.mem_map.mp hgroup
  have hdigit := isDigit_of_mem_twoDigits hcolon
  cases hdigit

/-- The text reads as the seconds that its parts make. -/
theorem secondsIn?_text (b : Breakdown) : secondsIn? b.text = some b.total := by
  have hparts : (b.parts.map twoDigits).mapM Text.natural? = some b.parts := by
    simp only [parts, List.map_cons, List.map_nil, List.mapM_cons, List.mapM_nil, natural?_twoDigits]
    rfl
  rw [secondsIn?, splitOn_text, hparts]
  rfl

/-- What is shown determines the seconds, however many they are:
1. the parts are the only ones with hours below 24, and minutes and seconds below 60, that make up the seconds;
2. the text is cut at its colons into exactly four groups, and each has the form of a group;
3. the groups, read as decimals, give the seconds back;
4. so two numbers of seconds with the same text are equal. -/
theorem ofSeconds_shown (seconds : Nat) :
    (∀ b : Breakdown, b = ofSeconds seconds ↔ b.total = seconds ∧ b.hours < 24 ∧ b.minutes < 60 ∧ b.seconds < 60) ∧
    (∃ days hours minutes rest, (ofSeconds seconds).text.toList.splitOn ':' = [days, hours, minutes, rest] ∧
      ∀ group ∈ [days, hours, minutes, rest], IsGroup group) ∧
    secondsIn? (ofSeconds seconds).text = some seconds ∧
    ∀ other, (ofSeconds other).text = (ofSeconds seconds).text → other = seconds := by
  have hread : ∀ n, secondsIn? (ofSeconds n).text = some n := by
    intro n
    rw [secondsIn?_text, ((eq_ofSeconds_iff (ofSeconds n) n).mp rfl).1]
  refine ⟨fun b => eq_ofSeconds_iff b seconds, ⟨_, _, _, _, splitOn_text _, ?_⟩, hread seconds, ?_⟩
  · intro group hgroup
    obtain ⟨n, -, rfl⟩ : ∃ n ∈ (ofSeconds seconds).parts, twoDigits n = group := List.mem_map.mp hgroup
    exact isGroup_twoDigits n
  · intro other htext
    have hsome : some other = some seconds := by rw [← hread other, htext, hread seconds]
    exact Option.some.inj hsome

example : (ofSeconds 8640000).text = "100:00:00:00" := by decide

end Recurrence.Breakdown
