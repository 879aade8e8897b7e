import Mathlib.Data.Nat.Digits.Defs
import Recurrence.Json.Number

/-!
# JSON: texts

How values are written, as RFC 8259 has it: strings with any mix of plain characters and escapes, numbers with or without
fraction and exponent, integers in decimal, lists and objects with any spaces around their parts. A value has many texts, so each
form is a relation between a text and what it writes.
-/

namespace Recurrence.Json

variable {α β : Type}

/-- Spaces, as many as there are. -/
def Spaces (cs : List Char) : Prop :=
  ∀ c ∈ cs, isSpace c = true

/-- What may follow a value: nothing, a space, a comma or a closing bracket. -/
def Ends (rest : List Char) : Prop :=
  ∀ c ∈ rest.head?, isSpace c = true ∨ c = ',' ∨ c = ']' ∨ c = '}'

/-! ### Strings -/

/-- A digit of base 16 in either case, with its value. -/
def IsHexDigit (c : Char) (value : Nat) : Prop :=
  value < 16 ∧ (c = Nat.digitChar value ∨ c = (Nat.digitChar value).toUpper)

/-- The four digits of a code unit. -/
def WritesUnit (cs : List Char) (unit : Nat) : Prop :=
  cs.length = 4 ∧ ∃ values, List.Forall₂ IsHexDigit cs values ∧ unit = Nat.ofDigits 16 values.reverse

/-- The letters that a backslash may precede, with the characters that they stand for then. -/
def shortEscapes : List (Char × Char) :=
  [('"', '"'), ('\\', '\\'), ('/', '/'), ('b', '\x08'), ('f', '\x0c'), ('n', '\n'), ('r', '\r'), ('t', '\t')]

/-- The ways to write a character of a string. -/
inductive WritesChar : List Char → Char → Prop where
  /-- A character from U+0020 on stands for itself, unless it is the quote or the backslash. -/
  | plain {c : Char} : ' ' ≤ c → c ≠ '"' → c ≠ '\\' → WritesChar [c] c
  /-- A backslash and a letter. -/
  | short {letter c : Char} : (letter, c) ∈ shortEscapes → WritesChar ['\\', letter] c
  /-- A character by its code unit. -/
  | unit {digits : List Char} {c : Char} : WritesUnit digits c.toNat → WritesChar ('\\' :: 'u' :: digits) c
  /-- A character beyond U+FFFF by the two surrogates of UTF-16. -/
  | surrogates {high low : List Char} {c : Char} : 0x10000 ≤ c.toNat →
      WritesUnit high (0xD800 + (c.toNat - 0x10000) / 0x400) → WritesUnit low (0xDC00 + (c.toNat - 0x10000) % 0x400) →
      WritesChar ('\\' :: 'u' :: high ++ '\\' :: 'u' :: low) c

/-- The characters of a string, one after the other. -/
inductive WritesChars : List Char → List Char → Prop where
  | nil : WritesChars [] []
  | cons {cs ds chars : List Char} {c : Char} : WritesChar cs c → WritesChars ds chars → WritesChars (cs ++ ds) (c :: chars)

/-- A string, between quotes. -/
def WritesString (cs : List Char) (string : String) : Prop :=
  ∃ inner, WritesChars inner string.toList ∧ cs = '"' :: inner ++ ['"']

/-! ### Numbers -/

/-- One digit or more. -/
def IsDigits (cs : List Char) : Prop :=
  cs ≠ [] ∧ ∀ c ∈ cs, c.isDigit = true

/-- The digits before the point: no digit follows a zero at the start. -/
def IsWhole (cs : List Char) : Prop :=
  IsDigits cs ∧ ∀ c rest, cs ≠ '0' :: c :: rest

/-- The point and the digits after it, or nothing. -/
inductive WritesFraction : List Char → List Char → Prop where
  | none : WritesFraction [] []
  | some {digits : List Char} : IsDigits digits → WritesFraction ('.' :: digits) digits

/-- The sign of an exponent, and whether it is a minus sign. -/
inductive WritesSign : List Char → Bool → Prop where
  | none : WritesSign [] false
  | plus : WritesSign ['+'] false
  | minus : WritesSign ['-'] true

/-- The letter, the sign and the digits of an exponent, or nothing. -/
inductive WritesExponent : List Char → Option (Bool × List Char) → Prop where
  | none : WritesExponent [] none
  | some {letter : Char} {sign digits : List Char} {isNegative : Bool} : letter = 'e' ∨ letter = 'E' →
      WritesSign sign isNegative → IsDigits digits → WritesExponent (letter :: (sign ++ digits)) (some (isNegative, digits))

/-- A number without its sign. -/
inductive WritesMagnitude (isNegative : Bool) : List Char → Numeral → Prop where
  | mk {whole point power fraction : List Char} {exponent? : Option (Bool × List Char)} : IsWhole whole →
      WritesFraction point fraction → WritesExponent power exponent? →
      WritesMagnitude isNegative (whole ++ (point ++ power)) ⟨isNegative, whole, fraction, exponent?⟩

/-- A number, with a minus sign or without. -/
inductive WritesNumeral : List Char → Numeral → Prop where
  | positive {cs : List Char} {n : Numeral} : WritesMagnitude false cs n → WritesNumeral cs n
  | negative {cs : List Char} {n : Numeral} : WritesMagnitude true cs n → WritesNumeral ('-' :: cs) n

/-! ### Integers -/

/-- An integer in decimal, with a minus sign if it is below zero. -/
inductive WritesInt : List Char → Int → Prop where
  | natural (n : Nat) : WritesInt (Nat.toDigits 10 n) n
  | negative {n : Nat} : 0 < n → WritesInt ('-' :: Nat.toDigits 10 n) (-n)

/-- An integer of 32 bits. -/
def WritesInt32 (cs : List Char) (value : Int32) : Prop :=
  WritesInt cs value.toInt

/-! ### Lists and objects -/

/-- One part or more, with commas between them and spaces around each. -/
inductive Separated (part : List Char → α → Prop) : List Char → List α → Prop where
  | last {before cs after : List Char} {a : α} : Spaces before → part cs a → Spaces after →
      Separated part (before ++ cs ++ after) [a]
  | more {before cs after ds : List Char} {a : α} {as : List α} : Spaces before → part cs a → Spaces after →
      Separated part ds as → Separated part (before ++ cs ++ after ++ ',' :: ds) (a :: as)

/-- The parts between two brackets, which may be none. -/
inductive Parts (part : List Char → α → Prop) : List Char → List α → Prop where
  | none {cs : List Char} : Spaces cs → Parts part cs []
  | some {cs : List Char} {as : List α} : Separated part cs as → Parts part cs as

/-- A list. -/
def WritesList (item : List Char → α → Prop) (cs : List Char) (as : List α) : Prop :=
  ∃ inner, Parts item inner as ∧ cs = '[' :: inner ++ [']']

/-- A member of an object: its name, a colon, and its value in the form that members of this name have. -/
inductive WritesMember (value : String → List Char → β → Prop) : List Char → String × β → Prop where
  | mk {quoted before after cs : List Char} {name : String} {b : β} : WritesString quoted name → Spaces before →
      Spaces after → value name cs b → WritesMember value (quoted ++ before ++ ':' :: (after ++ cs)) (name, b)

/-- An object, with its members in the order of the text. -/
def WritesObject (value : String → List Char → β → Prop) (cs : List Char) (members : List (String × β)) : Prop :=
  ∃ inner, Parts (WritesMember value) inner members ∧ cs = '{' :: inner ++ ['}']

/-- A text that holds one value, with spaces around it. -/
def WritesText (writes : List Char → α → Prop) (text : String) (a : α) : Prop :=
  ∃ before cs after, Spaces before ∧ writes cs a ∧ Spaces after ∧ text.toList = before ++ cs ++ after

/-- No space is a space too many. -/
theorem spaces_nil : Spaces [] := by
  intro c hc
  cases hc

/-! ### Every value has a text -/

/-- Every code unit has four digits. -/
theorem exists_writesUnit {unit : Nat} (h : unit < 0x10000) : ∃ cs, WritesUnit cs unit := by
  have hdigit : ∀ value, IsHexDigit (Nat.digitChar (value % 16)) (value % 16) :=
    fun value => ⟨Nat.mod_lt value (by decide), Or.inl rfl⟩
  refine ⟨_, rfl, _, .cons (hdigit (unit / 4096)) (.cons (hdigit (unit / 256)) (.cons (hdigit (unit / 16))
    (.cons (hdigit unit) .nil))), ?_⟩
  simp only [List.reverse_cons, List.reverse_nil, List.nil_append, List.cons_append, Nat.ofDigits_cons, Nat.ofDigits_nil]
  omega

/-- Every character may stand in a string: for itself, or escaped by its code unit. -/
theorem exists_writesChar (c : Char) : ∃ cs, WritesChar cs c := by
  by_cases hplain : ' ' ≤ c ∧ c ≠ '"' ∧ c ≠ '\\'
  · exact ⟨[c], WritesChar.plain hplain.1 hplain.2.1 hplain.2.2⟩
  · have hunit : c.toNat < 0x10000 := by
      rw [not_and_or, not_and_or, not_not, not_not] at hplain
      rcases hplain with hspace | rfl | rfl
      · have hlt : c.toNat < ' '.toNat := Char.not_le.mp hspace
        exact Nat.lt_trans hlt (by decide)
      · decide
      · decide
    obtain ⟨cs, hcs⟩ := exists_writesUnit hunit
    exact ⟨_, WritesChar.unit hcs⟩

/-- Characters that stand for themselves need no escape. -/
theorem writesChars_of_plain {cs : List Char} (h : ∀ c ∈ cs, ' ' ≤ c ∧ c ≠ '"' ∧ c ≠ '\\') : WritesChars cs cs := by
  induction cs with
  | nil => exact WritesChars.nil
  | cons c cs ih =>
    obtain ⟨⟨hspace, hquote, hbackslash⟩, hcs⟩ := List.forall_mem_cons.mp h
    exact WritesChars.cons (WritesChar.plain hspace hquote hbackslash) (ih hcs)

/-- Every string has a text. -/
theorem exists_writesString (string : String) : ∃ cs, WritesString cs string := by
  have hchars : ∀ chars, ∃ cs, WritesChars cs chars := by
    intro chars
    induction chars with
    | nil => exact ⟨[], WritesChars.nil⟩
    | cons c chars ih =>
      obtain ⟨cs, hcs⟩ := exists_writesChar c
      obtain ⟨ds, hds⟩ := ih
      exact ⟨_, WritesChars.cons hcs hds⟩
  obtain ⟨cs, hcs⟩ := hchars string.toList
  exact ⟨_, cs, hcs, rfl⟩

/-- Every integer has a text. -/
theorem exists_writesInt (n : Int) : ∃ cs, WritesInt cs n := by
  cases n with
  | ofNat m => exact ⟨_, WritesInt.natural m⟩
  | negSucc m => exact ⟨_, WritesInt.negative (Nat.succ_pos m)⟩

/-- Parts that have a text each have one together. -/
theorem exists_parts {part : List Char → α → Prop} (hpart : ∀ a, ∃ cs, part cs a) (as : List α) :
    ∃ cs, Parts part cs as := by
  have hseparated : ∀ a as, ∃ cs, Separated part cs (a :: as) := by
    intro a as
    induction as generalizing a with
    | nil =>
      obtain ⟨cs, hcs⟩ := hpart a
      exact ⟨_, Separated.last spaces_nil hcs spaces_nil⟩
    | cons b as ih =>
      obtain ⟨cs, hcs⟩ := hpart a
      obtain ⟨ds, hds⟩ := ih b
      exact ⟨_, Separated.more spaces_nil hcs spaces_nil hds⟩
  cases as with
  | nil => exact ⟨[], Parts.none spaces_nil⟩
  | cons a as =>
    obtain ⟨cs, hcs⟩ := hseparated a as
    exact ⟨cs, Parts.some hcs⟩

/-- Lists have a text when all items have one. -/
theorem exists_writesList {item : List Char → α → Prop} (hitem : ∀ a, ∃ cs, item cs a) (as : List α) :
    ∃ cs, WritesList item cs as := by
  obtain ⟨inner, hinner⟩ := exists_parts hitem as
  exact ⟨_, inner, hinner, rfl⟩

/-- Objects have a text when the values of all members have one. -/
theorem exists_writesObject {value : String → List Char → β → Prop} (hvalue : ∀ name b, ∃ cs, value name cs b)
    (members : List (String × β)) : ∃ cs, WritesObject value cs members := by
  have hmember : ∀ m, ∃ cs, WritesMember value cs m := by
    rintro ⟨name, b⟩
    obtain ⟨quoted, hquoted⟩ := exists_writesString name
    obtain ⟨cs, hcs⟩ := hvalue name b
    exact ⟨_, WritesMember.mk hquoted spaces_nil spaces_nil hcs⟩
  obtain ⟨inner, hinner⟩ := exists_parts hmember members
  exact ⟨_, inner, hinner, rfl⟩

/-- A value that is written somehow has a text of its own. -/
theorem exists_writesText {writes : List Char → α → Prop} {a : α} (h : ∃ cs, writes cs a) : ∃ text, WritesText writes text a := by
  obtain ⟨cs, hcs⟩ := h
  exact ⟨String.ofList cs, [], cs, [], spaces_nil, hcs, spaces_nil, by simp⟩

end Recurrence.Json
