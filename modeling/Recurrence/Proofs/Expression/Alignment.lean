import Recurrence.Proofs.Expression.Report

/-!
# Which words a short or a long text stands for

Up to six words are read like seven: the implied texts of the fields before them come first, and a star comes last
(`Expression.wordFor_completed`). More than seven words are read like the first seven (`Expression.wordFor_take`), and the
others are only counted. Since a text is read word by word, the expression and the report of a text are those of the text with
the words written out (`Expression.read_aligned`).
-/

namespace Recurrence.Expression

/-- Up to six words, with the implied texts of the fields before them and a star after them. -/
def completed (words : List (List Char)) : List (List Char) :=
  (Field.all.take (6 - words.length)).map (fun f => f.impliedText.toList) ++ words ++ [['*']]

/-! ## Fields and their words -/

/-- From six words on, the word of a field is the one at its index. -/
theorem wordFor_of_six_le {words : List (List Char)} (h : 6 ≤ words.length) (f : Field) :
    wordFor words f = words[f.index]?.getD f.impliedText.toList := by
  have hskip : 6 - words.length = 0 := Nat.sub_eq_zero_of_le h
  simp only [wordFor, hskip, Nat.not_lt_zero, if_false, Nat.sub_zero, List.getD_eq_getElem?_getD]

/-- Completed words have at the index of a field the word that is read for it. -/
theorem getElem?_completed {words : List (List Char)} (h : words.length ≤ 6) (f : Field) :
    (completed words)[f.index]? = some (wordFor words f) := by
  have hlength : ((Field.all.take (6 - words.length)).map fun f => f.impliedText.toList).length = 6 - words.length := by
    have hall : Field.all.length = 7 := rfl
    rw [List.length_map, List.length_take, hall]
    omega
  rw [completed, List.append_assoc]
  unfold wordFor
  by_cases hfirst : f.index < 6 - words.length
  · rw [if_pos hfirst, List.getElem?_append_left (by omega), List.getElem?_map, List.getElem?_take_of_lt hfirst,
      f.all_getElem?_index, Option.map_some]
  · rw [if_neg hfirst, List.getElem?_append_right (by omega), hlength, List.getD_eq_getElem?_getD]
    by_cases hword : f.index - (6 - words.length) < words.length
    · rw [List.getElem?_append_left hword, List.getElem?_eq_getElem hword, Option.getD_some]
    · -- Only the year is left, and its implied text is the star.
      have hindex : f.index ≤ Field.year.index := by
        cases f <;> decide
      have hyear : Field.year.index = 6 := rfl
      have hlast : f.index - (6 - words.length) = words.length := by omega
      have hf : f = .year := Field.eq_of_index_eq (by omega)
      rw [hlast, List.getElem?_concat_length, List.getElem?_eq_none (Nat.le_refl _), Option.getD_none, hf]
      rfl

/-- Six words or fewer make seven when they are completed. -/
theorem length_completed {words : List (List Char)} (h : words.length ≤ 6) : (completed words).length = 7 := by
  simp [completed, Field.all]
  omega

/-- Completing words changes no word that is read for a field. -/
theorem wordFor_completed {words : List (List Char)} (h : words.length ≤ 6) (f : Field) :
    wordFor (completed words) f = wordFor words f := by
  have hlength := length_completed h
  rw [wordFor_of_six_le (by omega), getElem?_completed h, Option.getD_some]

/-- Words after the seventh are read for no field. -/
theorem wordFor_take {words : List (List Char)} (h : 7 ≤ words.length) (f : Field) :
    wordFor (words.take 7) f = wordFor words f := by
  have hindex : f.index < 7 := by
    cases f <;> decide
  rw [wordFor_of_six_le (by rw [List.length_take]; omega), wordFor_of_six_le (by omega), List.getElem?_take_of_lt hindex]

/-! ## Texts -/

/-- Texts with the same word for every field stand for the same expression. -/
theorem read_eq_of_wordFor {text text' : String} (h : ∀ f, wordFor (wordsOf text) f = wordFor (wordsOf text') f) :
    read text = read text' := by
  refine ext_values fun f => ?_
  rw [values_read, values_read, h]

/-- The report on a text is that on its surplus words and on the words of its fields. -/
theorem faults_eq_of_wordFor {text text' : String} (h : ∀ f, wordFor (wordsOf text) f = wordFor (wordsOf text') f)
    (hfew : (wordsOf text').length ≤ 7) :
    faults text = (if 7 < (wordsOf text).length then [.defect (.surplusWords (wordsOf text).length)] else []) ++
      faults text' := by
  simp only [faults, h, if_neg (Nat.not_lt.mpr hfew), List.nil_append]

/-- Up to six words are read and reported like the completed words. -/
theorem read_of_spells_completed {text full : String} {words : List (List Char)} (h : Text.Spells text.toList words)
    (hwords : words.length ≤ 6) (hfull : Text.Spells full.toList (completed words)) :
    read text = read full ∧ faults text = faults full := by
  have hsame : ∀ f, wordFor (wordsOf text) f = wordFor (wordsOf full) f := by
    intro f
    rw [wordsOf, wordsOf, h.words_eq, hfull.words_eq, wordFor_completed hwords]
  have hfew : (wordsOf full).length ≤ 7 := by
    rw [wordsOf, hfull.words_eq, length_completed hwords]
  refine ⟨read_eq_of_wordFor hsame, ?_⟩
  rw [faults_eq_of_wordFor hsame hfew, wordsOf, h.words_eq, if_neg (by omega), List.nil_append]

/-- More than seven words are read like the first seven, and reported with their number before the report on these. -/
theorem read_of_spells_take {text first : String} {words : List (List Char)} (h : Text.Spells text.toList words)
    (hwords : 7 < words.length) (hfirst : Text.Spells first.toList (words.take 7)) :
    read text = read first ∧ faults text = .defect (.surplusWords words.length) :: faults first := by
  have hsame : ∀ f, wordFor (wordsOf text) f = wordFor (wordsOf first) f := by
    intro f
    rw [wordsOf, wordsOf, h.words_eq, hfirst.words_eq, wordFor_take (Nat.le_of_lt hwords)]
  have hfew : (wordsOf first).length ≤ 7 := by
    rw [wordsOf, hfirst.words_eq]
    exact List.length_take_le 7 words
  refine ⟨read_eq_of_wordFor hsame, ?_⟩
  rw [faults_eq_of_wordFor hsame hfew, wordsOf, h.words_eq, if_pos hwords, List.singleton_append]

/-- A text of any words with any blanks between and around them has the expression and the report of a text that writes out
which words are read, in four parts.
1. Up to five words are read like seven: the implied texts of the first fields, then the words, then a star.
2. Six words are read like seven of which the last is a star.
3. More than seven words are read like the first seven, with their number reported before everything else, whatever the other
   words are.
4. The implied texts of the first six fields are three zeros and three stars. -/
theorem read_aligned {text : String} {words : List (List Char)} (h : Text.Spells text.toList words) :
    (words.length ≤ 5 → ∀ full : String,
      Text.Spells full.toList
        ((Field.all.take (6 - words.length)).map (fun f => f.impliedText.toList) ++ words ++ [['*']]) →
      read text = read full ∧ faults text = faults full) ∧
    (words.length = 6 → ∀ full : String, Text.Spells full.toList (words ++ [['*']]) →
      read text = read full ∧ faults text = faults full) ∧
    (8 ≤ words.length → ∀ first : String, Text.Spells first.toList (words.take 7) →
      read text = read first ∧ faults text = .defect (.surplusWords words.length) :: faults first) ∧
    (Field.all.take 6).map Field.impliedText = ["0", "0", "0", "*", "*", "*"] := by
  refine ⟨fun hfive full hfull => ?_, fun hsix full hfull => ?_, fun height first hfirst => ?_, rfl⟩
  · exact read_of_spells_completed h (Nat.le_succ_of_le hfive) hfull
  · have hcompleted : completed words = words ++ [['*']] := by
      simp [completed, hsix]
    exact read_of_spells_completed h (Nat.le_of_eq hsix) (hcompleted ▸ hfull)
  · exact read_of_spells_take h height hfirst

/-- Two words with uncommon blanks around them, a reversed range and a Sunday written as 7, stand for the month and the day of the
week. -/
theorem read_aligned_two_words :
    let text := "\u3000 9-3,12 \t\u0085MON,7\n"
    let full := "0 0 0 * 9-3,12 MON,7 *"
    Text.Spells text.toList ["9-3,12".toList, "MON,7".toList] ∧ Text.Spells full.toList
        ["0".toList, "0".toList, "0".toList, "*".toList, "9-3,12".toList, "MON,7".toList, "*".toList] ∧
      read text = read full ∧ faults text = faults full := by
  intro text full
  have htext : Text.Spells text.toList ["9-3,12".toList, "MON,7".toList] := by decide
  have hfull : Text.Spells full.toList
      ["0".toList, "0".toList, "0".toList, "*".toList, "9-3,12".toList, "MON,7".toList, "*".toList] := by decide
  obtain ⟨hshort, -, -, -⟩ := read_aligned htext
  exact ⟨htext, hfull, hshort (by decide) full hfull⟩

end Recurrence.Expression
