import Recurrence.Proofs.Expression.Malformed

/-!
# Strict reading

`Expression.Supplies` says which word of a text stands for which field. A field that no word stands for has its implied text,
and that is well-formed. So the first defect of a text, if it has not too many words, is that of the leftmost malformed chunk
in the first field that has one, and there is none exactly if each chunk of each word is well-formed for the field that the
word stands for. What a set holds out of bounds is reported as a fault too, but is passed over in the search for a defect
(`Expression.readStrict_exact`).
-/

namespace Recurrence

/-! ## The order of the fields -/

namespace Field

/-- Every field is among all fields. -/
theorem mem_all (f : Field) : f ∈ all := by
  cases f <;> decide

/-- The fields are listed by their indices. -/
theorem pairwise_all : all.Pairwise fun f f' => f.index < f'.index := by
  decide

/-- A search through the fields finds what the field with the least index gives. -/
theorem findSome?_all_eq_some_iff {α : Type} {search : Field → Option α} {a : α} :
    all.findSome? search = some a ↔ ∃ f, search f = some a ∧ ∀ f', f'.index < f.index → search f' = none := by
  rw [List.findSome?_eq_some_iff]
  constructor
  · rintro ⟨before, f, after, hall, hf, hbefore⟩
    refine ⟨f, hf, fun f' hlt => hbefore f' ?_⟩
    have hmem := mem_all f'
    have hafter := (List.pairwise_append.mp (hall ▸ pairwise_all)).2.1
    rw [hall, List.mem_append, List.mem_cons] at hmem
    rcases hmem with hmem | rfl | hmem
    · exact hmem
    · exact absurd hlt (Nat.lt_irrefl _)
    · exact absurd hlt (Nat.lt_asymm ((List.pairwise_cons.mp hafter).1 f' hmem))
  · rintro ⟨f, hf, hfirst⟩
    obtain ⟨before, after, hall⟩ := List.append_of_mem (mem_all f)
    refine ⟨before, f, after, hall, hf, fun f' hf' => hfirst f' ?_⟩
    exact (List.pairwise_append.mp (hall ▸ pairwise_all)).2.2 f' hf' f List.mem_cons_self

end Field

namespace Expression

/-! ## Which word stands for which field -/

/-- A word of a text stands for a field: six or more words begin with the seconds, and fewer end with the day of the week. -/
def Supplies (words : List (List Char)) (f : Field) (word : List Char) : Prop :=
  ∃ i, words[i]? = some word ∧ if 6 ≤ words.length then f.index = i else f.index + words.length = i + 6

/-- The word that stands for a field is the one that is read for it. -/
theorem wordFor_of_supplies {words : List (List Char)} {f : Field} {word : List Char} (h : Supplies words f word) :
    wordFor words f = word := by
  obtain ⟨i, hi, halign⟩ := h
  obtain ⟨hlt, -⟩ := List.getElem?_eq_some_iff.mp hi
  have hskip : ¬f.index < 6 - words.length ∧ f.index - (6 - words.length) = i := by
    split at halign <;> omega
  simp only [wordFor, if_neg hskip.1, hskip.2, List.getD_eq_getElem?_getD, hi, Option.getD_some]

/-- A field that no word stands for has its implied text. -/
theorem wordFor_of_not_supplies {words : List (List Char)} {f : Field} (h : ∀ word, ¬Supplies words f word) :
    wordFor words f = f.impliedText.toList := by
  unfold wordFor
  by_cases hskip : f.index < 6 - words.length
  · simp only [if_pos hskip]
  · have hnone : words[f.index - (6 - words.length)]? = none := by
      rw [Option.eq_none_iff_forall_ne_some]
      intro word hword
      refine h word ⟨_, hword, ?_⟩
      split <;> omega
    simp only [if_neg hskip, List.getD_eq_getElem?_getD, hnone, Option.getD_none]

/-- Every chunk of an implied text is well-formed. -/
theorem isWellFormed_of_mem_impliedText {f : Field} {chunk : List Char} (h : chunk ∈ chunks f.impliedText.toList) :
    Chunk.IsWellFormed f chunk := by
  rw [← chunkDefect?_eq_none_iff]
  revert chunk
  cases f <;> decide

/-! ## The first defect -/

/-- The defects of a word are those of its malformed chunks; the bounds of its set are none. -/
theorem filterMap_defect?_wordFaults (f : Field) (word : List Char) :
    (wordFaults f word).filterMap Fault.defect? = (chunks word).filterMap (chunkDefect? f) := by
  have hbounds : (boundsFault? f (wordValues f word)).toList.filterMap Fault.defect? = [] := by
    unfold boundsFault?
    split
    · split <;> rfl
    · rfl
  rw [wordFaults, List.filterMap_append, hbounds, List.append_nil, List.filterMap_map]
  exact List.filterMap_some

/-- The defects of a text are its surplus words, and then those of the words of all fields in order. -/
theorem filterMap_defect?_faults (text : String) :
    (faults text).filterMap Fault.defect? =
      (if 7 < (wordsOf text).length then [.surplusWords (wordsOf text).length] else []) ++
        Field.all.flatMap fun f => (chunks (wordFor (wordsOf text) f)).filterMap (chunkDefect? f) := by
  have hsurplus : (if 7 < (wordsOf text).length then [Fault.defect (.surplusWords (wordsOf text).length)]
      else []).filterMap Fault.defect? =
        if 7 < (wordsOf text).length then [.surplusWords (wordsOf text).length] else [] := by
    split <;> rfl
  simp only [faults, List.filterMap_append, hsurplus, List.filterMap_flatMap, filterMap_defect?_wordFaults]

/-- The first malformed chunk of the words of a text, field by field. -/
def firstMalformed? (words : List (List Char)) : Option Defect :=
  Field.all.findSome? fun f => (chunks (wordFor words f)).findSome? (chunkDefect? f)

/-- The first defect of a text is its surplus words, or else its first malformed chunk. -/
theorem findSome?_faults (text : String) :
    (faults text).findSome? Fault.defect? =
      if 7 < (wordsOf text).length then some (.surplusWords (wordsOf text).length)
      else firstMalformed? (wordsOf text) := by
  rw [← List.head?_filterMap, filterMap_defect?_faults]
  split
  · rfl
  · rw [List.nil_append, List.head?_flatMap]
    simp only [List.head?_filterMap, firstMalformed?]

/-- A field has no malformed chunk exactly if each chunk of a word that stands for it is well-formed. -/
theorem findSome?_chunks_eq_none_iff {words : List (List Char)} {f : Field} :
    (chunks (wordFor words f)).findSome? (chunkDefect? f) = none ↔
      ∀ word, Supplies words f word → ∀ chunk ∈ chunks word, Chunk.IsWellFormed f chunk := by
  rw [List.findSome?_eq_none_iff]
  simp only [chunkDefect?_eq_none_iff]
  constructor
  · intro h word hword
    rw [← wordFor_of_supplies hword]
    exact h
  · intro h
    by_cases hword : ∃ word, Supplies words f word
    · obtain ⟨word, hword⟩ := hword
      rw [wordFor_of_supplies hword]
      exact h word hword
    · rw [wordFor_of_not_supplies (not_exists.mp hword)]
      exact fun chunk => isWellFormed_of_mem_impliedText

/-- The defect of a field is that of the leftmost malformed chunk in a word that stands for it. -/
theorem findSome?_chunks_eq_some_iff {words : List (List Char)} {f : Field} {d : Defect} :
    (chunks (wordFor words f)).findSome? (chunkDefect? f) = some d ↔
      ∃ word before chunk after, Supplies words f word ∧ chunks word = before ++ chunk :: after ∧
        (∃ cause, Chunk.Malformed f chunk cause ∧ d = .malformed f cause (String.ofList chunk)) ∧
        ∀ c ∈ before, Chunk.IsWellFormed f c := by
  constructor
  · intro h
    by_cases hword : ∃ word, Supplies words f word
    · obtain ⟨word, hword⟩ := hword
      rw [wordFor_of_supplies hword, List.findSome?_eq_some_iff] at h
      simp only [chunkDefect?_eq_some_iff, chunkDefect?_eq_none_iff] at h
      obtain ⟨before, chunk, after, hchunks, hdefect, hbefore⟩ := h
      exact ⟨word, before, chunk, after, hword, hchunks, hdefect, hbefore⟩
    · have hnone : (chunks (wordFor words f)).findSome? (chunkDefect? f) = none :=
        findSome?_chunks_eq_none_iff.mpr fun word h' => absurd ⟨word, h'⟩ hword
      rw [hnone] at h
      cases h
  · rintro ⟨word, before, chunk, after, hword, hchunks, hdefect, hbefore⟩
    rw [wordFor_of_supplies hword, List.findSome?_eq_some_iff]
    simp only [chunkDefect?_eq_some_iff, chunkDefect?_eq_none_iff]
    exact ⟨before, chunk, after, hchunks, hdefect, hbefore⟩

/-! ## Strict reading -/

/-- Every chunk of every word is well-formed for the field that the word stands for. -/
def IsWellFormed (words : List (List Char)) : Prop :=
  ∀ f word, Supplies words f word → ∀ chunk ∈ word.splitOn ',', Chunk.IsWellFormed f chunk

/-- A chunk is the first malformed one: the leftmost in the word that stands for its field, while the words that stand for
earlier fields have none. -/
def IsFirstMalformed (words : List (List Char)) (f : Field) (chunk : List Char) (cause : Chunk.Error) : Prop :=
  (∃ word before after, Supplies words f word ∧ word.splitOn ',' = before ++ chunk :: after ∧
      ∀ c ∈ before, Chunk.IsWellFormed f c) ∧
    Chunk.Malformed f chunk cause ∧
    ∀ f' word, f'.index < f.index → Supplies words f' word → ∀ c ∈ word.splitOn ',', Chunk.IsWellFormed f' c

/-- No chunk is found exactly if all are well-formed. -/
theorem firstMalformed?_eq_none_iff {words : List (List Char)} : firstMalformed? words = none ↔ IsWellFormed words := by
  unfold firstMalformed?
  rw [List.findSome?_eq_none_iff]
  simp only [findSome?_chunks_eq_none_iff]
  constructor
  · intro h f
    exact h f f.mem_all
  · intro h f _
    exact h f

/-- What is found is the first malformed chunk. -/
theorem firstMalformed?_eq_some_iff {words : List (List Char)} {d : Defect} :
    firstMalformed? words = some d ↔
      ∃ f chunk cause, IsFirstMalformed words f chunk cause ∧ d = .malformed f cause (String.ofList chunk) := by
  unfold firstMalformed?
  rw [Field.findSome?_all_eq_some_iff]
  simp only [findSome?_chunks_eq_some_iff, findSome?_chunks_eq_none_iff]
  constructor
  · rintro ⟨f, ⟨word, before, chunk, after, hword, hchunks, ⟨cause, hmalformed, hd⟩, hbefore⟩, hfirst⟩
    exact ⟨f, chunk, cause, ⟨⟨word, before, after, hword, hchunks, hbefore⟩, hmalformed,
      fun f' word' hlt => hfirst f' hlt word'⟩, hd⟩
  · rintro ⟨f, chunk, cause, ⟨⟨word, before, after, hword, hchunks, hbefore⟩, hmalformed, hfirst⟩, hd⟩
    exact ⟨f, ⟨word, before, chunk, after, hword, hchunks, ⟨cause, hmalformed, hd⟩, hbefore⟩,
      fun f' hlt word' => hfirst f' word' hlt⟩

/-- A text is refused for surplus words, or else for its first malformed chunk. -/
theorem readStrict_eq_error_iff {text : String} {d : Defect} :
    readStrict text = .error d ↔
      (7 < (wordsOf text).length ∧ d = .surplusWords (wordsOf text).length) ∨
        ((wordsOf text).length ≤ 7 ∧ firstMalformed? (wordsOf text) = some d) := by
  rw [readStrict, findSome?_faults]
  by_cases hlong : 7 < (wordsOf text).length
  · simp [hlong, Nat.not_le.mpr hlong, eq_comm]
  · rw [if_neg hlong]
    cases firstMalformed? (wordsOf text) <;> simp [hlong, Nat.not_lt.mp hlong]

/-- A text is accepted if it has no surplus words and no malformed chunk, and then read as it is otherwise. -/
theorem readStrict_eq_ok_iff_firstMalformed? {text : String} {e : Expression} :
    readStrict text = .ok e ↔
      ((wordsOf text).length ≤ 7 ∧ firstMalformed? (wordsOf text) = none) ∧ e = read text := by
  rw [readStrict, findSome?_faults]
  by_cases hlong : 7 < (wordsOf text).length
  · simp [hlong, Nat.not_le.mpr hlong]
  · rw [if_neg hlong]
    cases firstMalformed? (wordsOf text) <;> simp [Nat.not_lt.mp hlong, eq_comm]

/-- Strict reading accepts the expressions and no other text, in three parts.
1. A text is accepted exactly if it has at most seven words and each of their chunks is well-formed, and then it is read as
   it is otherwise.
2. A text is refused with the number of its words, for the year, if there are more than seven; and else with the first
   malformed chunk, for its field and with its cause.
3. A text of which nothing is reported but sets that reach out of bounds is accepted. -/
theorem readStrict_exact (text : String) :
    (∀ e, readStrict text = .ok e ↔
      ((wordsOf text).length ≤ 7 ∧ IsWellFormed (wordsOf text)) ∧ e = read text) ∧
    (∀ d, readStrict text = .error d ↔
      (7 < (wordsOf text).length ∧ d = .surplusWords (wordsOf text).length ∧ d.field = .year) ∨
      ((wordsOf text).length ≤ 7 ∧ ∃ f chunk cause, IsFirstMalformed (wordsOf text) f chunk cause ∧
        d = .malformed f cause (String.ofList chunk) ∧ d.field = f)) ∧
    ((∀ fault ∈ faults text, ∃ f lowest highest, fault = .outOfBounds f lowest highest) →
      readStrict text = .ok (read text)) := by
  refine ⟨?_, ?_, ?_⟩
  · intro e
    rw [readStrict_eq_ok_iff_firstMalformed?, firstMalformed?_eq_none_iff]
  · intro d
    rw [readStrict_eq_error_iff, firstMalformed?_eq_some_iff]
    constructor
    · rintro (⟨hlong, rfl⟩ | ⟨hshort, f, chunk, cause, hfirst, rfl⟩)
      · exact Or.inl ⟨hlong, rfl, rfl⟩
      · exact Or.inr ⟨hshort, f, chunk, cause, hfirst, rfl, rfl⟩
    · rintro (⟨hlong, hd, -⟩ | ⟨hshort, f, chunk, cause, hfirst, hd, -⟩)
      · exact Or.inl ⟨hlong, hd⟩
      · exact Or.inr ⟨hshort, f, chunk, cause, hfirst, hd⟩
  · intro hbounds
    refine readStrict_eq_ok_iff.mpr ⟨fun fault hfault => ?_, rfl⟩
    obtain ⟨f, lowest, highest, rfl⟩ := hbounds fault hfault
    rfl

end Expression

end Recurrence
