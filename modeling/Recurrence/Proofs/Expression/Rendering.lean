import Recurrence.Proofs.Expression.Report

/-!
# Writing an expression back

`Expression.written` writes the set of every field as its members, in decimal and with commas between them. Only a normal set
comes back from that: it is not empty, no member is above the greatest literal, and no Sunday is written as 7. Every set that
is read is normal, whatever the word (`Expression.isNormal_wordValues`), so the expressions of normal sets are those that can be
read (`Expression.exists_read_eq_iff`), and an expression that is read from any text at all is read again from what it is
written as (`Expression.read_written_read`).
-/

namespace Recurrence

/-! ## Writing -/

/-- A set is written as its members, from the least to the greatest, with commas between them. -/
def ValueSet.written (s : ValueSet) : List Char :=
  [','].intercalate (s.toList.map Text.decimal)

/-- An expression is written as the sets of all its fields, with single spaces between them. -/
def Expression.written (e : Expression) : String :=
  String.ofList ([' '].intercalate (Field.all.map fun f => (e.values f).written))

/-- A set of a field is normal when it has members, none above the greatest literal, and no Sunday among them is 7. -/
structure ValueSet.IsNormal (f : Field) (s : ValueSet) : Prop where
  nonempty : ∃ n, n ∈ s
  le_greatest : ∀ n ∈ s, n ≤ Chunk.greatestLiteral
  no_seven : ∀ n ∈ s, ¬(f = .dayOfWeek ∧ n = 7)

/-! ## Sets that are read are normal -/

/-- No field has more names than values. -/
theorem Field.min_add_length_valueNames_le (f : Field) : f.min + f.valueNames.length ≤ f.max + 1 := by
  cases f <;> decide

/-- The highest value of a field can be written as a literal. -/
theorem Field.max_le_greatestLiteral (f : Field) : f.max ≤ Chunk.greatestLiteral := by
  cases f <;> decide

namespace Chunk

variable {f : Field} {cs chunk : List Char} {first last step v n : Nat}

/-- A name or a literal stands for a value that can be written as a literal. -/
theorem IsValue.le_greatestLiteral (h : IsValue f cs v) : v ≤ greatestLiteral := by
  cases h with
  | name hname =>
    obtain ⟨hlt, -⟩ := List.getElem?_eq_some_iff.mp hname
    have hnames := f.min_add_length_valueNames_le
    have hmax := f.max_le_greatestLiteral
    omega
  | literal _ hle => exact hle

/-- The last value that a text spans can be written as a literal. -/
theorem Spans.last_le_greatestLiteral {stepped : Bool} (h : Spans f stepped cs first last) : last ≤ greatestLiteral := by
  cases h with
  | star => exact f.max_le_greatestLiteral
  | alone hv => exact hv.le_greatestLiteral
  | upward hv => exact Nat.max_le.mpr ⟨f.max_le_greatestLiteral, hv.le_greatestLiteral⟩
  | range _ hb _ => exact hb.le_greatestLiteral

/-- The last value that a chunk means can be written as a literal. -/
theorem Means.last_le_greatestLiteral (h : Means f chunk first last step) : last ≤ greatestLiteral := by
  cases h with
  | plain hspan => exact hspan.last_le_greatestLiteral
  | stepped hspan _ => exact hspan.last_le_greatestLiteral

/-- A value that a chunk denotes can be written as a literal. -/
theorem Denotes.le_greatestLiteral (h : Denotes f chunk n) : n ≤ greatestLiteral := by
  rcases h with ⟨first, last, step, hmeans, k, -, hlast⟩ | ⟨-, rfl⟩
  · exact Nat.le_trans hlast hmeans.last_le_greatestLiteral
  · exact Nat.le_trans f.min_le_max f.max_le_greatestLiteral

/-- A number in decimal that is not too great means itself. -/
theorem means_decimal (f : Field) (h : n ≤ greatestLiteral) : Means f (Text.decimal n) n n 1 :=
  Means.plain (Spans.alone (IsValue.literal (Text.isLiteral_decimal n) h))

end Chunk

namespace Expression

variable {f : Field} {s : ValueSet}

/-- The set of every word is normal. -/
theorem isNormal_wordValues (f : Field) (word : List Char) : (wordValues f word).IsNormal f where
  nonempty := exists_mem_wordValues f word
  le_greatest := by
    intro n hn
    obtain ⟨chunk, -, m, hm, rfl⟩ := mem_wordValues.mp hn
    split
    · exact Nat.zero_le _
    · exact (mem_chunkValues.mp hm).le_greatestLiteral
  no_seven := by
    rintro n hn ⟨hf, hseven⟩
    obtain ⟨chunk, -, m, -, rfl⟩ := mem_wordValues.mp hn
    split at hseven
    · cases hseven
    · next hm => exact hm ⟨hf, hseven⟩

/-- Every set of an expression that is read is normal. -/
theorem isNormal_values_read (text : String) (f : Field) : ((read text).values f).IsNormal f := by
  rw [values_read]
  exact isNormal_wordValues f _

/-! ## Normal sets come back -/

/-- A set that is not empty is written as one word. -/
theorem isWord_written (hs : ∃ n, n ∈ s) : Text.IsWord s.written := by
  obtain ⟨n, hn⟩ := hs
  refine Text.IsWord.intercalate (by decide) (List.ne_nil_of_mem (List.mem_map_of_mem hn)) fun word hword => ?_
  obtain ⟨m, -, rfl⟩ := List.mem_map.mp hword
  exact Text.isWord_decimal m

/-- The chunks of a written set are its members. -/
theorem chunks_written (hs : ∃ n, n ∈ s) : chunks s.written = s.toList.map Text.decimal := by
  obtain ⟨n, hn⟩ := hs
  refine List.splitOn_intercalate ',' (fun word hword hcomma => ?_) (List.ne_nil_of_mem (List.mem_map_of_mem hn))
  obtain ⟨m, -, rfl⟩ := List.mem_map.mp hword
  exact absurd (Text.isDigit_of_mem_decimal hcomma) (by decide)

/-- Each chunk of a written set means one member of the set. -/
theorem means_of_mem_chunks_written (h : s.IsNormal f) {chunk : List Char} (hchunk : chunk ∈ chunks s.written) :
    ∃ n ∈ s, Chunk.Means f chunk n n 1 := by
  rw [chunks_written h.nonempty] at hchunk
  obtain ⟨n, hn, rfl⟩ := List.mem_map.mp hchunk
  exact ⟨n, hn, Chunk.means_decimal f (h.le_greatest n hn)⟩

/-- A normal set is read again from what it is written as. -/
theorem wordValues_written (h : s.IsNormal f) : wordValues f s.written = s := by
  ext n
  rw [mem_wordValues]
  constructor
  · rintro ⟨chunk, hchunk, m, hm, rfl⟩
    obtain ⟨k, hk, hmeans⟩ := means_of_mem_chunks_written h hchunk
    rw [chunkValues_of_means hmeans, ValueSet.mem_progression] at hm
    obtain rfl : m = k := Nat.le_antisymm hm.2.1 hm.1
    rw [if_neg (h.no_seven m hk)]
    exact hk
  · intro hn
    refine ⟨Text.decimal n, ?_, n, ?_, (if_neg (h.no_seven n hn)).symm⟩
    · rw [chunks_written h.nonempty]
      exact List.mem_map_of_mem hn
    · rw [chunkValues_of_means (Chunk.means_decimal f (h.le_greatest n hn)), ValueSet.mem_progression]
      simp

/-- What a normal set is written as has no fault but that of the bounds of the set. -/
theorem wordFaults_written (h : s.IsNormal f) : wordFaults f s.written = (boundsFault? f s).toList := by
  have hchunks : ∀ chunk ∈ chunks s.written, Chunk.IsWellFormed f chunk := by
    intro chunk hchunk
    obtain ⟨n, -, hmeans⟩ := means_of_mem_chunks_written h hchunk
    exact ⟨n, n, 1, hmeans⟩
  rw [wordFaults_of_isWellFormed hchunks, wordValues_written h]

/-! ## Expressions come back -/

variable {e : Expression}

/-- The words of a written expression are its written sets. -/
theorem wordsOf_written (h : ∀ f, (e.values f).IsNormal f) :
    wordsOf e.written = Field.all.map fun f => (e.values f).written := by
  rw [wordsOf, written, String.toList_ofList]
  refine Text.words_intercalate fun word hword => ?_
  obtain ⟨f, -, rfl⟩ := List.mem_map.mp hword
  exact isWord_written (h f).nonempty

/-- Seven words stand for the seven fields. -/
theorem wordFor_map_all (words : Field → List Char) (f : Field) : wordFor (Field.all.map words) f = words f := by
  cases f <;> rfl

/-- An expression of normal sets is read again from what it is written as. -/
theorem read_written (h : ∀ f, (e.values f).IsNormal f) : read e.written = e := by
  refine ext_values fun f => ?_
  rw [values_read, wordsOf_written h, wordFor_map_all, wordValues_written (h f)]

/-- The expressions that can be read from a text are those of normal sets. -/
theorem exists_read_eq_iff : (∃ text, read text = e) ↔ ∀ f, (e.values f).IsNormal f := by
  constructor
  · rintro ⟨text, rfl⟩
    exact isNormal_values_read text
  · intro h
    exact ⟨e.written, read_written h⟩

/-- What an expression of normal sets is written as has no faults but those of the bounds of its sets. -/
theorem faults_written (h : ∀ f, (e.values f).IsNormal f) :
    faults e.written = Field.all.flatMap fun f => (boundsFault? f (e.values f)).toList := by
  have hlength : ¬7 < (Field.all.map fun f => (e.values f).written).length := by simp [Field.all]
  simp only [faults, wordsOf_written h, if_neg hlength, wordFor_map_all, wordFaults_written (h _), List.nil_append]

/-- A fault of the bounds of a set is no defect. -/
theorem defect?_of_mem_boundsFault? {fault : Fault} (h : fault ∈ (boundsFault? f s).toList) : fault.defect? = none := by
  obtain ⟨lowest, highest, -, -, -, rfl⟩ := boundsFault?_eq_some_iff.mp (Option.mem_toList.mp h)
  rfl

/-- The faults of a text that are no defects are those of the bounds of the sets. -/
theorem filter_faults (text : String) :
    (faults text).filter (·.defect?.isNone) = Field.all.flatMap fun f => (boundsFault? f ((read text).values f)).toList := by
  have hsurplus : (if 7 < (wordsOf text).length then [Fault.defect (.surplusWords (wordsOf text).length)]
      else []).filter (·.defect?.isNone) = [] := by
    split <;> rfl
  have hword : ∀ f word, (wordFaults f word).filter (·.defect?.isNone) = (boundsFault? f (wordValues f word)).toList := by
    intro f word
    have hchunks : (((chunks word).filterMap (chunkDefect? f)).map Fault.defect).filter (·.defect?.isNone) = [] := by
      simp [List.filter_map, Fault.defect?]
    have hbounds : (boundsFault? f (wordValues f word)).toList.filter (·.defect?.isNone) =
        (boundsFault? f (wordValues f word)).toList := by
      rw [List.filter_eq_self]
      intro fault hfault
      rw [defect?_of_mem_boundsFault? hfault, Option.isNone_none]
    rw [wordFaults, List.filter_append, hchunks, hbounds, List.nil_append]
  rw [faults, List.filter_append, hsurplus, List.nil_append, List.filter_flatMap]
  simp only [hword, values_read]

/-- The expression that is read from a text comes back from what it is written as, in four parts.
1. It is read again, with the same set in every field.
2. No defect is reported.
3. The sets that are reported are those that are reported about the text, in the same order.
4. Strict reading accepts what is written, and gives the expression. -/
theorem read_written_read (text : String) :
    let e := read text
    read e.written = e ∧
      (∀ fault ∈ faults e.written, fault.defect? = none) ∧
      faults e.written = (faults text).filter (·.defect?.isNone) ∧
      readStrict e.written = .ok e := by
  intro e
  have hnormal : ∀ f, (e.values f).IsNormal f := isNormal_values_read text
  have hread : read e.written = e := read_written hnormal
  have hfaults : faults e.written = (faults text).filter (·.defect?.isNone) := by
    rw [faults_written hnormal, filter_faults]
  have hdefect : ∀ fault ∈ faults e.written, fault.defect? = none := by
    intro fault hfault
    rw [hfaults, List.mem_filter, Option.isNone_iff_eq_none] at hfault
    exact hfault.2
  exact ⟨hread, hdefect, hfaults, readStrict_eq_ok_iff.mpr ⟨hdefect, hread.symm⟩⟩

end Expression

end Recurrence
