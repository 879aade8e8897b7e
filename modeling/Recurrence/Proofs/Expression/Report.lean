import Mathlib.Order.Bounds.Basic
import Recurrence.Proofs.Expression.Strict
import Recurrence.Proofs.Expression.Word

/-!
# The report on a text

What is to be reported about a text is said here without a search for it: `ChunkReport` goes through the chunks of a word,
`BoundsReport` looks at the ends of a set, and `FieldReport` joins both for a field that a word stands for, and reports nothing
for a field that has its implied text. The faults of a text are its surplus words, and then the reports on the fields in order,
and nothing else (`Expression.faults_exact`).
-/

namespace Recurrence

/-! ## The ends of a set -/

namespace ValueSet

/-- A set with a member has a least one. -/
theorem exists_min?_eq {s : ValueSet} {n : Nat} (h : n ∈ s) : ∃ m, s.min? = some m :=
  Option.isSome_iff_exists.mp (List.isSome_head?.mpr (List.ne_nil_of_mem h))

/-- A set with a member has a greatest one. -/
theorem exists_max?_eq {s : ValueSet} {n : Nat} (h : n ∈ s) : ∃ m, s.max? = some m :=
  Option.isSome_iff_exists.mp (List.getLast?_isSome.mpr (List.ne_nil_of_mem h))

/-- What is found as the least member is at the lower end of the set. -/
theorem isLeast_of_min? {s : ValueSet} {n : Nat} (h : s.min? = some n) : IsLeast {m | m ∈ s} n := by
  obtain ⟨rest, hlist⟩ := List.head?_eq_some_iff.mp h
  have hasc := s.ascending
  rw [hlist] at hasc
  refine ⟨List.mem_of_head? h, fun m hm => ?_⟩
  have hm' : m ∈ n :: rest := hlist ▸ hm
  rcases List.mem_cons.mp hm' with rfl | hm'
  · exact Nat.le_refl _
  · exact Nat.le_of_lt ((List.pairwise_cons.mp hasc).1 m hm')

/-- What is found as the greatest member is at the upper end of the set. -/
theorem isGreatest_of_max? {s : ValueSet} {n : Nat} (h : s.max? = some n) : IsGreatest {m | m ∈ s} n := by
  obtain ⟨init, hlist⟩ := List.getLast?_eq_some_iff.mp h
  have hasc := s.ascending
  rw [hlist] at hasc
  refine ⟨List.mem_of_getLast? h, fun m hm => ?_⟩
  have hm' : m ∈ init ++ [n] := hlist ▸ hm
  rcases List.mem_append.mp hm' with hm' | hm'
  · exact Nat.le_of_lt ((List.pairwise_append.mp hasc).2.2 m hm' n List.mem_cons_self)
  · exact Nat.le_of_eq (List.mem_singleton.mp hm')

/-- The least member of a set is found, and nothing else. -/
theorem min?_eq_some_iff {s : ValueSet} {n : Nat} : s.min? = some n ↔ IsLeast {m | m ∈ s} n := by
  refine ⟨isLeast_of_min?, fun h => ?_⟩
  obtain ⟨m, hm⟩ := exists_min?_eq h.1
  rw [hm, (isLeast_of_min? hm).unique h]

/-- The greatest member of a set is found, and nothing else. -/
theorem max?_eq_some_iff {s : ValueSet} {n : Nat} : s.max? = some n ↔ IsGreatest {m | m ∈ s} n := by
  refine ⟨isGreatest_of_max?, fun h => ?_⟩
  obtain ⟨m, hm⟩ := exists_max?_eq h.1
  rw [hm, (isGreatest_of_max? hm).unique h]

/-- A set with a member has both ends. -/
theorem exists_isLeast_isGreatest {s : ValueSet} (hs : ∃ n, n ∈ s) :
    ∃ lowest highest, IsLeast {n | n ∈ s} lowest ∧ IsGreatest {n | n ∈ s} highest := by
  obtain ⟨n, hn⟩ := hs
  obtain ⟨lowest, hlowest⟩ := exists_min?_eq hn
  obtain ⟨highest, hhighest⟩ := exists_max?_eq hn
  exact ⟨lowest, highest, isLeast_of_min? hlowest, isGreatest_of_max? hhighest⟩

end ValueSet

namespace Expression

/-! ## What is to be reported -/

/-- The report on the chunks of a field, from left to right: a fault for each malformed chunk, with the cause and the whole
chunk. -/
inductive ChunkReport (f : Field) : List (List Char) → List Fault → Prop where
  | nil : ChunkReport f [] []
  | wellFormed {chunk : List Char} {chunks : List (List Char)} {faults : List Fault} : Chunk.IsWellFormed f chunk →
      ChunkReport f chunks faults → ChunkReport f (chunk :: chunks) faults
  | malformed {chunk : List Char} {chunks : List (List Char)} {faults : List Fault} {cause : Chunk.Error} :
      Chunk.Malformed f chunk cause → ChunkReport f chunks faults →
      ChunkReport f (chunk :: chunks) (.defect (.malformed f cause (String.ofList chunk)) :: faults)

/-- The report on the set of a field: a fault with the ends of the set when one of them is out of bounds. -/
inductive BoundsReport (f : Field) (s : ValueSet) : List Fault → Prop where
  | within {lowest highest : Nat} : IsLeast {n | n ∈ s} lowest → IsGreatest {n | n ∈ s} highest →
      f.min ≤ lowest → highest ≤ f.max → BoundsReport f s []
  | outside {lowest highest : Nat} : IsLeast {n | n ∈ s} lowest → IsGreatest {n | n ∈ s} highest →
      (lowest < f.min ∨ f.max < highest) → BoundsReport f s [.outOfBounds f lowest highest]

/-- The report on a field with a given set: that on the chunks of the word that stands for the field, and then that on the set.
Nothing is reported about a field that no word stands for. -/
inductive FieldReport (words : List (List Char)) (f : Field) (s : ValueSet) : List Fault → Prop where
  | supplied {word : List Char} {ofChunks ofBounds : List Fault} : Supplies words f word →
      ChunkReport f (word.splitOn ',') ofChunks → BoundsReport f s ofBounds → FieldReport words f s (ofChunks ++ ofBounds)
  | implied : (∀ word, ¬Supplies words f word) → FieldReport words f s []

/-- The report on the number of words. -/
inductive SurplusReport (words : List (List Char)) : List Fault → Prop where
  | surplus : 7 < words.length → SurplusReport words [.defect (.surplusWords words.length)]
  | fitting : words.length ≤ 7 → SurplusReport words []

/-! ## What is reported -/

/-- The faults of chunks are what is to be reported about them. -/
theorem chunkReport_iff {f : Field} {chunks : List (List Char)} {report : List Fault} :
    ChunkReport f chunks report ↔ report = (chunks.filterMap (chunkDefect? f)).map .defect := by
  constructor
  · intro h
    induction h with
    | nil => rfl
    | wellFormed hchunk _ ih => rw [ih, List.filterMap_cons_none (chunkDefect?_eq_none_iff.mpr hchunk)]
    | malformed hchunk _ ih =>
      rw [ih, List.filterMap_cons_some (chunkDefect?_eq_some_iff.mpr ⟨_, hchunk, rfl⟩), List.map_cons]
  · rintro rfl
    induction chunks with
    | nil => exact ChunkReport.nil
    | cons chunk chunks ih =>
      cases hdefect : chunkDefect? f chunk with
      | none =>
        rw [List.filterMap_cons_none hdefect]
        exact ChunkReport.wellFormed (chunkDefect?_eq_none_iff.mp hdefect) ih
      | some d =>
        obtain ⟨cause, hchunk, rfl⟩ := chunkDefect?_eq_some_iff.mp hdefect
        rw [List.filterMap_cons_some hdefect, List.map_cons]
        exact ChunkReport.malformed hchunk ih

/-- The fault of the bounds of a set has the ends of the set, if one of them is out of bounds. -/
theorem boundsFault?_of_ends {f : Field} {s : ValueSet} {lowest highest : Nat} (hleast : IsLeast {n | n ∈ s} lowest)
    (hgreatest : IsGreatest {n | n ∈ s} highest) :
    boundsFault? f s = if lowest < f.min ∨ f.max < highest then some (.outOfBounds f lowest highest) else none := by
  simp only [boundsFault?, ValueSet.min?_eq_some_iff.mpr hleast, ValueSet.max?_eq_some_iff.mpr hgreatest]

/-- A set has a fault of its bounds exactly if it has ends that are not both within bounds, and the fault has these ends. -/
theorem boundsFault?_eq_some_iff {f : Field} {s : ValueSet} {fault : Fault} :
    boundsFault? f s = some fault ↔ ∃ lowest highest, IsLeast {n | n ∈ s} lowest ∧ IsGreatest {n | n ∈ s} highest ∧
      (lowest < f.min ∨ f.max < highest) ∧ fault = .outOfBounds f lowest highest := by
  constructor
  · intro h
    unfold boundsFault? at h
    split at h
    · next lowest highest hlowest hhighest =>
      split at h
      · next hout =>
        cases h
        exact ⟨lowest, highest, ValueSet.min?_eq_some_iff.mp hlowest, ValueSet.max?_eq_some_iff.mp hhighest, hout, rfl⟩
      · cases h
    · cases h
  · rintro ⟨lowest, highest, hleast, hgreatest, hout, rfl⟩
    rw [boundsFault?_of_ends hleast hgreatest, if_pos hout]

/-- The fault of the bounds of a set that is not empty is what is to be reported about them. -/
theorem boundsReport_iff {f : Field} {s : ValueSet} (hs : ∃ n, n ∈ s) {report : List Fault} :
    BoundsReport f s report ↔ report = (boundsFault? f s).toList := by
  constructor
  · intro h
    cases h with
    | within hleast hgreatest hmin hmax =>
      rw [boundsFault?_of_ends hleast hgreatest, if_neg (by omega), Option.toList_none]
    | outside hleast hgreatest hout => rw [boundsFault?_of_ends hleast hgreatest, if_pos hout, Option.toList_some]
  · rintro rfl
    obtain ⟨lowest, highest, hleast, hgreatest⟩ := ValueSet.exists_isLeast_isGreatest hs
    rw [boundsFault?_of_ends hleast hgreatest]
    split
    · next hout => exact BoundsReport.outside hleast hgreatest hout
    · next hin => exact BoundsReport.within hleast hgreatest (by omega) (by omega)

/-- A word of well-formed chunks has no fault but that of the bounds of its set. -/
theorem wordFaults_of_isWellFormed {f : Field} {word : List Char}
    (h : ∀ chunk ∈ chunks word, Chunk.IsWellFormed f chunk) :
    wordFaults f word = (boundsFault? f (wordValues f word)).toList := by
  have hchunks : (chunks word).filterMap (chunkDefect? f) = [] :=
    List.filterMap_eq_nil_iff.mpr fun chunk hchunk => chunkDefect?_eq_none_iff.mpr (h chunk hchunk)
  rw [wordFaults, hchunks, List.map_nil, List.nil_append]

/-- An implied text is one chunk. -/
theorem chunks_impliedText (f : Field) : chunks f.impliedText.toList = [f.impliedText.toList] := by
  cases f <;> decide

/-- An implied text means values from the lowest one of the field up to one that is not above the highest. -/
theorem means_impliedText (f : Field) : ∃ last ≤ f.max, Chunk.Means f f.impliedText.toList f.min last 1 := by
  have hzero : ∀ f, Chunk.value? f ['0'] = some 0 := by
    intro f
    cases f <;> decide
  cases f with
  | second | minute | hour => exact ⟨0, Nat.zero_le _, .plain (.alone (Chunk.value?_eq_some_iff.mp (hzero _)))⟩
  | dayOfMonth | month | dayOfWeek | year => exact ⟨_, Nat.le_refl _, .plain .star⟩

/-- The values of an implied text are within the bounds of its field. -/
theorem mem_bounds_of_mem_impliedText {f : Field} {n : Nat} (h : n ∈ wordValues f f.impliedText.toList) :
    f.min ≤ n ∧ n ≤ f.max := by
  obtain ⟨last, hlast, hmeans⟩ := means_impliedText f
  obtain ⟨chunk, hchunk, m, hm, rfl⟩ := mem_wordValues.mp h
  rw [chunks_impliedText, List.mem_singleton] at hchunk
  rw [hchunk, chunkValues_of_means hmeans, ValueSet.mem_progression] at hm
  -- No Sunday is written as 7, because 7 is above the bounds.
  rw [if_neg]
  · exact ⟨hm.1, Nat.le_trans hm.2.1 hlast⟩
  · rintro ⟨rfl, rfl⟩
    exact absurd (Nat.le_trans hm.2.1 hlast) (by decide)

/-- An implied text has no faults. -/
theorem wordFaults_impliedText (f : Field) : wordFaults f f.impliedText.toList = [] := by
  have hbounds : boundsFault? f (wordValues f f.impliedText.toList) = none := by
    rw [Option.eq_none_iff_forall_ne_some]
    intro fault hfault
    obtain ⟨lowest, highest, hlowest, hhighest, hout, -⟩ := boundsFault?_eq_some_iff.mp hfault
    have hmin := (mem_bounds_of_mem_impliedText hlowest.1).1
    have hmax := (mem_bounds_of_mem_impliedText hhighest.1).2
    omega
  rw [wordFaults_of_isWellFormed fun chunk => isWellFormed_of_mem_impliedText, hbounds, Option.toList_none]

/-- The faults of the word that is read for a field are what is to be reported about the field. -/
theorem fieldReport_iff {words : List (List Char)} {f : Field} {report : List Fault} :
    FieldReport words f (wordValues f (wordFor words f)) report ↔ report = wordFaults f (wordFor words f) := by
  have hsome := exists_mem_wordValues f (wordFor words f)
  constructor
  · intro h
    cases h with
    | supplied hword hchunks hbounds =>
      rw [wordFaults, wordFor_of_supplies hword] at *
      rw [chunkReport_iff.mp hchunks, (boundsReport_iff hsome).mp hbounds, chunks]
    | implied hnone => rw [wordFor_of_not_supplies hnone, wordFaults_impliedText]
  · rintro rfl
    by_cases hword : ∃ word, Supplies words f word
    · obtain ⟨word, hword⟩ := hword
      have hfor := wordFor_of_supplies hword
      exact FieldReport.supplied hword (chunkReport_iff.mpr (by rw [hfor, chunks])) ((boundsReport_iff hsome).mpr rfl)
    · have hnone := not_exists.mp hword
      rw [wordFor_of_not_supplies hnone, wordFaults_impliedText]
      exact FieldReport.implied hnone

/-- The fault of too many words is what is to be reported about the number of words. -/
theorem surplusReport_iff {words : List (List Char)} {report : List Fault} :
    SurplusReport words report ↔
      report = if 7 < words.length then [.defect (.surplusWords words.length)] else [] := by
  constructor
  · intro h
    cases h with
    | surplus hlong => rw [if_pos hlong]
    | fitting hshort => rw [if_neg (Nat.not_lt.mpr hshort)]
  · rintro rfl
    split
    · next hlong => exact SurplusReport.surplus hlong
    · next hshort => exact SurplusReport.fitting (Nat.not_lt.mp hshort)

/-- What is reported about the bounds of a word is about its set. -/
theorem outOfBounds_mem_wordFaults_iff {f f' : Field} {word : List Char} {lowest highest : Nat} :
    .outOfBounds f lowest highest ∈ wordFaults f' word ↔ f' = f ∧ IsLeast {n | n ∈ wordValues f word} lowest ∧
      IsGreatest {n | n ∈ wordValues f word} highest ∧ (lowest < f.min ∨ f.max < highest) := by
  rw [wordFaults, List.mem_append, Option.mem_toList, boundsFault?_eq_some_iff]
  constructor
  · rintro (hchunk | ⟨lowest', highest', hleast, hgreatest, hout, heq⟩)
    · obtain ⟨d, -, hd⟩ := List.mem_map.mp hchunk
      cases hd
    · cases heq
      exact ⟨rfl, hleast, hgreatest, hout⟩
  · rintro ⟨rfl, hleast, hgreatest, hout⟩
    exact Or.inr ⟨lowest, highest, hleast, hgreatest, hout, rfl⟩

/-- The faults of a text have the ends of the set of a field exactly if one of them is out of bounds. -/
theorem outOfBounds_mem_faults_iff {text : String} {f : Field} {lowest highest : Nat} :
    .outOfBounds f lowest highest ∈ faults text ↔ IsLeast {n | n ∈ (read text).values f} lowest ∧
      IsGreatest {n | n ∈ (read text).values f} highest ∧ (lowest < f.min ∨ f.max < highest) := by
  have hsurplus : Fault.outOfBounds f lowest highest ∉
      if 7 < (wordsOf text).length then [Fault.defect (.surplusWords (wordsOf text).length)] else [] := by
    split <;> simp
  rw [faults, List.mem_append, or_iff_right hsurplus, List.mem_flatMap, values_read]
  simp only [outOfBounds_mem_wordFaults_iff]
  constructor
  · rintro ⟨f', -, rfl, h⟩
    exact h
  · intro h
    exact ⟨f, f.mem_all, rfl, h⟩

/-! ## What each report is about -/

/-- A report on chunks is about their field. -/
theorem ChunkReport.field_eq {f : Field} {chunks : List (List Char)} {report : List Fault} (h : ChunkReport f chunks report) :
    ∀ fault ∈ report, fault.field = f := by
  induction h with
  | nil => simp
  | wellFormed _ _ ih => exact ih
  | malformed _ _ ih => exact List.forall_mem_cons.mpr ⟨rfl, ih⟩

/-- A report on a field is about that field. -/
theorem FieldReport.field_eq {words : List (List Char)} {f : Field} {s : ValueSet} {report : List Fault}
    (h : FieldReport words f s report) : ∀ fault ∈ report, fault.field = f := by
  cases h with
  | supplied _ hchunks hbounds =>
    intro fault hfault
    rcases List.mem_append.mp hfault with hfault | hfault
    · exact hchunks.field_eq fault hfault
    · cases hbounds with
      | within => cases hfault
      | outside => rw [List.mem_singleton.mp hfault, Fault.field]
  | implied _ => simp

/-- A report on the number of words is about the year. -/
theorem SurplusReport.field_eq {words : List (List Char)} {report : List Fault} (h : SurplusReport words report) :
    ∀ fault ∈ report, fault.field = .year := by
  cases h with
  | surplus _ => simp [Fault.field, Defect.field]
  | fitting _ => simp

/-- The faults of a text are what is to be reported about it, in three parts.
1. They are the report on the number of words, which is about the year, then for each field in order the report on it, and
   nothing else.
2. A set is among them exactly if one of its ends is out of bounds, and then with both ends as they are after Sundays written
   as 7 have become 0.
3. What is said about a set shows its ends and the bounds of its field. -/
theorem faults_exact (text : String) :
    (∀ report, faults text = report ↔ ∃ surplus reports,
      (SurplusReport (wordsOf text) surplus ∧ ∀ fault ∈ surplus, fault.field = .year) ∧
      (∀ f, FieldReport (wordsOf text) f ((read text).values f) (reports f) ∧ ∀ fault ∈ reports f, fault.field = f) ∧
      report = surplus ++ Field.all.flatMap reports) ∧
    (∀ f lowest highest, .outOfBounds f lowest highest ∈ faults text ↔
      IsLeast {n | n ∈ (read text).values f} lowest ∧ IsGreatest {n | n ∈ (read text).values f} highest ∧
        (lowest < f.min ∨ f.max < highest)) ∧
    ∀ f lowest highest, (Fault.outOfBounds f lowest highest).text =
      s!"Values {lowest}-{highest} outside of bounds {f.min}-{f.max}" := by
  refine ⟨fun report => ?_, fun f lowest highest => outOfBounds_mem_faults_iff, fun f lowest highest => rfl⟩
  simp only [values_read]
  constructor
  · rintro rfl
    have hsurplus := surplusReport_iff.mpr (Eq.refl (if 7 < (wordsOf text).length then
      [Fault.defect (.surplusWords (wordsOf text).length)] else []))
    have hfield : ∀ f, FieldReport (wordsOf text) f (wordValues f (wordFor (wordsOf text) f))
        (wordFaults f (wordFor (wordsOf text) f)) := fun f => fieldReport_iff.mpr rfl
    exact ⟨_, _, ⟨hsurplus, hsurplus.field_eq⟩, fun f => ⟨hfield f, (hfield f).field_eq⟩, rfl⟩
  · rintro ⟨surplus, reports, ⟨hsurplus, -⟩, hfield, rfl⟩
    have hreports : reports = fun f => wordFaults f (wordFor (wordsOf text) f) :=
      funext fun f => fieldReport_iff.mp (hfield f).1
    rw [faults, surplusReport_iff.mp hsurplus, hreports]

end Expression

end Recurrence
