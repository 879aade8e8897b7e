import Recurrence.Expression.Reader
import Recurrence.Proofs.Expression.Chunk

/-!
# Words: what they denote

A word denotes the values that its chunks denote, each chunk by itself, with Sunday written as 0 in the day of the week.
A chunk denotes the progression that it means, and the lowest value of the field alone if it means none. The set that is read
from a word holds exactly these values (`Expression.wordValues_exact`).
-/

namespace Recurrence

/-- The members of a progression are its first member and those at whole steps above it, up to the last. -/
theorem ValueSet.mem_progression_iff_exists {n first last step : Nat} :
    n ∈ progression first last step ↔ ∃ k, n = first + k * step ∧ n ≤ last := by
  rw [mem_progression]
  constructor
  · rintro ⟨hfirst, hlast, hmod⟩
    obtain ⟨k, hk⟩ := Nat.dvd_of_mod_eq_zero hmod
    refine ⟨k, ?_, hlast⟩
    rw [Nat.mul_comm k step, ← hk]
    omega
  · rintro ⟨k, rfl, hlast⟩
    refine ⟨Nat.le_add_right _ _, hlast, ?_⟩
    rw [Nat.add_sub_cancel_left]
    exact Nat.mul_mod_left k step

/-- The members of the union of the sets of a list are the members of any of them. -/
theorem ValueSet.mem_foldr_union {α : Type} {sets : α → ValueSet} {xs : List α} {n : Nat} :
    n ∈ xs.foldr (fun x s => (sets x).union s) .empty ↔ ∃ x ∈ xs, n ∈ sets x := by
  induction xs with
  | nil => simp
  | cons x xs ih =>
    rw [List.foldr_cons, mem_union, ih]
    simp

/-- A chunk denotes a value of a field: one of the progression that the chunk means, or the lowest value of the field if the
chunk means none. -/
def Chunk.Denotes (f : Field) (chunk : List Char) (n : Nat) : Prop :=
  (∃ first last step, Means f chunk first last step ∧ ∃ k, n = first + k * step ∧ n ≤ last) ∨
    ((∀ first last step, ¬ Means f chunk first last step) ∧ n = f.min)

namespace Expression

/-- The set of a chunk with a meaning is the progression that it means. -/
theorem chunkValues_of_means {f : Field} {chunk : List Char} {first last step : Nat}
    (h : Chunk.Means f chunk first last step) : chunkValues f chunk = .progression first last step := by
  unfold chunkValues
  rw [Chunk.read_eq_ok_iff.mpr ⟨first, last, step, h, rfl⟩]

/-- The set of a chunk without a meaning has the lowest value of the field alone. -/
theorem chunkValues_of_not_means {f : Field} {chunk : List Char}
    (h : ∀ first last step, ¬ Chunk.Means f chunk first last step) : chunkValues f chunk = .singleton f.min := by
  unfold chunkValues
  cases hread : Chunk.read f chunk with
  | ok s =>
    obtain ⟨first, last, step, hmeans, -⟩ := Chunk.read_eq_ok_iff.mp hread
    exact absurd hmeans (h first last step)
  | error cause => rfl

/-- The set of a chunk holds the values that the chunk denotes. -/
theorem mem_chunkValues {f : Field} {chunk : List Char} {n : Nat} :
    n ∈ chunkValues f chunk ↔ Chunk.Denotes f chunk n := by
  unfold Chunk.Denotes
  by_cases hmeans : ∃ first last step, Chunk.Means f chunk first last step
  · obtain ⟨first, last, step, hmeans⟩ := hmeans
    rw [chunkValues_of_means hmeans, ValueSet.mem_progression_iff_exists]
    constructor
    · intro h
      exact Or.inl ⟨first, last, step, hmeans, h⟩
    · intro h
      rcases h with ⟨first', last', step', hmeans', h'⟩ | ⟨hnone, -⟩
      · obtain ⟨rfl, rfl, rfl⟩ := hmeans.unique hmeans'
        exact h'
      · exact absurd hmeans (hnone first last step)
  · have hnone : ∀ first last step, ¬ Chunk.Means f chunk first last step := by
      intro first last step h
      exact hmeans ⟨first, last, step, h⟩
    rw [chunkValues_of_not_means hnone, ValueSet.mem_singleton]
    constructor
    · intro h
      exact Or.inr ⟨hnone, h⟩
    · intro h
      rcases h with ⟨first, last, step, h', -⟩ | ⟨-, hmin⟩
      · exact absurd h' (hnone first last step)
      · exact hmin

/-- Folding replaces 7 by 0 in the day of the week, and nothing else. -/
theorem mem_foldSunday {f : Field} {s : ValueSet} {n : Nat} :
    n ∈ foldSunday f s ↔ ∃ m ∈ s, n = if f = .dayOfWeek ∧ m = 7 then 0 else m := by
  have hseven : f.sundayIsSeven = true ↔ f = .dayOfWeek := by simp [Field.sundayIsSeven]
  simp only [foldSunday, hseven]
  by_cases hfold : f = .dayOfWeek ∧ 7 ∈ s
  · obtain ⟨hf, h7⟩ := hfold
    rw [if_pos ⟨hf, h7⟩, ValueSet.mem_union, ValueSet.mem_singleton, ValueSet.mem_filter, decide_eq_true_eq]
    constructor
    · intro h
      rcases h with hzero | ⟨hmem, hne⟩
      · exact ⟨7, h7, by rw [if_pos ⟨hf, rfl⟩, hzero]⟩
      · exact ⟨n, hmem, by rw [if_neg fun h => hne h.2]⟩
    · rintro ⟨m, hm, hn⟩
      by_cases hm7 : m = 7
      · rw [if_pos ⟨hf, hm7⟩] at hn
        exact Or.inl hn
      · rw [if_neg fun h => hm7 h.2] at hn
        rw [hn]
        exact Or.inr ⟨hm, hm7⟩
  · have hkept : ∀ m ∈ s, (if f = .dayOfWeek ∧ m = 7 then 0 else m) = m := by
      intro m hm
      rw [if_neg]
      intro h
      exact hfold ⟨h.1, h.2 ▸ hm⟩
    rw [if_neg hfold]
    constructor
    · intro h
      exact ⟨n, h, (hkept n h).symm⟩
    · rintro ⟨m, hm, hn⟩
      rw [hkept m hm] at hn
      rw [hn]
      exact hm

/-- The set of a word has the members of the sets of its chunks, with 0 in the place of 7 in the day of the week. -/
theorem mem_wordValues {f : Field} {word : List Char} {n : Nat} :
    n ∈ wordValues f word ↔
      ∃ chunk ∈ chunks word, ∃ m ∈ chunkValues f chunk, n = if f = .dayOfWeek ∧ m = 7 then 0 else m := by
  unfold wordValues
  rw [mem_foldSunday]
  simp only [ValueSet.mem_foldr_union]
  constructor
  · rintro ⟨m, ⟨chunk, hchunk, hm⟩, hn⟩
    exact ⟨chunk, hchunk, m, hm, hn⟩
  · rintro ⟨chunk, hchunk, m, hm, hn⟩
    exact ⟨m, ⟨chunk, hchunk, hm⟩, hn⟩

/-- The set of a chunk has a member. -/
theorem exists_mem_chunkValues (f : Field) (chunk : List Char) : ∃ n, n ∈ chunkValues f chunk := by
  simp only [mem_chunkValues]
  by_cases hmeans : ∃ first last step, Chunk.Means f chunk first last step
  · obtain ⟨first, last, step, hmeans⟩ := hmeans
    exact ⟨first, Or.inl ⟨first, last, step, hmeans, 0, by omega, hmeans.first_le_last⟩⟩
  · exact ⟨f.min, Or.inr ⟨fun first last step h => hmeans ⟨first, last, step, h⟩, rfl⟩⟩

/-- The set of a word has a member. -/
theorem exists_mem_wordValues (f : Field) (word : List Char) : ∃ n, n ∈ wordValues f word := by
  obtain ⟨chunk, rest, hchunks⟩ := List.exists_cons_of_ne_nil (List.splitOn_ne_nil ',' word)
  obtain ⟨m, hm⟩ := exists_mem_chunkValues f chunk
  refine ⟨_, mem_wordValues.mpr ⟨chunk, ?_, m, hm, rfl⟩⟩
  rw [chunks, hchunks]
  exact List.mem_cons_self

/-- The set of a field is that of the word that is read for the field. -/
theorem values_read (text : String) (f : Field) :
    (read text).values f = wordValues f (wordFor (wordsOf text) f) :=
  values_ofFields _ f

/-- The set that is read from a word holds exactly the values that the chunks of the word denote, with 0 in the place of 7 in
the day of the week. -/
theorem wordValues_exact (f : Field) (word : List Char) (n : Nat) :
    n ∈ wordValues f word ↔
      ∃ chunk ∈ word.splitOn ',', ∃ m, Chunk.Denotes f chunk m ∧ n = if f = .dayOfWeek ∧ m = 7 then 0 else m := by
  unfold wordValues chunks
  rw [mem_foldSunday]
  simp only [ValueSet.mem_foldr_union, mem_chunkValues]
  constructor
  · rintro ⟨m, ⟨chunk, hchunk, hm⟩, hn⟩
    exact ⟨chunk, hchunk, m, hm, hn⟩
  · rintro ⟨chunk, hchunk, m, hm, hn⟩
    exact ⟨m, ⟨chunk, hchunk, hm⟩, hn⟩

example : (wordValues .month "FEB-APR/2,NOV".toList).toList = [2, 4, 11] ∧
    (wordValues .dayOfWeek "SAT,SUN-TUE".toList).toList = [0, 1, 2, 6] := by cbv

end Expression

end Recurrence
