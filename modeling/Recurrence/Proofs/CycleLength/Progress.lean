import Recurrence.Proofs.CycleLength.Cursor
import Recurrence.Proofs.CycleLength.Places

/-!
# Cycle lengths: every call ends

A call of the cursor comes to an outcome from every place, also from one after the end of the input. When that is a value, the
cursor has gone over a phrase of its level and no further (`Cursor.exists_derives_of_result`). So it has made progress, and no
text that goes on with the next character has a longer phrase there (`Cursor.not_derives_of_closed`). Nothing else counts: the
same characters up to that one give the same value at every place of every input (`Cursor.result_of_same_chars`). Each call
leaves less to those after it, so reading with a cursor ends for every text, however its parentheses are nested.
-/

namespace Recurrence.CycleLength

open Text (Placed)

/-- A phrase has characters. -/
theorem Derives.ne_nil {p : Phrase} {cs : List Char} {t : Tree} (h : Derives p cs t) : cs ≠ [] := by
  induction h with
  | number hne => exact hne
  | numberOfUnit => exact List.append_ne_nil_of_right_ne_nil _ (List.cons_ne_nil _ _)
  | parens => exact List.cons_ne_nil _ _
  | factor _ ih => exact ih
  | multiply => exact List.append_ne_nil_of_right_ne_nil _ (List.cons_ne_nil _ _)
  | product _ ih => exact ih
  | add => exact List.append_ne_nil_of_right_ne_nil _ (List.cons_ne_nil _ _)

/-- A calculation with a value was read to its end. -/
theorem Tree.isComplete_of_eval {t : Tree} {value : Int} (h : t.eval = .ok value) : t.IsComplete := by
  rw [eval_eq] at h
  cases hfail : t.firstFailure? with
  | none => exact isComplete_of_firstFailure? hfail
  | some error =>
    rw [hfail] at h
    cases h

namespace Cursor

/-- A call comes to an outcome in the end: with every budget of more than three units for each character that is left, and one
for each level below. -/
def ComesTo (chars : List Placed) (p : Phrase) (start : Nat) (outcome : Except Error (Int × Nat)) : Prop :=
  ∀ budget, 3 * (chars.length - start) + p.level < budget → call chars budget p start = some outcome

variable {chars chars' : List Placed} {p : Phrase} {start start' stop : Nat} {value : Int}

/-- A call comes to one outcome. -/
theorem ComesTo.unique {outcome outcome' : Except Error (Int × Nat)} (h : ComesTo chars p start outcome)
    (h' : ComesTo chars p start outcome') : outcome = outcome' :=
  Option.some.inj ((h _ (Nat.lt_succ_self _)).symm.trans (h' _ (Nat.lt_succ_self _)))

/-- A call comes to the result of the reader of its phrase. -/
theorem comesTo_result (chars : List Placed) (p : Phrase) (start : Nat) :
    ComesTo chars p start (result chars (readPhrase p (chars.drop start))) :=
  fun _ h => call_eq p h

/-- A result with a value is that of a phrase at the place of the cursor, which does not go on with what is left. -/
theorem exists_derives_of_result (h : result chars (readPhrase p (chars.drop start)) = .ok (value, stop)) :
    ∃ ds rest t, chars.drop start = ds ++ rest ∧ stop = start + ds.length ∧ 0 < ds.length ∧
      Derives p (ds.map Placed.char) t ∧ t.eval = .ok value ∧ Closed p rest ∧
      ∀ rest', SameHead rest rest' → Reads p (ds ++ rest') t rest' := by
  obtain ⟨hread, hclosed⟩ := reads_readPhrase p (chars.drop start)
  rw [result] at h
  generalize readPhrase p (chars.drop start) = out at h hread hclosed
  obtain ⟨t, rest⟩ := out
  cases heval : t.eval with
  | error e =>
    rw [heval] at h
    cases h
  | ok value' =>
    rw [heval] at h
    cases h
    obtain ⟨ds, (hds : chars.drop start = ds ++ rest), hderives, hlocal⟩ := hread.derives_local (Tree.isComplete_of_eval heval)
    have hpos : 0 < ds.length := by
      rw [← List.length_map Placed.char]
      exact List.length_pos_iff.mpr hderives.ne_nil
    have hlength := congrArg List.length hds
    rw [List.length_drop, List.length_append] at hlength
    have hstop : chars.length - rest.length = start + ds.length := by omega
    exact ⟨ds, rest, t, hds, hstop, hpos, hderives, heval, hclosed, hlocal⟩

/-- A phrase that does not go on with what is left is maximal: none goes on with the next character, whatever follows that. -/
theorem not_derives_of_closed {ds rest : List Placed} {t : Tree} (hclosed : Closed p rest)
    (hlocal : ∀ rest', SameHead rest rest' → Reads p (ds ++ rest') t rest') {c : Placed} (hc : c ∈ rest.head?)
    (more : List Char) (t' : Tree) : ¬Derives p (ds.map Placed.char ++ c.char :: more) t' := by
  have hhead : SameHead rest (c :: more.map (Placed.mk 0)) := by
    rw [SameHead, Option.mem_def.mp hc]
    rfl
  have hchars : ds.map Placed.char ++ c.char :: more = (ds ++ c :: more.map (Placed.mk 0)).map Placed.char := by
    simp [Function.comp_def]
  rw [hchars]
  exact not_derives_of_reads (hlocal _ hhead) (hclosed.of_sameHead hhead) (Or.inl (List.cons_ne_nil _ _)) t'

/-- Inputs with the same characters up to the one after a piece have the same characters in that piece, and after it the same
head. -/
theorem sameHead_of_take {ds rest cs : List Placed} (h : (cs.take (ds.length + 1)).map Placed.char =
    ((ds ++ rest).take (ds.length + 1)).map Placed.char) :
    (cs.take ds.length).map Placed.char = ds.map Placed.char ∧ SameHead rest (cs.drop ds.length) := by
  rw [List.take_length_add_append, List.take_add, List.map_append, List.map_append] at h
  have hlength := congrArg List.length h
  simp only [List.length_append, List.length_map, List.length_take, List.length_drop] at hlength
  obtain ⟨hfront, hback⟩ := List.append_inj h (by simp only [List.length_map, List.length_take]; omega)
  have hhead := congrArg List.head? hback
  rw [List.head?_map, List.head?_map, List.head?_take, List.head?_take] at hhead
  exact ⟨hfront, hhead.symm⟩

/-- Inputs with the same characters are the same when all offsets are forgotten. -/
theorem map_relocate_eq {cs ds : List Placed} (h : cs.map Placed.char = ds.map Placed.char) :
    cs.map (Placed.relocate fun _ => 0) = ds.map (Placed.relocate fun _ => 0) := by
  have hforget : Placed.relocate (fun _ => 0) = Placed.mk 0 ∘ Placed.char := rfl
  rw [hforget, ← List.map_map, ← List.map_map, h]

/-- A value is found again from the calculation whose offsets are forgotten. -/
theorem eval_of_relocate {t : Tree} {f : Nat → Nat} (h : (t.relocate f).eval = .ok value) : t.eval = .ok value := by
  rw [Tree.eval_relocate] at h
  cases heval : t.eval with
  | error e =>
    rw [heval] at h
    cases h
  | ok value' =>
    rw [heval] at h
    exact h

/-- The characters that a phrase has, and the one after it if there is one, give the same result at every place of every
input. Offsets do not matter, so all of them are forgotten, and the readers find the phrase again there. -/
theorem result_of_same_chars (h : result chars (readPhrase p (chars.drop start)) = .ok (value, stop))
    (hsame : ((chars'.drop start').take (stop - start + 1)).map Placed.char =
      ((chars.drop start).take (stop - start + 1)).map Placed.char) :
    result chars' (readPhrase p (chars'.drop start')) = .ok (value, start' + (stop - start)) := by
  obtain ⟨ds, rest, t, hds, rfl, hpos, hderives, heval, hclosed, hlocal⟩ := exists_derives_of_result h
  rw [Nat.add_sub_cancel_left] at hsame ⊢
  rw [hds] at hsame
  obtain ⟨hfront, hhead⟩ := sameHead_of_take hsame
  have hsplit := List.take_append_drop ds.length (chars'.drop start')
  have hlength : ((chars'.drop start').take ds.length).length = ds.length := by
    rw [← List.length_map Placed.char, hfront, List.length_map]
  generalize (chars'.drop start').take ds.length = front at hfront hsplit hlength
  generalize (chars'.drop start').drop ds.length = back at hhead hsplit
  obtain ⟨hread, hclosed'⟩ := reads_readPhrase p (chars'.drop start')
  rw [result]
  rw [← hsplit] at hread hclosed' ⊢
  generalize readPhrase p (front ++ back) = out at hread hclosed' ⊢
  obtain ⟨t', rest'⟩ := out
  have hforget := (hlocal back hhead).relocate fun _ => 0
  rw [List.map_append, ← map_relocate_eq hfront, ← List.map_append] at hforget
  have hsame := (hforget.readPhrase_eq ((hclosed.of_sameHead hhead).of_sameHead (sameHead_map_relocate _ _))).symm.trans
    ((hread.relocate fun _ => 0).readPhrase_eq (hclosed'.of_sameHead (sameHead_map_relocate _ _)))
  obtain ⟨htree, (hrest : back.map (Placed.relocate fun _ => 0) = rest'.map (Placed.relocate fun _ => 0))⟩ :=
    Prod.mk.inj hsame
  have heval' : t'.eval = .ok value := by
    refine eval_of_relocate (f := fun _ => 0) ?_
    rw [← htree, Tree.eval_relocate, heval]
    rfl
  have hplace : chars'.length - rest'.length = start' + ds.length := by
    have hback := congrArg List.length hrest
    have htotal := congrArg List.length hsplit
    rw [List.length_map, List.length_map] at hback
    rw [List.length_append, List.length_drop] at htotal
    omega
  show t'.eval.map (fun value => (value, chars'.length - rest'.length)) = _
  rw [heval', hplace]
  rfl

/-! ### Texts -/

/-- A text has as many characters that are not blank as its input. -/
theorem length_inkedChars (text : String) : (inkedChars text).length = (inked text).length := by
  rw [← map_char_inked, List.length_map]

/-- A piece of the characters of a text that are not blank. -/
theorem extract_inkedChars (text : String) (start stop : Nat) :
    (inkedChars text).extract start stop = (((inked text).drop start).take (stop - start)).map Placed.char := by
  rw [← map_char_inked, List.extract_eq_take_drop, List.map_take, List.map_drop]

/-- The character of a text after a piece is the first that is left. -/
theorem getElem?_inkedChars {text : String} {ds rest : List Placed} (h : (inked text).drop start = ds ++ rest) :
    (inkedChars text)[start + ds.length]? = rest.head?.map Placed.char := by
  rw [← map_char_inked, List.getElem?_map, ← List.getElem?_drop, h, List.getElem?_append_right (Nat.le_refl _),
    Nat.sub_self, List.head?_eq_getElem?]

/-- Reading with a cursor always makes progress and ends, in three parts.
1. From every place of a text, also one after its end, a call for a phrase comes to an outcome within a budget for the characters
   that are left. It is the outcome of the reader of the phrase.
2. When a call comes to a value and a place, the cursor has moved on, and not beyond the characters of the text that are not blank.
   It has gone over a phrase of its level that has this value. The phrase is maximal: none goes on with the next character,
   whatever follows that. And the call comes to the same value, over as many characters, wherever a text has the same characters
   up to the one after the phrase.
3. So the whole text comes to its length or to its error. -/
theorem call_comesTo (text : String) :
    (∀ p start, ComesTo (inked text) p start (result (inked text) (readPhrase p ((inked text).drop start)))) ∧
    (∀ p start value stop, ComesTo (inked text) p start (.ok (value, stop)) →
      (start < stop ∧ stop ≤ (inkedChars text).length) ∧
      (∃ t, Derives p ((inkedChars text).extract start stop) t ∧ t.eval = .ok value) ∧
      (∀ c ∈ (inkedChars text)[stop]?, ∀ more t, ¬Derives p ((inkedChars text).extract start stop ++ c :: more) t) ∧
      ∀ text' start', (inkedChars text').extract start' (start' + (stop - start) + 1) =
          (inkedChars text).extract start (stop + 1) →
        ComesTo (inked text') p start' (.ok (value, start' + (stop - start)))) ∧
    ∀ budget, 3 * (inkedChars text).length + 2 < budget → read? budget text = some (read text) := by
  refine ⟨comesTo_result (inked text), ?_, fun budget h => ?_⟩
  · intro p start value stop hcall
    have h := (comesTo_result (inked text) p start).unique hcall
    obtain ⟨ds, rest, t, hds, rfl, hpos, hderives, heval, hclosed, hlocal⟩ := exists_derives_of_result h
    have hlength := congrArg List.length hds
    rw [List.length_drop, List.length_append] at hlength
    have hphrase : (inkedChars text).extract start (start + ds.length) = ds.map Placed.char := by
      rw [extract_inkedChars, hds, Nat.add_sub_cancel_left, List.take_left]
    refine ⟨⟨by omega, by rw [length_inkedChars]; omega⟩, ⟨t, hphrase ▸ hderives, heval⟩, ?_, ?_⟩
    · intro c hc more t'
      rw [getElem?_inkedChars hds] at hc
      obtain ⟨d, hd, rfl⟩ := Option.map_eq_some_iff.mp hc
      rw [hphrase]
      exact not_derives_of_closed hclosed hlocal hd more t'
    · intro text' start' hsame
      have hcount : start' + (start + ds.length - start) + 1 - start' = start + ds.length - start + 1 := by omega
      have hcount' : start + ds.length + 1 - start = start + ds.length - start + 1 := by omega
      rw [extract_inkedChars, extract_inkedChars, hcount, hcount'] at hsame
      exact result_of_same_chars h hsame ▸ comesTo_result (inked text') p start'
  · rw [length_inkedChars] at h
    exact read?_eq h

end Cursor

end Recurrence.CycleLength
