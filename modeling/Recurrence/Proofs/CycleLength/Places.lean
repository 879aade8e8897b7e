import Recurrence.Proofs.CycleLength.Stopping

/-!
# Cycle lengths: the places of errors

Reading looks at characters and never at their offsets, so moving the characters of an input to other offsets moves the offsets of
an error along and changes nothing else (`relocate_length_treeOf`). Two texts that differ in blanks alone have the same
characters at different offsets. So they have the same length or the same error at the same character, and what an error says of
that character is what stopped the reading (`read_error_places`).
-/

namespace Recurrence

open Text (Placed)

/-! ### Moving characters to other offsets -/

/-- A character that is moved to another offset. -/
def Text.Placed.relocate (f : Nat → Nat) (c : Placed) : Placed :=
  ⟨f c.offset, c.char⟩

namespace CycleLength

/-- The error that reading reports when characters are moved to other offsets. -/
def ReadError.relocate (f : Nat → Nat) : ReadError → ReadError
  | unexpectedChar offset char => unexpectedChar (f offset) char
  | unexpectedEnd => unexpectedEnd
  | unbalanced offset => unbalanced (f offset)

/-- The error of a text when characters are moved to other offsets. -/
def Error.relocate (f : Nat → Nat) : Error → Error
  | unreadable cause => unreadable (cause.relocate f)
  | divisionByZero => divisionByZero
  | overflow => overflow
  | negative value => negative value

/-- The calculation that is read when characters are moved to other offsets. -/
def Tree.relocate (f : Nat → Nat) : Tree → Tree
  | number value unit => number value unit
  | operation op left right => operation op (left.relocate f) (right.relocate f)
  | missing cause => missing (cause.relocate f)
  | stopped before cause => stopped (before.relocate f) (cause.relocate f)

variable (f : Nat → Nat)

/-- Moving characters to other offsets changes no character. -/
@[simp] theorem map_char_map_relocate (cs : List Placed) :
    (cs.map (Placed.relocate f)).map Placed.char = cs.map Placed.char := by
  simp [Placed.relocate, Function.comp_def]

/-- Moving characters to other offsets does not change the head of an input. -/
theorem sameHead_map_relocate (cs : List Placed) : SameHead cs (cs.map (Placed.relocate f)) := by
  cases cs <;> simp [SameHead, Placed.relocate]

/-- A digit that is moved to another offset is a digit. -/
theorem isDigit_of_mem_map_relocate {digits : List Placed} (h : ∀ c ∈ digits, c.char.isDigit = true) :
    ∀ c ∈ digits.map (Placed.relocate f), c.char.isDigit = true := by
  intro c hc
  obtain ⟨d, hd, rfl⟩ := List.mem_map.mp hc
  exact h d hd

/-- Every reading is one also when the characters are moved to other offsets. -/
theorem Reads.relocate {p : Phrase} {cs rest : List Placed} {t : Tree} (h : Reads p cs t rest) :
    Reads p (cs.map (Placed.relocate f)) (t.relocate f) (rest.map (Placed.relocate f)) := by
  induction h with
  | @number digits rest hne hdigits hrest =>
    have hnumber := Reads.number (by simpa using hne) (isDigit_of_mem_map_relocate f hdigits)
      (hrest.of_sameHead (sameHead_map_relocate f rest))
    rwa [map_char_map_relocate, ← List.map_append] at hnumber
  | @numberOfUnit digits rest letter unit hne hdigits hunit =>
    have hunit' : TimeUnit.ofChar? (letter.relocate f).char = some unit := hunit
    rw [List.map_append, List.map_cons, Tree.relocate, ← map_char_map_relocate f digits]
    exact Reads.numberOfUnit (by simpa using hne) (isDigit_of_mem_map_relocate f hdigits) hunit'
  | parens hopen _ hclose ih => exact Reads.parens hopen ih hclose
  | @unclosed opening cs rest t hopen _ hno hclose ih =>
    have hopen' : (opening.relocate f).char = '(' := hopen
    refine Reads.unclosed hopen' ih (hno.of_sameHead (sameHead_map_relocate f rest)) fun c hc => ?_
    rw [List.head?_map] at hc
    obtain ⟨d, hd, rfl⟩ := Option.map_eq_some_iff.mp hc
    exact hclose d hd
  | ended => exact Reads.ended
  | @unexpected c cs hopen hdigit => exact Reads.unexpected (c := c.relocate f) hopen hdigit
  | factor _ ih => exact Reads.factor ih
  | multiply _ hop _ ihl ihr => exact Reads.multiply ihl hop ihr
  | @product cs rest t _ hno ih => exact Reads.product ih (hno.of_sameHead (sameHead_map_relocate f rest))
  | @add cs es rest l r c op _ hop _ hno ihl ihr =>
    exact Reads.add ihl hop ihr (hno.of_sameHead (sameHead_map_relocate f rest))

/-- The calculation of an input whose characters are moved to other offsets. -/
theorem relocate_treeOf (cs : List Placed) : treeOf (cs.map (Placed.relocate f)) = (treeOf cs).relocate f := by
  obtain ⟨hread, hno⟩ := reads_readSum cs
  have hout := (hread.relocate f).out_readSum_eq (hno.of_sameHead (sameHead_map_relocate f _))
  obtain ⟨htree, hrest⟩ := Prod.mk.inj hout
  unfold treeOf
  rw [htree, hrest]
  cases (readSum cs).rest with
  | nil => rfl
  | cons c rest =>
    simp only [List.map_cons, Tree.relocate, Placed.relocate]
    split <;> rfl

/-! ### Values and errors -/

/-- A check of an integer reports no offset. -/
theorem mapError_relocate_checked (n : Int) : (checked n).mapError (Error.relocate f) = checked n := by
  rw [checked_eq]
  split <;> rfl

/-- An operation reports no offset. -/
theorem Operator.mapError_relocate_apply (op : Operator) (a b : Int) :
    (op.apply a b).mapError (Error.relocate f) = op.apply a b := by
  cases op with
  | div =>
    simp only [apply]
    split
    · rfl
    · exact mapError_relocate_checked f _
  | add | sub | mul => exact mapError_relocate_checked f _

namespace Tree

/-- The value of a calculation stays, and the offset of its failure moves along. -/
theorem eval_relocate (t : Tree) : (t.relocate f).eval = t.eval.mapError (Error.relocate f) := by
  induction t with
  | number value unit => exact (mapError_relocate_checked f _).symm
  | operation op left right ihl ihr =>
    simp only [relocate, eval, ihl, ihr]
    cases left.eval with
    | error e => rfl
    | ok a =>
      cases right.eval with
      | error e => rfl
      | ok b => exact (op.mapError_relocate_apply f a b).symm
  | missing cause => rfl
  | stopped before cause ih =>
    simp only [relocate, eval, ih]
    cases before.eval <;> rfl

/-- The length that a calculation gives stays, and the offset of its failure moves along. -/
theorem length_relocate (t : Tree) : (t.relocate f).length = t.length.mapError (Error.relocate f) := by
  simp only [length, eval_relocate]
  cases t.eval with
  | error e => rfl
  | ok value =>
    show (if value < 0 then _ else _) = Except.mapError _ (if value < 0 then _ else _)
    split <;> rfl

end Tree

/-- The length of an input stays, and the offset of its error moves along. -/
theorem relocate_length_treeOf (cs : List Placed) :
    (treeOf (cs.map (Placed.relocate f))).length = (treeOf cs).length.mapError (Error.relocate f) := by
  rw [relocate_treeOf, Tree.length_relocate]

/-! ### Inputs with the same characters -/

/-- The characters of an input, each at the number of characters before it. -/
def numbered (chars : List Char) : List Placed :=
  chars.zipIdx.map fun c => ⟨c.2, c.1⟩

/-- The offset of the character at a place of an input. -/
def offsetAt (cs : List Placed) (i : Nat) : Nat :=
  (cs[i]?.map Placed.offset).getD 0

/-- Every input is made from its characters by moving them to their offsets. -/
theorem map_relocate_numbered (cs : List Placed) :
    (numbered (cs.map Placed.char)).map (Placed.relocate (offsetAt cs)) = cs := by
  refine List.ext_getElem? fun i => ?_
  simp only [numbered, List.getElem?_map, List.getElem?_zipIdx]
  cases hi : cs[i]? with
  | none => rfl
  | some c => simp [Placed.relocate, offsetAt, hi]

/-! ### Places of a text -/

/-- A character that is not blank stands at an offset of a text, in bytes, with these characters before and after it that are
not blank. -/
def StandsAt (text : String) (offset : Nat) (before : List Char) (c : Char) (after : List Char) : Prop :=
  ∃ front back, text.toList = front ++ c :: back ∧ (String.ofList front).utf8ByteSize = offset ∧ Text.isBlank c = false ∧
    front.filter (fun d => !Text.isBlank d) = before ∧ back.filter (fun d => !Text.isBlank d) = after

/-- Offsets of two texts are of the same character: the same characters that are not blank stand before it and after it. -/
def SamePlace (text text' : String) (offset offset' : Nat) : Prop :=
  ∃ before c after, StandsAt text offset before c after ∧ StandsAt text' offset' before c after

/-- Errors of the same kind, with the same character or value, at offsets that belong together. -/
inductive Error.Corresponds (place : Nat → Nat → Prop) : Error → Error → Prop where
  | unexpectedChar {offset offset' : Nat} {c : Char} : place offset offset' →
      Corresponds place (.unreadable (.unexpectedChar offset c)) (.unreadable (.unexpectedChar offset' c))
  | unexpectedEnd : Corresponds place (.unreadable .unexpectedEnd) (.unreadable .unexpectedEnd)
  | unbalanced {offset offset' : Nat} : place offset offset' →
      Corresponds place (.unreadable (.unbalanced offset)) (.unreadable (.unbalanced offset'))
  | divisionByZero : Corresponds place .divisionByZero .divisionByZero
  | overflow : Corresponds place .overflow .overflow
  | negative {value : Int} : Corresponds place (.negative value) (.negative value)

/-- The characters of a piece of a text that are not blank. -/
theorem map_char_filter_placedFrom (offset : Nat) (cs : List Char) :
    ((Text.placedFrom offset cs).filter fun c => !Text.isBlank c.char).map Placed.char = cs.filter fun c => !Text.isBlank c := by
  induction cs generalizing offset with
  | nil => rfl
  | cons c cs ih =>
    rw [Text.placedFrom, List.filter_cons, List.filter_cons]
    split
    · rw [List.map_cons, ih]
    · exact ih _

/-- Every piece of the places of a text comes from a piece of the text. -/
theorem exists_eq_placedFrom {offset : Nat} {cs : List Char} {front back : List Placed}
    (h : Text.placedFrom offset cs = front ++ back) :
    ∃ as bs, cs = as ++ bs ∧ front = Text.placedFrom offset as ∧
      back = Text.placedFrom (offset + (String.ofList as).utf8ByteSize) bs := by
  have hcs := congrArg (List.map Placed.char) h
  rw [Text.map_char_placedFrom, List.map_append] at hcs
  rw [hcs, Text.placedFrom_append] at h
  have hlength : (Text.placedFrom offset (front.map Placed.char)).length = front.length := by
    rw [← List.length_map Placed.char, Text.map_char_placedFrom, List.length_map]
  obtain ⟨hfront, hback⟩ := List.append_inj h hlength
  exact ⟨_, _, hcs, hfront.symm, hback.symm⟩

/-- Every character of a text that is not blank stands in the text at its offset. -/
theorem standsAt_of_inked {text : String} {before rest : List Placed} {c : Placed} (h : inked text = before ++ c :: rest) :
    StandsAt text c.offset (before.map Placed.char) c.char (rest.map Placed.char) := by
  obtain ⟨front, back, hplaced, rfl, hback⟩ := List.filter_eq_append_iff.mp h
  obtain ⟨blanks, after, rfl, hblanks, hink, rfl⟩ := List.filter_eq_cons_iff.mp hback
  rw [← List.append_assoc] at hplaced
  obtain ⟨as, bs, htext, hfront, hrest⟩ := exists_eq_placedFrom hplaced
  cases bs with
  | nil => cases hrest
  | cons d bs =>
    obtain ⟨rfl, rfl⟩ := List.cons.inj hrest
    refine ⟨as, bs, htext, (Nat.zero_add _).symm, by simpa using hink, ?_, ?_⟩
    · have hnone : blanks.filter (fun c => !Text.isBlank c.char) = [] := List.filter_eq_nil_iff.mpr hblanks
      rw [← map_char_filter_placedFrom 0 as, ← hfront, List.filter_append, hnone, List.append_nil]
    · exact (map_char_filter_placedFrom _ bs).symm

/-! ### Texts with the same characters -/

/-- The length of a text, or its error, is that of the numbered characters, at their offsets in the text. -/
theorem read_eq_mapError (text : String) :
    read text = (treeOf (numbered (inkedChars text))).length.mapError (Error.relocate (offsetAt (inked text))) := by
  rw [← relocate_length_treeOf, ← map_char_inked, map_relocate_numbered, read_eq_length_treeOf]

/-- A character of one text stands in every text with the same characters. -/
theorem samePlace_of_numbered {text text' : String} (h : inkedChars text' = inkedChars text) {before rest : List Placed}
    {c : Placed} (hc : numbered (inkedChars text) = before ++ c :: rest) :
    SamePlace text text' (offsetAt (inked text) c.offset) (offsetAt (inked text') c.offset) := by
  have hstands : ∀ s, inkedChars s = inkedChars text →
      StandsAt s (offsetAt (inked s) c.offset) (before.map Placed.char) c.char (rest.map Placed.char) := by
    intro s hs
    have hinked := map_relocate_numbered (inked s)
    rw [map_char_inked, hs, hc, List.map_append, List.map_cons] at hinked
    have hc' := standsAt_of_inked hinked.symm
    rwa [map_char_map_relocate, map_char_map_relocate] at hc'
  exact ⟨_, _, _, hstands text rfl, hstands text' h⟩

/-- A calculation that is unreadable fails by that. -/
theorem Tree.firstFailure?_of_length {t : Tree} {cause : ReadError} (h : t.length = .error (.unreadable cause)) :
    t.firstFailure? = some (.unreadable cause) := by
  cases hfail : t.firstFailure? with
  | none =>
    rw [length_of_exact hfail] at h
    split at h <;> cases h
  | some e =>
    rw [length_of_firstFailure? hfail] at h
    cases h
    rfl

/-- Errors of texts with the same characters correspond. The error of the numbered characters is behind both, and it has stopped
at one of these. -/
theorem corresponds_relocate {text text' : String} (h : inkedChars text' = inkedChars text) {e : Error}
    (he : (treeOf (numbered (inkedChars text))).length = .error e) :
    (e.relocate (offsetAt (inked text))).Corresponds (SamePlace text text') (e.relocate (offsetAt (inked text'))) := by
  cases e with
  | unreadable cause =>
    cases stopsAt_of_firstFailure? (Tree.firstFailure?_of_length he) with
    | ended => exact Error.Corresponds.unexpectedEnd
    | unexpected hc => exact Error.Corresponds.unexpectedChar (samePlace_of_numbered h hc)
    | unopened hc => exact Error.Corresponds.unbalanced (samePlace_of_numbered h hc)
    | unclosed hc => exact Error.Corresponds.unbalanced (samePlace_of_numbered h hc)
  | divisionByZero => exact Error.Corresponds.divisionByZero
  | overflow => exact Error.Corresponds.overflow
  | negative value => exact Error.Corresponds.negative

/-- The errors of reading point at the character that stopped it. An unexpected character stands at its offset in the text, what
is before it is viable, and with it that is no longer viable. An unexpected end comes where the text is viable but no calculation,
and where a factor is expected. An unbalanced parenthesis closes after a whole calculation, or it is the innermost open one and
is followed by a whole calculation that the text neither goes on with nor closes. Blanks change no length and no error, apart from
the offset of its character. -/
theorem read_error_places (text : String) :
    (∀ offset c, read text = .error (.unreadable (.unexpectedChar offset c)) →
      ∃ before after, StandsAt text offset before c after ∧ Viable before ∧ ¬Viable (before ++ [c])) ∧
    (read text = .error (.unreadable .unexpectedEnd) →
      Viable (inkedChars text) ∧ (∀ t, ¬Derives .sum (inkedChars text) t) ∧
        ∀ c ∈ (inkedChars text).getLast?, c ∈ expectant) ∧
    (∀ offset, read text = .error (.unreadable (.unbalanced offset)) →
      (∃ before after t, StandsAt text offset before ')' after ∧ Derives .sum before t ∧ Balanced before) ∨
      ∃ before inner rest t, StandsAt text offset before '(' (inner ++ rest) ∧ Derives .sum inner t ∧ Balanced inner ∧
        Viable (before ++ '(' :: inner) ∧
        ∀ c ∈ rest.head?, c ≠ ')' ∧ ¬Viable (inner ++ [c]) ∧ ¬Viable (before ++ '(' :: inner ++ [c])) ∧
    (∀ text', inkedChars text' = inkedChars text →
      (∀ n, read text = .ok n → read text' = .ok n) ∧
      ∀ e, read text = .error e → ∃ e', read text' = .error e' ∧ e.Corresponds (SamePlace text text') e') := by
  have hstops : ∀ cause, read text = .error (.unreadable cause) → StopsAt (inked text) cause := by
    intro cause h
    rw [read_eq_length_treeOf] at h
    exact stopsAt_of_firstFailure? (Tree.firstFailure?_of_length h)
  refine ⟨?_, ?_, ?_, ?_⟩
  · intro offset c h
    cases hstops _ h with
    | unexpected hc hviable hnot => exact ⟨_, _, standsAt_of_inked hc, hviable, hnot⟩
  · intro h
    cases hstops _ h with
    | ended hexpects =>
      have hnot := fun t => hexpects.not_derives NoFactor.ended t
      rw [List.append_nil] at hnot
      rw [map_char_inked] at hnot hexpects
      exact ⟨hexpects.viable, hnot, hexpects.getLast?_mem⟩
  · intro offset h
    cases hstops _ h with
    | @unopened before rest c t hc hclose hbefore =>
      refine Or.inl ⟨_, rest.map Placed.char, t, ?_, hbefore, hbefore.balanced⟩
      rw [← hclose]
      exact standsAt_of_inked hc
    | @unclosed before inner rest opening t hc hopen hinner hviable hnot =>
      refine Or.inr ⟨_, _, rest.map Placed.char, t, ?_, hinner, hinner.balanced, hviable, ?_⟩
      · rw [← hopen, ← List.map_append]
        exact standsAt_of_inked hc
      · intro c hmem
        rw [List.head?_map] at hmem
        obtain ⟨d, hd, rfl⟩ := Option.map_eq_some_iff.mp hmem
        exact hnot d hd
  · intro text' h
    rw [read_eq_mapError text, read_eq_mapError text', h]
    cases hlength : (treeOf (numbered (inkedChars text))).length with
    | ok n => exact ⟨fun m hm => hm, fun e he => nomatch he⟩
    | error e =>
      refine ⟨fun m hm => (nomatch hm), fun e' he' => ?_⟩
      cases he'
      exact ⟨_, rfl, corresponds_relocate h hlength⟩

end CycleLength

end Recurrence
