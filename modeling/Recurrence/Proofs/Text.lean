import Mathlib.Data.List.TakeWhile
import Recurrence.Text.Blank
import Recurrence.Text.Cut
import Recurrence.Text.Numeral

/-!
# Text: what is a word, what is cut, and what is a number

A word that stands between blanks, or at an end of a text, is one of the words of the text, in its place (`words_between`).
So the words of a text are those that it spells, whatever blanks are around them (`Spells.words_eq`), and words that are written
with single spaces between them are the words of what is written (`words_intercalate`).
The other direction of `cut_some` and `cut_none`: a text is cut in the one way that leaves no separator in the left part.
`IsLiteral` says which texts write a number where a plus sign may stand, and reading such a text gives that number
(`unsigned?_eq_some_iff`). With a minus sign allowed too it is `IsSignedLiteral` (`signed?_eq_some_iff`).
-/

namespace Recurrence.Text

/-! ### Words -/

/-- A text is a word when it is not empty and none of its characters is blank. -/
def IsWord (cs : List Char) : Prop :=
  cs ≠ [] ∧ ∀ c ∈ cs, isBlank c = false

instance (cs : List Char) : Decidable (IsWord cs) :=
  decidable_of_iff (cs ≠ [] ∧ (cs.all fun c => !isBlank c) = true) (by simp [IsWord])

/-- A word may follow a text that is empty or ends with a blank. -/
def EndsBlank (cs : List Char) : Prop :=
  ∀ c ∈ cs.getLast?, isBlank c = true

instance (cs : List Char) : Decidable (EndsBlank cs) :=
  decidable_of_iff (cs.getLast?.all isBlank = true) (Option.all_eq_true _ _)

/-- A word may come before a text that is empty or begins with a blank. -/
def BeginsBlank (cs : List Char) : Prop :=
  ∀ c ∈ cs.head?, isBlank c = true

instance (cs : List Char) : Decidable (BeginsBlank cs) :=
  decidable_of_iff (cs.head?.all isBlank = true) (Option.all_eq_true _ _)

/-- An empty text has no words. -/
@[simp] theorem words_nil : words [] = [] :=
  rfl

/-- No word goes on over a blank. -/
theorem words_append_cons {blank : Char} (h : isBlank blank = true) (cs ds : List Char) :
    words (cs ++ blank :: ds) = words cs ++ words ds := by
  simp only [words, List.splitOnP_append_cons cs ds h, List.filter_append]

/-- Two words make one when nothing is between them. -/
theorem IsWord.append {cs ds : List Char} (h : IsWord cs) (h' : IsWord ds) : IsWord (cs ++ ds) := by
  refine ⟨List.append_ne_nil_of_left_ne_nil h.1 ds, fun c hc => ?_⟩
  rcases List.mem_append.mp hc with hc | hc
  · exact h.2 c hc
  · exact h'.2 c hc

/-- A word is the only word of itself. -/
theorem IsWord.words_eq {cs : List Char} (h : IsWord cs) : words cs = [cs] := by
  rw [words, List.splitOnP_eq_singleton h.2]
  simp [h.1]

/-- The words before a place where a word may begin are not touched by what follows. -/
theorem words_append_of_endsBlank {cs : List Char} (h : EndsBlank cs) (ds : List Char) :
    words (cs ++ ds) = words cs ++ words ds := by
  rcases List.eq_nil_or_concat cs with rfl | ⟨init, blank, rfl⟩
  · simp
  · have hblank : isBlank blank = true := h blank (by simp)
    rw [List.concat_eq_append, List.append_assoc, List.singleton_append, words_append_cons hblank,
      words_append_cons hblank, words_nil, List.append_nil]

/-- The words after a place where a word may end are not touched by what comes before. -/
theorem words_append_of_beginsBlank {ds : List Char} (h : BeginsBlank ds) (cs : List Char) :
    words (cs ++ ds) = words cs ++ words ds := by
  cases ds with
  | nil => simp
  | cons blank ds =>
    have hblank : isBlank blank = true := h blank (by simp)
    have hrest : words (blank :: ds) = words ds := words_append_cons hblank [] ds
    rw [words_append_cons hblank, hrest]

/-- A word between blanks is one of the words of the text. -/
theorem words_between {before word after : List Char} (hbefore : EndsBlank before) (hword : IsWord word)
    (hafter : BeginsBlank after) : words (before ++ word ++ after) = words before ++ word :: words after := by
  rw [words_append_of_beginsBlank hafter, words_append_of_endsBlank hbefore, hword.words_eq, List.append_assoc,
    List.singleton_append]

/-- Words make one word when there are words between them. -/
theorem IsWord.intercalate {separator : List Char} (hseparator : IsWord separator) {ws : List (List Char)} (hne : ws ≠ [])
    (h : ∀ word ∈ ws, IsWord word) : IsWord (separator.intercalate ws) := by
  induction ws with
  | nil => exact absurd rfl hne
  | cons word ws ih =>
    obtain ⟨hword, hws⟩ := List.forall_mem_cons.mp h
    cases ws with
    | nil =>
      rw [List.intercalate_singleton]
      exact hword
    | cons word' ws =>
      rw [List.intercalate_cons_cons]
      exact (hword.append hseparator).append (ih (List.cons_ne_nil _ _) hws)

/-- Words with single spaces between them are the words of the text that they make. -/
theorem words_intercalate {ws : List (List Char)} (h : ∀ word ∈ ws, IsWord word) : words ([' '].intercalate ws) = ws := by
  induction ws with
  | nil => rfl
  | cons word ws ih =>
    obtain ⟨hword, hws⟩ := List.forall_mem_cons.mp h
    cases ws with
    | nil => rw [List.intercalate_singleton, hword.words_eq]
    | cons word' ws =>
      rw [List.intercalate_cons_cons, List.append_assoc, List.singleton_append, words_append_cons (by decide),
        hword.words_eq, ih hws, List.singleton_append]

/-- A text spells words: they stand in it in this order, with at least one blank between two of them and any number of blanks
before the first and after the last. -/
inductive Spells : List Char → List (List Char) → Prop where
  | blanks {cs : List Char} : (∀ c ∈ cs, isBlank c = true) → Spells cs []
  | word {blanks word rest : List Char} {ws : List (List Char)} : (∀ c ∈ blanks, isBlank c = true) → IsWord word →
      BeginsBlank rest → Spells rest ws → Spells (blanks ++ word ++ rest) (word :: ws)

/-- A text of blanks has no words. -/
theorem words_of_forall_isBlank {cs : List Char} (h : ∀ c ∈ cs, isBlank c = true) : words cs = [] := by
  induction cs with
  | nil => rfl
  | cons blank cs ih =>
    obtain ⟨hblank, hcs⟩ := List.forall_mem_cons.mp h
    have hrest : words (blank :: cs) = words cs := words_append_cons hblank [] cs
    rw [hrest, ih hcs]

/-- The words of a text are those that it spells. -/
theorem Spells.words_eq {cs : List Char} {ws : List (List Char)} (h : Spells cs ws) : words cs = ws := by
  induction h with
  | blanks hblanks => exact words_of_forall_isBlank hblanks
  | @word blanks word rest ws hblanks hword hrest _ ih =>
    have hends : EndsBlank blanks := fun c hc => hblanks c (List.mem_of_getLast? hc)
    rw [words_between hends hword hrest, words_of_forall_isBlank hblanks, ih, List.nil_append]

/-- A text that is not blank begins with blanks and a whole word. -/
theorem exists_eq_blanks_append (cs : List Char) : (∀ c ∈ cs, isBlank c = true) ∨
    ∃ blanks word rest, cs = blanks ++ word ++ rest ∧ (∀ c ∈ blanks, isBlank c = true) ∧ IsWord word ∧ BeginsBlank rest := by
  have hsplit := List.takeWhile_append_dropWhile (p := isBlank) (l := cs)
  have hblanks : ∀ c ∈ cs.takeWhile isBlank, isBlank c = true := List.all_eq_true.mp List.all_takeWhile
  cases hink : cs.dropWhile isBlank with
  | nil =>
    rw [hink, List.append_nil] at hsplit
    exact Or.inl (hsplit ▸ hblanks)
  | cons c ink =>
    have hc : isBlank c = false := by
      have hhead := List.head?_dropWhile_not isBlank cs
      simpa [hink] using hhead
    refine Or.inr ⟨_, c :: ink.takeWhile fun d => !isBlank d, ink.dropWhile fun d => !isBlank d, ?_, hblanks, ?_, ?_⟩
    · rw [List.append_assoc, List.cons_append, List.takeWhile_append_dropWhile, ← hink, hsplit]
    · refine ⟨List.cons_ne_nil _ _, List.forall_mem_cons.mpr ⟨hc, fun d hd => ?_⟩⟩
      simpa using List.all_eq_true.mp List.all_takeWhile d hd
    · intro d hd
      have hhead := List.head?_dropWhile_not (fun d => !isBlank d) ink
      rw [hd] at hhead
      simpa using hhead

/-- Every text spells its words. The induction is on the length of the text, because each step takes the blanks and the word at
its start. -/
theorem spells_words (cs : List Char) : Spells cs (words cs) := by
  induction hn : cs.length using Nat.strongRecOn generalizing cs with
  | ind n ih =>
    rcases exists_eq_blanks_append cs with hblank | ⟨blanks, word, rest, rfl, hblanks, hword, hrest⟩
    · rw [words_of_forall_isBlank hblank]
      exact Spells.blanks hblank
    · have hshorter : rest.length < n := by
        have hlength := List.length_pos_iff.mpr hword.1
        simp only [List.length_append] at hn
        omega
      have hspells := Spells.word hblanks hword hrest (ih _ hshorter _ rfl)
      rwa [hspells.words_eq]

/-- The words of a text are those that it spells, and no others. -/
theorem spells_iff {cs : List Char} {ws : List (List Char)} : Spells cs ws ↔ words cs = ws :=
  ⟨Spells.words_eq, fun h => h ▸ spells_words cs⟩

instance (cs : List Char) (ws : List (List Char)) : Decidable (Spells cs ws) :=
  decidable_of_iff (words cs = ws) spells_iff.symm

/-! ### Trimming -/

/-- What is left of a text without the blanks around it. Neither its first character nor its last one is blank. -/
def Trims (cs trimmed : List Char) : Prop :=
  ∃ before after, cs = before ++ trimmed ++ after ∧ (∀ c ∈ before, isBlank c = true) ∧ (∀ c ∈ after, isBlank c = true) ∧
    (∀ c ∈ trimmed.head?, isBlank c = false) ∧ ∀ c ∈ trimmed.getLast?, isBlank c = false

/-- The blanks at the start of a text are dropped, up to a character that is not blank. -/
theorem exists_eq_append_trimStart (cs : List Char) :
    ∃ before, cs = before ++ trimStart cs ∧ (∀ c ∈ before, isBlank c = true) ∧
      ∀ c ∈ (trimStart cs).head?, isBlank c = false := by
  refine ⟨cs.takeWhile isBlank, List.takeWhile_append_dropWhile.symm, List.all_eq_true.mp List.all_takeWhile, ?_⟩
  intro c hc
  have hhead := List.head?_dropWhile_not isBlank cs
  rw [trimStart, Option.mem_def] at hc
  simpa [hc] using hhead

/-- Trimming drops the blanks around a text and nothing else. -/
theorem trims_trim (cs : List Char) : Trims cs (trim cs) := by
  obtain ⟨before, hcs, hbefore, hfirst⟩ := exists_eq_append_trimStart cs
  obtain ⟨after, hreverse, hafter, hlast⟩ := exists_eq_append_trimStart (trimStart cs).reverse
  have hstart : trimStart cs = trim cs ++ after.reverse := by
    rw [trim, ← List.reverse_append, ← hreverse, List.reverse_reverse]
  refine ⟨before, after.reverse, ?_, hbefore, fun c hc => hafter c (List.mem_reverse.mp hc), ?_, ?_⟩
  · rw [List.append_assoc, ← hstart, ← hcs]
  · intro c hc
    refine hfirst c ?_
    rw [hstart, List.head?_append, Option.mem_def.mp hc]
    rfl
  · intro c hc
    rw [trim, List.getLast?_reverse] at hc
    exact hlast c hc

/-! ### Cutting -/

/-- The characters before a separator go on to the end exactly if the text holds no separator. -/
theorem forall_bne_iff {separator : Char} {cs : List Char} : (∀ c ∈ cs, (c != separator) = true) ↔ separator ∉ cs := by
  constructor
  · intro h hs
    exact bne_iff_ne.mp (h separator hs) rfl
  · intro h c hc
    rw [bne_iff_ne]
    intro heq
    exact h (heq ▸ hc)

/-- A text is cut at its first separator. -/
theorem cut_append {separator : Char} {left : List Char} (right : List Char) (h : separator ∉ left) :
    cut separator (left ++ separator :: right) = (left, some right) := by
  have hleft := forall_bne_iff.mpr h
  unfold cut
  rw [List.takeWhile_append_of_pos hleft, List.dropWhile_append_of_pos hleft]
  simp

/-- A text without a separator is not cut. -/
theorem cut_of_notMem {separator : Char} {cs : List Char} (h : separator ∉ cs) : cut separator cs = (cs, none) := by
  have hcs := forall_bne_iff.mpr h
  unfold cut
  rw [List.takeWhile_eq_self_iff.mpr hcs, List.dropWhile_eq_nil_iff.mpr hcs]
  rfl

/-! ### Numbers -/

/-- A text writes a number: ASCII digits, at least one and with any leading zeros, or one plus sign and such digits. -/
inductive IsLiteral : List Char → Nat → Prop where
  | digits {cs : List Char} : cs ≠ [] → (∀ c ∈ cs, c.isDigit = true) → IsLiteral cs (Nat.ofDigitChars 10 cs 0)
  | plus {cs : List Char} : cs ≠ [] → (∀ c ∈ cs, c.isDigit = true) → IsLiteral ('+' :: cs) (Nat.ofDigitChars 10 cs 0)

/-- A text reads as a natural number exactly if it is made of digits, and then as the number that they write. -/
theorem natural?_eq_some_iff {cs : List Char} {n : Nat} :
    natural? cs = some n ↔ (cs ≠ [] ∧ ∀ c ∈ cs, c.isDigit = true) ∧ Nat.ofDigitChars 10 cs 0 = n := by
  unfold natural?
  rw [← List.all_eq_true]
  split
  · next h => simp [h]
  · next h =>
    simp only [reduceCtorEq, false_iff, not_and]
    intro h'
    exact absurd h' h

/-- A literal has only digits and plus signs. -/
theorem IsLiteral.isDigit_or {cs : List Char} {n : Nat} (h : IsLiteral cs n) {c : Char} (hc : c ∈ cs) :
    c.isDigit = true ∨ c = '+' := by
  cases h with
  | digits _ hdigits => exact Or.inl (hdigits c hc)
  | plus _ hdigits =>
    rw [List.mem_cons] at hc
    rcases hc with hplus | htail
    · exact Or.inr hplus
    · exact Or.inl (hdigits c htail)

/-- A digit is not blank. -/
theorem isBlank_of_isDigit {c : Char} (h : c.isDigit = true) : isBlank c = false := by
  have hrange : 48 ≤ c.toNat ∧ c.toNat ≤ 57 := Char.isDigit_iff_toNat.mp h
  simp only [isBlank, Bool.or_eq_false_iff, Bool.and_eq_false_iff, decide_eq_false_iff_not]
  omega

/-- A number in decimal has only digits. -/
theorem isDigit_of_mem_decimal {n : Nat} {c : Char} (h : c ∈ decimal n) : c.isDigit = true :=
  Nat.isDigit_of_mem_toDigits (by decide) (by decide) h

/-- A number in decimal is a word. -/
theorem isWord_decimal (n : Nat) : IsWord (decimal n) :=
  ⟨Nat.toDigits_ne_nil, fun _ hc => isBlank_of_isDigit (isDigit_of_mem_decimal hc)⟩

/-- A literal is not empty. -/
theorem IsLiteral.ne_nil {cs : List Char} {n : Nat} (h : IsLiteral cs n) : cs ≠ [] := by
  cases h with
  | digits hne _ => exact hne
  | plus _ _ => exact List.cons_ne_nil _ _

/-- A text reads as a number where a plus sign may stand exactly if it is a literal of that number. -/
theorem unsigned?_eq_some_iff {cs : List Char} {n : Nat} : unsigned? cs = some n ↔ IsLiteral cs n := by
  constructor
  · intro h
    rw [unsigned?.eq_def] at h
    split at h
    · next digits =>
      obtain ⟨⟨hne, hdigits⟩, rfl⟩ := natural?_eq_some_iff.mp h
      exact IsLiteral.plus hne hdigits
    · next cs _ =>
      obtain ⟨⟨hne, hdigits⟩, rfl⟩ := natural?_eq_some_iff.mp h
      exact IsLiteral.digits hne hdigits
  · intro h
    cases h with
    | plus hne hdigits => exact natural?_eq_some_iff.mpr ⟨⟨hne, hdigits⟩, rfl⟩
    | digits hne hdigits =>
      rw [unsigned?.eq_def]
      split
      · next digits =>
        have hplus := hdigits '+' List.mem_cons_self
        cases hplus
      · exact natural?_eq_some_iff.mpr ⟨⟨hne, hdigits⟩, rfl⟩

/-- A text writes an integer: it is a literal, or one minus sign and ASCII digits. -/
inductive IsSignedLiteral : List Char → Int → Prop where
  | unsigned {cs : List Char} {n : Nat} : IsLiteral cs n → IsSignedLiteral cs n
  | minus {cs : List Char} : cs ≠ [] → (∀ c ∈ cs, c.isDigit = true) →
      IsSignedLiteral ('-' :: cs) (-(Nat.ofDigitChars 10 cs 0 : Nat))

/-- The sign of an integer is put to the number that the digits write. -/
theorem map_natural?_eq_some_iff {digits : List Char} {sign : Int → Int} {n : Int} :
    (natural? digits >>= fun m => pure (m : Int)).map sign = some n ↔
      (digits ≠ [] ∧ ∀ c ∈ digits, c.isDigit = true) ∧ sign (Nat.ofDigitChars 10 digits 0 : Nat) = n := by
  constructor
  · intro h
    obtain ⟨_, hm, rfl⟩ := Option.map_eq_some_iff.mp h
    obtain ⟨m, hnatural, hcast⟩ := Option.bind_eq_some_iff.mp hm
    obtain ⟨hdigits, rfl⟩ := natural?_eq_some_iff.mp hnatural
    cases hcast
    exact ⟨hdigits, rfl⟩
  · rintro ⟨hdigits, rfl⟩
    rw [natural?_eq_some_iff.mpr ⟨hdigits, rfl⟩]
    rfl

/-- A text reads as an integer exactly if it writes that integer. -/
theorem signed?_eq_some_iff {cs : List Char} {n : Int} : signed? cs = some n ↔ IsSignedLiteral cs n := by
  constructor
  · intro h
    rw [signed?.eq_def] at h
    split at h
    · obtain ⟨⟨hne, hdigits⟩, rfl⟩ := map_natural?_eq_some_iff.mp h
      exact IsSignedLiteral.unsigned (IsLiteral.plus hne hdigits)
    · obtain ⟨⟨hne, hdigits⟩, rfl⟩ := map_natural?_eq_some_iff.mp h
      exact IsSignedLiteral.minus hne hdigits
    · obtain ⟨⟨hne, hdigits⟩, rfl⟩ := map_natural?_eq_some_iff.mp h
      exact IsSignedLiteral.unsigned (IsLiteral.digits hne hdigits)
  · intro h
    cases h with
    | minus hne hdigits => exact map_natural?_eq_some_iff.mpr ⟨⟨hne, hdigits⟩, rfl⟩
    | unsigned hliteral =>
      cases hliteral with
      | plus hne hdigits => exact map_natural?_eq_some_iff.mpr ⟨⟨hne, hdigits⟩, rfl⟩
      | digits hne hdigits =>
        rw [signed?.eq_def]
        split
        · have hplus := hdigits '+' List.mem_cons_self
          cases hplus
        · have hminus := hdigits '-' List.mem_cons_self
          cases hminus
        · exact map_natural?_eq_some_iff.mpr ⟨⟨hne, hdigits⟩, rfl⟩

/-- A number in decimal is a literal of it. -/
theorem isLiteral_decimal (n : Nat) : IsLiteral (decimal n) n :=
  unsigned?_eq_some_iff.mp (unsigned?_decimal n)

end Recurrence.Text
