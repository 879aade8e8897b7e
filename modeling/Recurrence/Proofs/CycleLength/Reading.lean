import Recurrence.Proofs.CycleLength.Evaluation
import Recurrence.Proofs.CycleLength.Grammar

/-!
# Cycle lengths: the readers follow the grammar

The readers do with every input what `Reads` says, and nothing else: their result is a reading (`reads_readSum`), and every
reading of an input to a place where it cannot go on is their result (`Reads.out_readSum_eq`). With the two directions between
readings and derivations, a text has a cycle length exactly if its characters that are not blank derive from the grammar to
a calculation in which no part fails and whose exact value is that length (`read_eq_ok_iff`).
-/

namespace Recurrence.CycleLength

open Text (Placed)

/-! ### The readers, equation by equation -/

/-- The tree and the rest of a reading. -/
def Reading.out {cs : List Placed} (r : Reading cs) : Tree × List Placed :=
  (r.tree, r.rest)

/-- A sum begins with a product. -/
theorem out_readSum (cs : List Placed) :
    (readSum cs).out = (readTerms (readProduct cs).tree (readProduct cs).rest).out := by
  rw [readSum]
  rfl

/-- A sum ends before anything but its operators. -/
theorem out_readTerms_of_noOperator (sum : Tree) {cs : List Placed} (h : NoOperator Operator.additive? cs) :
    (readTerms sum cs).out = (sum, cs) := by
  cases cs with
  | nil =>
    rw [readTerms]
    rfl
  | cons c rest =>
    rw [noOperator_cons] at h
    rw [readTerms]
    simp only [h]
    rfl

/-- A sum goes on with the product after an operator. -/
theorem out_readTerms_of_operator (sum : Tree) {c : Placed} (rest : List Placed) {op : Operator}
    (h : Operator.additive? c.char = some op) :
    (readTerms sum (c :: rest)).out =
      (readTerms (.operation op sum (readProduct rest).tree) (readProduct rest).rest).out := by
  rw [readTerms]
  simp only [h]
  rfl

/-- A product begins with a factor. -/
theorem out_readProduct (cs : List Placed) :
    (readProduct cs).out = (readFactors (readFactor cs).tree (readFactor cs).rest).out := by
  rw [readProduct]
  rfl

/-- A product ends before anything but its operators. -/
theorem out_readFactors_of_noOperator (product : Tree) {cs : List Placed}
    (h : NoOperator Operator.multiplicative? cs) : (readFactors product cs).out = (product, cs) := by
  cases cs with
  | nil =>
    rw [readFactors]
    rfl
  | cons c rest =>
    rw [noOperator_cons] at h
    rw [readFactors]
    simp only [h]
    rfl

/-- A product goes on with the factor after an operator. -/
theorem out_readFactors_of_operator (product : Tree) {c : Placed} (rest : List Placed) {op : Operator}
    (h : Operator.multiplicative? c.char = some op) :
    (readFactors product (c :: rest)).out =
      (readFactors (.operation op product (readFactor rest).tree) (readFactor rest).rest).out := by
  rw [readFactors]
  simp only [h]
  rfl

/-- At the end of the input a factor is missing. -/
theorem out_readFactor_nil : (readFactor []).out = (.missing .unexpectedEnd, []) := by
  rw [readFactor]
  rfl

/-- A sum in parentheses is a factor when the parenthesis after it closes. -/
theorem out_readFactor_of_closing {opening closing : Placed} {rest after : List Placed} (hopen : opening.char = '(')
    (hrest : (readSum rest).rest = closing :: after) (hclose : closing.char = ')') :
    (readFactor (opening :: rest)).out = ((readSum rest).tree, after) := by
  rw [readFactor]
  simp only [hopen, if_true]
  split
  · next h =>
    rw [hrest] at h
    cases h
  · next d after' h =>
    rw [hrest] at h
    cases h
    rw [if_pos hclose]
    rfl

/-- A sum in parentheses stops the reading when anything else follows it. -/
theorem out_readFactor_of_unclosed {opening : Placed} {rest : List Placed} (hopen : opening.char = '(')
    (hrest : ∀ c ∈ (readSum rest).rest.head?, c.char ≠ ')') :
    (readFactor (opening :: rest)).out = (.stopped (readSum rest).tree (.unbalanced opening.offset), []) := by
  rw [readFactor]
  simp only [hopen, if_true]
  split
  · rfl
  · next d after h =>
    rw [h, List.head?_cons] at hrest
    rw [if_neg (hrest d rfl)]
    rfl

/-- A factor that begins with a digit is a number. -/
theorem out_readFactor_of_isDigit {c : Placed} (rest : List Placed) (h : c.char.isDigit = true) :
    (readFactor (c :: rest)).out = (readNumber (c :: rest)).out := by
  have hopen : c.char ≠ '(' := by
    intro he
    rw [he] at h
    cases h
  rw [readFactor]
  simp only [if_neg hopen, if_pos h]

/-- No factor begins with another character. -/
theorem out_readFactor_of_unexpected {c : Placed} (rest : List Placed) (hopen : c.char ≠ '(')
    (hdigit : c.char.isDigit = false) :
    (readFactor (c :: rest)).out = (.missing (.unexpectedChar c.offset c.char), []) := by
  rw [readFactor]
  simp only [if_neg hopen, hdigit]
  rfl

/-! ### Numbers -/

/-- The digits at the start of an input and what follows them are told apart by the first character that is no digit. -/
theorem span_digits {digits rest : List Placed} (hdigits : ∀ c ∈ digits, c.char.isDigit = true)
    (hrest : ∀ c ∈ rest.head?, c.char.isDigit = false) :
    (digits ++ rest).takeWhile (·.char.isDigit) = digits ∧ (digits ++ rest).dropWhile (·.char.isDigit) = rest := by
  rw [List.takeWhile_append_of_pos hdigits, List.dropWhile_append_of_pos hdigits]
  cases rest with
  | nil => simp
  | cons c rest =>
    have hc := hrest c rfl
    simp [hc]

/-- A number without a unit is in seconds. -/
theorem out_readNumber_of_noNumber {digits rest : List Placed} (hdigits : ∀ c ∈ digits, c.char.isDigit = true)
    (hrest : NoNumber rest) :
    (readNumber (digits ++ rest)).out = (.number (Nat.ofDigitChars 10 (digits.map Placed.char) 0) .second, rest) := by
  obtain ⟨htake, hdrop⟩ := span_digits hdigits fun c hc => (hrest c hc).1
  unfold readNumber
  simp only [htake]
  split
  · next h _ =>
    rw [hdrop] at h
    subst h
    rfl
  · next c after h _ =>
    rw [hdrop] at h
    subst h
    have hunit := (noNumber_cons.mp hrest).2
    simp only [hunit]
    rfl

/-- A number takes the unit after it. -/
theorem out_readNumber_of_unit {digits rest : List Placed} {letter : Placed} {unit : TimeUnit}
    (hdigits : ∀ c ∈ digits, c.char.isDigit = true) (hunit : TimeUnit.ofChar? letter.char = some unit) :
    (readNumber (digits ++ letter :: rest)).out =
      (.number (Nat.ofDigitChars 10 (digits.map Placed.char) 0) unit, rest) := by
  have hletter : ∀ c ∈ (letter :: rest).head?, c.char.isDigit = false := by
    intro c hc
    rw [List.head?_cons, Option.mem_some_iff] at hc
    subst hc
    exact TimeUnit.isDigit_of_ofChar? hunit
  obtain ⟨htake, hdrop⟩ := span_digits hdigits hletter
  unfold readNumber
  simp only [htake]
  split
  · next h _ =>
    rw [hdrop] at h
    cases h
  · next c after h _ =>
    rw [hdrop] at h
    cases h
    simp only [hunit]
    rfl

/-- Every input is cut after the digits at its start. -/
theorem exists_digits (cs : List Placed) : ∃ digits rest, cs = digits ++ rest ∧ (∀ c ∈ digits, c.char.isDigit = true) ∧
    ∀ c ∈ rest.head?, c.char.isDigit = false := by
  refine ⟨cs.takeWhile (·.char.isDigit), cs.dropWhile (·.char.isDigit), List.takeWhile_append_dropWhile.symm,
    List.all_eq_true.mp List.all_takeWhile, fun c hc => ?_⟩
  have hstop := List.head?_dropWhile_not (·.char.isDigit) cs
  rw [hc] at hstop
  simpa using hstop

/-- Reading a number is a reading of a factor. -/
theorem reads_readNumber {c : Placed} (rest : List Placed) (h : c.char.isDigit = true) :
    Reads .factor (c :: rest) (readNumber (c :: rest)).out.1 (readNumber (c :: rest)).out.2 := by
  obtain ⟨digits, after, rfl, hdigits, hstop⟩ := exists_digits rest
  have hall : ∀ d ∈ c :: digits, d.char.isDigit = true := List.forall_mem_cons.mpr ⟨h, hdigits⟩
  rw [← List.cons_append]
  cases after with
  | nil =>
    rw [out_readNumber_of_noNumber hall noNumber_nil]
    exact Reads.number (List.cons_ne_nil _ _) hall noNumber_nil
  | cons d after =>
    cases hunit : TimeUnit.ofChar? d.char with
    | some unit =>
      rw [out_readNumber_of_unit hall hunit]
      exact Reads.numberOfUnit (List.cons_ne_nil _ _) hall hunit
    | none =>
      have hrest : NoNumber (d :: after) := noNumber_cons.mpr ⟨hstop d rfl, hunit⟩
      rw [out_readNumber_of_noNumber hall hrest]
      exact Reads.number (List.cons_ne_nil _ _) hall hrest

/-! ### The readers and the readings -/

/-- What the readers do is a reading, and a sum or product is read until its operators end. The readers of the operators
that go on with a sum or product extend what was read so far. -/
theorem reads_readers :
    (∀ cs, Reads .sum cs (readSum cs).out.1 (readSum cs).out.2 ∧ NoOperator Operator.additive? (readSum cs).out.2) ∧
    (∀ sum cs, ∀ whole, Reads .sum whole sum cs →
      Reads .sum whole (readTerms sum cs).out.1 (readTerms sum cs).out.2 ∧
        NoOperator Operator.additive? (readTerms sum cs).out.2) ∧
    (∀ cs, Reads .product cs (readProduct cs).out.1 (readProduct cs).out.2 ∧
      NoOperator Operator.multiplicative? (readProduct cs).out.2) ∧
    (∀ product cs, ∀ whole, Reads .product whole product cs →
      Reads .product whole (readFactors product cs).out.1 (readFactors product cs).out.2 ∧
        NoOperator Operator.multiplicative? (readFactors product cs).out.2) ∧
    (∀ cs, Reads .factor cs (readFactor cs).out.1 (readFactor cs).out.2) := by
  apply readSum.mutual_induct
  case case1 =>
    intro cs first ihProduct ihTerms
    rw [out_readSum]
    exact ihTerms cs (Reads.product ihProduct.1 ihProduct.2)
  case case2 =>
    intro sum whole h
    rw [out_readTerms_of_noOperator sum (noOperator_nil _)]
    exact ⟨h, noOperator_nil _⟩
  case case3 =>
    intro sum c rest hop whole h
    have hno : NoOperator Operator.additive? (c :: rest) := noOperator_cons.mpr hop
    rw [out_readTerms_of_noOperator sum hno]
    exact ⟨h, hno⟩
  case case4 =>
    intro sum c rest op hop next _ ihProduct ihTerms whole h
    rw [out_readTerms_of_operator sum rest hop]
    exact ihTerms whole (Reads.add h hop ihProduct.1 ihProduct.2)
  case case5 =>
    intro cs first ihFactor ihFactors
    rw [out_readProduct]
    exact ihFactors cs (Reads.factor ihFactor)
  case case6 =>
    intro product whole h
    rw [out_readFactors_of_noOperator product (noOperator_nil _)]
    exact ⟨h, noOperator_nil _⟩
  case case7 =>
    intro product c rest hop whole h
    have hno : NoOperator Operator.multiplicative? (c :: rest) := noOperator_cons.mpr hop
    rw [out_readFactors_of_noOperator product hno]
    exact ⟨h, hno⟩
  case case8 =>
    intro product c rest op hop next _ ihFactor ihFactors whole h
    rw [out_readFactors_of_operator product rest hop]
    exact ihFactors whole (Reads.multiply h hop ihFactor)
  case case9 =>
    rw [out_readFactor_nil]
    exact Reads.ended
  case case10 =>
    intro c rest hopen inner _ hrest ih
    have hno : ∀ d ∈ (readSum rest).rest.head?, d.char ≠ ')' := by
      intro d hd
      rw [hrest] at hd
      cases hd
    rw [out_readFactor_of_unclosed hopen hno]
    exact Reads.unclosed hopen ih.1 ih.2 hno
  case case11 =>
    intro c rest hopen inner _ d after hrest hclose ih
    have hread : Reads .sum rest (readSum rest).tree (readSum rest).rest := ih.1
    rw [hrest] at hread
    rw [out_readFactor_of_closing hopen hrest hclose]
    exact Reads.parens hopen hread hclose
  case case12 =>
    intro c rest hopen inner _ d after hrest hclose ih
    have hno : ∀ d' ∈ (readSum rest).rest.head?, d'.char ≠ ')' := by
      intro d' hd'
      rw [hrest, List.head?_cons, Option.mem_some_iff] at hd'
      subst hd'
      exact hclose
    rw [out_readFactor_of_unclosed hopen hno]
    exact Reads.unclosed hopen ih.1 ih.2 hno
  case case13 =>
    intro c rest _ hdigit
    rw [out_readFactor_of_isDigit rest hdigit]
    exact reads_readNumber rest hdigit
  case case14 =>
    intro c rest hopen hdigit
    have hdigit' : c.char.isDigit = false := by simpa using hdigit
    rw [out_readFactor_of_unexpected rest hopen hdigit']
    exact Reads.unexpected hopen hdigit'

/-- Reading a sum is a reading, until its operators end. -/
theorem reads_readSum (cs : List Placed) :
    Reads .sum cs (readSum cs).tree (readSum cs).rest ∧ NoOperator Operator.additive? (readSum cs).rest :=
  reads_readers.1 cs

/-- The result of the readers on an input of which a part has been read: a factor is the result, and a sum or product goes
on from what was read. -/
def ResultAfter (cs : List Placed) (t : Tree) (rest : List Placed) : Phrase → Prop
  | .factor => (readFactor cs).out = (t, rest)
  | .product => (readProduct cs).out = (readFactors t rest).out
  | .sum => (readSum cs).out = (readTerms t rest).out

/-- Every reading is a step on the way to the result of the readers. -/
theorem Reads.resultAfter {p : Phrase} {cs rest : List Placed} {t : Tree} (h : Reads p cs t rest) :
    ResultAfter cs t rest p := by
  induction h with
  | @number digits rest hne hdigits hrest =>
    obtain ⟨c, digits, rfl⟩ := List.exists_cons_of_ne_nil hne
    show (readFactor (c :: (digits ++ rest))).out = _
    rw [out_readFactor_of_isDigit _ (hdigits c List.mem_cons_self)]
    exact out_readNumber_of_noNumber hdigits hrest
  | @numberOfUnit digits rest letter unit hne hdigits hunit =>
    obtain ⟨c, digits, rfl⟩ := List.exists_cons_of_ne_nil hne
    show (readFactor (c :: (digits ++ letter :: rest))).out = _
    rw [out_readFactor_of_isDigit _ (hdigits c List.mem_cons_self)]
    exact out_readNumber_of_unit hdigits hunit
  | @parens opening closing cs rest t hopen _ hclose ih =>
    have hno : NoOperator Operator.additive? (closing :: rest) := by
      rw [noOperator_cons, hclose]
      rfl
    have hsum : (readSum cs).out = (t, closing :: rest) := ih.trans (out_readTerms_of_noOperator t hno)
    obtain ⟨htree, hrest⟩ := Prod.mk.inj hsum
    show (readFactor (opening :: cs)).out = _
    rw [out_readFactor_of_closing hopen hrest hclose, htree]
  | @unclosed opening cs rest t hopen _ hno hclose ih =>
    have hsum : (readSum cs).out = (t, rest) := ih.trans (out_readTerms_of_noOperator t hno)
    obtain ⟨htree, hrest⟩ := Prod.mk.inj hsum
    rw [← hrest] at hclose
    show (readFactor (opening :: cs)).out = _
    rw [out_readFactor_of_unclosed hopen hclose, htree]
  | ended => exact out_readFactor_nil
  | unexpected hopen hdigit => exact out_readFactor_of_unexpected _ hopen hdigit
  | @factor cs rest t _ ih =>
    obtain ⟨htree, hrest⟩ := Prod.mk.inj ih
    show (readProduct cs).out = _
    rw [out_readProduct, htree, hrest]
  | @multiply cs ds rest l r c op _ hop _ ihl ihr =>
    obtain ⟨htree, hrest⟩ := Prod.mk.inj ihr
    show (readProduct cs).out = _
    rw [ihl, out_readFactors_of_operator l ds hop, htree, hrest]
  | @product cs rest t _ hno ih =>
    have hproduct : (readProduct cs).out = (t, rest) := ih.trans (out_readFactors_of_noOperator t hno)
    obtain ⟨htree, hrest⟩ := Prod.mk.inj hproduct
    show (readSum cs).out = _
    rw [out_readSum, htree, hrest]
  | @add cs ds rest l r c op _ hop _ hno ihl ihr =>
    have hproduct : (readProduct ds).out = (r, rest) := ihr.trans (out_readFactors_of_noOperator r hno)
    obtain ⟨htree, hrest⟩ := Prod.mk.inj hproduct
    show (readSum cs).out = _
    rw [ihl, out_readTerms_of_operator l ds hop, htree, hrest]

/-- What the reader of a phrase makes of an input. -/
def readPhrase : Phrase → List Placed → Tree × List Placed
  | .sum, cs => (readSum cs).out
  | .product, cs => (readProduct cs).out
  | .factor, cs => (readFactor cs).out

/-- An input that does not go on with a phrase of a level: it begins with no operator of that level. -/
def Closed : Phrase → List Placed → Prop
  | .sum, rest => NoOperator Operator.additive? rest
  | .product, rest => NoOperator Operator.multiplicative? rest
  | .factor, _ => True

/-- At the end of the input no phrase goes on. -/
theorem closed_nil (p : Phrase) : Closed p [] := by
  cases p with
  | sum => exact noOperator_nil _
  | product => exact noOperator_nil _
  | factor => trivial

/-- Whether a phrase goes on depends on the first character alone. -/
theorem Closed.of_sameHead {p : Phrase} {cs ds : List Placed} (h : Closed p cs) (hhead : SameHead cs ds) : Closed p ds := by
  cases p with
  | sum => exact NoOperator.of_sameHead h hhead
  | product => exact NoOperator.of_sameHead h hhead
  | factor => trivial

/-- Reading a phrase is a reading, until it does not go on. -/
theorem reads_readPhrase (p : Phrase) (cs : List Placed) :
    Reads p cs (readPhrase p cs).1 (readPhrase p cs).2 ∧ Closed p (readPhrase p cs).2 := by
  obtain ⟨hsum, -, hproduct, -, hfactor⟩ := reads_readers
  cases p with
  | sum => exact hsum cs
  | product => exact hproduct cs
  | factor => exact ⟨hfactor cs, trivial⟩

/-- A reading up to a place where the phrase does not go on is the result of its reader. -/
theorem Reads.readPhrase_eq {p : Phrase} {cs rest : List Placed} {t : Tree} (h : Reads p cs t rest) (hclosed : Closed p rest) :
    readPhrase p cs = (t, rest) := by
  have hresult := h.resultAfter
  cases p with
  | sum => exact hresult.trans (out_readTerms_of_noOperator t hclosed)
  | product => exact hresult.trans (out_readFactors_of_noOperator t hclosed)
  | factor => exact hresult

/-- A reading of a sum up to a place where its operators end is the result of the reader. -/
theorem Reads.out_readSum_eq {cs rest : List Placed} {t : Tree} (h : Reads .sum cs t rest)
    (hno : NoOperator Operator.additive? rest) : (readSum cs).out = (t, rest) :=
  h.readPhrase_eq hno

/-! ### Texts -/

/-- The characters of a text that are not blank. -/
def inkedChars (text : String) : List Char :=
  text.toList.filter fun c => !Text.isBlank c

/-- Giving places to the characters of a text changes none of those that are not blank. -/
theorem map_char_inked (text : String) : (inked text).map Placed.char = inkedChars text := by
  unfold inked inkedChars
  have hcomp : (fun c : Placed => !Text.isBlank c.char) = (fun c => !Text.isBlank c) ∘ Placed.char := rfl
  rw [hcomp, ← List.filter_map, Text.placed, Text.map_char_placedFrom]

/-- The calculation that a text writes is complete exactly if the characters of the text that are not blank derive from the
grammar, and then it is the tree that they derive to. -/
theorem derives_inkedChars_iff (text : String) (t : Tree) :
    Derives .sum (inkedChars text) t ↔ readTree text = t ∧ t.IsComplete := by
  constructor
  · intro h
    have hread := h.reads (map_char_inked text) (ends_nil _)
    rw [List.append_nil] at hread
    have hout := hread.out_readSum_eq (noOperator_nil _)
    obtain ⟨htree, hrest⟩ := Prod.mk.inj hout
    refine ⟨?_, h.isComplete⟩
    unfold readTree
    simp only [hrest, htree]
  · intro h
    obtain ⟨htree, hcomplete⟩ := h
    have hread := (reads_readSum (inked text)).1
    unfold readTree at htree
    simp only at htree
    split at htree
    · next hrest =>
      rw [htree, hrest] at hread
      obtain ⟨ds, hds, hderives⟩ := hread.derives hcomplete
      rw [List.append_nil] at hds
      rw [← map_char_inked, hds]
      exact hderives
    · rw [← htree] at hcomplete
      exact hcomplete.elim

/-- A text has a cycle length exactly if its characters that are not blank derive to a calculation of which no part fails
and whose exact value is that length. -/
theorem read_eq_ok_iff (text : String) (n : UInt64) :
    read text = .ok n ↔ ∃ t, Derives .sum (inkedChars text) t ∧ t.firstFailure? = none ∧ t.exact = n.toNat := by
  unfold read
  rw [Tree.length_eq_ok_iff]
  constructor
  · intro h
    exact ⟨readTree text, (derives_inkedChars_iff _ _).mpr ⟨rfl, Tree.isComplete_of_firstFailure? h.1⟩, h⟩
  · intro h
    obtain ⟨t, ht, hvalue⟩ := h
    rw [((derives_inkedChars_iff _ _).mp ht).1]
    exact hvalue

end Recurrence.CycleLength
