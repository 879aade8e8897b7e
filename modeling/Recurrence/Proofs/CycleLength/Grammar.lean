import Recurrence.CycleLength.Reader

/-!
# Cycle lengths: the grammar

`Derives` is the grammar of calculations over plain characters, with the tree that a phrase stands for: sums of products of
factors, where operators of one level group to the left. `Reads` says what reading does with an input, phrase by phrase,
also where it stops. A reading that stops nowhere has consumed a phrase of the grammar (`Reads.derives`), and a phrase before
something that cannot go on with it is read as a whole (`Derives.reads`).
-/

namespace Recurrence.CycleLength

open Text (Placed)

/-- The levels of the grammar. -/
inductive Phrase where
  | sum
  | product
  | factor
  deriving DecidableEq, Repr

/-- The phrases of the grammar and their trees. -/
inductive Derives : Phrase → List Char → Tree → Prop where
  /-- A number is a factor. -/
  | number {digits : List Char} : digits ≠ [] → (∀ c ∈ digits, c.isDigit = true) →
      Derives .factor digits (.number (Nat.ofDigitChars 10 digits 0) .second)
  /-- A number with a unit is a factor. -/
  | numberOfUnit {digits : List Char} {letter : Char} {unit : TimeUnit} : digits ≠ [] →
      (∀ c ∈ digits, c.isDigit = true) → TimeUnit.ofChar? letter = some unit →
      Derives .factor (digits ++ [letter]) (.number (Nat.ofDigitChars 10 digits 0) unit)
  /-- A sum in parentheses is a factor. -/
  | parens {cs : List Char} {t : Tree} : Derives .sum cs t → Derives .factor ('(' :: cs ++ [')']) t
  /-- A factor is a product. -/
  | factor {cs : List Char} {t : Tree} : Derives .factor cs t → Derives .product cs t
  /-- A product goes on with an operator and a factor. -/
  | multiply {cs ds : List Char} {l r : Tree} {c : Char} {op : Operator} : Derives .product cs l →
      Operator.multiplicative? c = some op → Derives .factor ds r → Derives .product (cs ++ c :: ds) (.operation op l r)
  /-- A product is a sum. -/
  | product {cs : List Char} {t : Tree} : Derives .product cs t → Derives .sum cs t
  /-- A sum goes on with an operator and a product. -/
  | add {cs ds : List Char} {l r : Tree} {c : Char} {op : Operator} : Derives .sum cs l →
      Operator.additive? c = some op → Derives .product ds r → Derives .sum (cs ++ c :: ds) (.operation op l r)

/-- An input does not begin with an operator of a level. -/
def NoOperator (operator? : Char → Option Operator) (cs : List Placed) : Prop :=
  ∀ c ∈ cs.head?, operator? c.char = none

/-- An input does not go on with a number: it begins neither with a digit nor with a unit. -/
def NoNumber (cs : List Placed) : Prop :=
  ∀ c ∈ cs.head?, c.char.isDigit = false ∧ TimeUnit.ofChar? c.char = none

/-- The end of the input is no operator. -/
theorem noOperator_nil (operator? : Char → Option Operator) : NoOperator operator? [] := by
  intro c hc
  cases hc

/-- An input does not begin with an operator exactly if its first character is none. -/
theorem noOperator_cons {operator? : Char → Option Operator} {c : Placed} {cs : List Placed} :
    NoOperator operator? (c :: cs) ↔ operator? c.char = none := by
  simp [NoOperator]

/-- The end of the input does not go on with a number. -/
theorem noNumber_nil : NoNumber [] := by
  intro c hc
  cases hc

/-- An input does not go on with a number exactly if its first character is neither a digit nor a unit. -/
theorem noNumber_cons {c : Placed} {cs : List Placed} :
    NoNumber (c :: cs) ↔ c.char.isDigit = false ∧ TimeUnit.ofChar? c.char = none := by
  simp [NoNumber]

/-- What reading makes of an input: the phrase at its start as a tree, and what is left. A sum or product that was read so
far may still go on. Where reading is stopped, nothing is left. -/
inductive Reads : Phrase → List Placed → Tree → List Placed → Prop where
  | number {digits rest : List Placed} : digits ≠ [] → (∀ c ∈ digits, c.char.isDigit = true) → NoNumber rest →
      Reads .factor (digits ++ rest) (.number (Nat.ofDigitChars 10 (digits.map Placed.char) 0) .second) rest
  | numberOfUnit {digits rest : List Placed} {letter : Placed} {unit : TimeUnit} : digits ≠ [] →
      (∀ c ∈ digits, c.char.isDigit = true) → TimeUnit.ofChar? letter.char = some unit →
      Reads .factor (digits ++ letter :: rest) (.number (Nat.ofDigitChars 10 (digits.map Placed.char) 0) unit) rest
  | parens {opening closing : Placed} {cs rest : List Placed} {t : Tree} : opening.char = '(' →
      Reads .sum cs t (closing :: rest) → closing.char = ')' → Reads .factor (opening :: cs) t rest
  | unclosed {opening : Placed} {cs rest : List Placed} {t : Tree} : opening.char = '(' → Reads .sum cs t rest →
      NoOperator Operator.additive? rest → (∀ c ∈ rest.head?, c.char ≠ ')') →
      Reads .factor (opening :: cs) (.stopped t (.unbalanced opening.offset)) []
  | ended : Reads .factor [] (.missing .unexpectedEnd) []
  | unexpected {c : Placed} {cs : List Placed} : c.char ≠ '(' → c.char.isDigit = false →
      Reads .factor (c :: cs) (.missing (.unexpectedChar c.offset c.char)) []
  | factor {cs rest : List Placed} {t : Tree} : Reads .factor cs t rest → Reads .product cs t rest
  | multiply {cs ds rest : List Placed} {l r : Tree} {c : Placed} {op : Operator} : Reads .product cs l (c :: ds) →
      Operator.multiplicative? c.char = some op → Reads .factor ds r rest → Reads .product cs (.operation op l r) rest
  | product {cs rest : List Placed} {t : Tree} : Reads .product cs t rest → NoOperator Operator.multiplicative? rest →
      Reads .sum cs t rest
  | add {cs ds rest : List Placed} {l r : Tree} {c : Placed} {op : Operator} : Reads .sum cs l (c :: ds) →
      Operator.additive? c.char = some op → Reads .product ds r rest → NoOperator Operator.multiplicative? rest →
      Reads .sum cs (.operation op l r) rest

/-! ### Characters -/

/-- The operators of sums are not digits, units, or operators of products. -/
theorem Operator.of_additive? {c : Char} {op : Operator} (h : additive? c = some op) :
    c.isDigit = false ∧ TimeUnit.ofChar? c = none ∧ multiplicative? c = none := by
  unfold additive? at h
  split at h
  · decide
  · decide
  · cases h

/-- The operators of products are not digits, units, or operators of sums. -/
theorem Operator.of_multiplicative? {c : Char} {op : Operator} (h : multiplicative? c = some op) :
    c.isDigit = false ∧ TimeUnit.ofChar? c = none ∧ additive? c = none := by
  unfold multiplicative? at h
  split at h
  · decide
  · decide
  · cases h

/-- The units are not digits. -/
theorem TimeUnit.isDigit_of_ofChar? {c : Char} {unit : TimeUnit} (h : ofChar? c = some unit) : c.isDigit = false := by
  unfold ofChar? at h
  split at h
  · decide
  · decide
  · decide
  · decide
  · decide
  · cases h

/-! ### What is read is derived -/

/-- The tree of a phrase is complete. -/
theorem Derives.isComplete {p : Phrase} {cs : List Char} {t : Tree} (h : Derives p cs t) : t.IsComplete := by
  induction h with
  | number => trivial
  | numberOfUnit => trivial
  | parens _ ih => exact ih
  | factor _ ih => exact ih
  | multiply _ _ _ ihl ihr => exact ⟨ihl, ihr⟩
  | product _ ih => exact ih
  | add _ _ _ ihl ihr => exact ⟨ihl, ihr⟩

/-- Two inputs begin with the same character, or both are at their end. -/
def SameHead (cs ds : List Placed) : Prop :=
  cs.head?.map Placed.char = ds.head?.map Placed.char

/-- Inputs with the same head are both empty, or begin with the same character. -/
theorem SameHead.cases {cs ds : List Placed} (h : SameHead cs ds) :
    (cs = [] ∧ ds = []) ∨ ∃ c cs' d ds', cs = c :: cs' ∧ ds = d :: ds' ∧ d.char = c.char := by
  unfold SameHead at h
  cases cs with
  | nil =>
    cases ds with
    | nil => exact Or.inl ⟨rfl, rfl⟩
    | cons d ds => simp at h
  | cons c cs =>
    cases ds with
    | nil => simp at h
    | cons d ds => exact Or.inr ⟨c, cs, d, ds, rfl, rfl, by simpa using h.symm⟩

/-- An operator stands at the start of both inputs with the same head, or of none. -/
theorem NoOperator.of_sameHead {operator? : Char → Option Operator} {cs ds : List Placed} (h : NoOperator operator? cs)
    (hhead : SameHead cs ds) : NoOperator operator? ds := by
  rcases hhead.cases with ⟨-, rfl⟩ | ⟨c, cs, d, ds, rfl, rfl, hchar⟩
  · exact noOperator_nil _
  · rwa [noOperator_cons, hchar, ← noOperator_cons]

/-- A number goes on at the start of both inputs with the same head, or of none. -/
theorem NoNumber.of_sameHead {cs ds : List Placed} (h : NoNumber cs) (hhead : SameHead cs ds) : NoNumber ds := by
  rcases hhead.cases with ⟨-, rfl⟩ | ⟨c, cs, d, ds, rfl, rfl, hchar⟩
  · exact noNumber_nil
  · rwa [noNumber_cons, hchar, ← noNumber_cons]

/-- A reading that stops nowhere has consumed a phrase of the grammar, and its tree is the tree of that phrase. Of what is left
only the first character matters: the same phrase is read before every input with the same head. -/
theorem Reads.derives_local {p : Phrase} {cs rest : List Placed} {t : Tree} (h : Reads p cs t rest) (hc : t.IsComplete) :
    ∃ ds, cs = ds ++ rest ∧ Derives p (ds.map Placed.char) t ∧
      ∀ rest', SameHead rest rest' → Reads p (ds ++ rest') t rest' := by
  induction h with
  | number hne hdigits hrest =>
    refine ⟨_, rfl, Derives.number (by simpa using hne) ?_, fun rest' hhead => ?_⟩
    · intro c hcm
      obtain ⟨d, hd, rfl⟩ := List.mem_map.mp hcm
      exact hdigits d hd
    · exact Reads.number hne hdigits (hrest.of_sameHead hhead)
  | @numberOfUnit digits rest letter unit hne hdigits hunit =>
    refine ⟨digits ++ [letter], by simp, ?_, fun rest' _ => ?_⟩
    · rw [List.map_append]
      refine Derives.numberOfUnit (by simpa using hne) ?_ hunit
      intro c hcm
      obtain ⟨d, hd, rfl⟩ := List.mem_map.mp hcm
      exact hdigits d hd
    · rw [List.append_assoc, List.singleton_append]
      exact Reads.numberOfUnit hne hdigits hunit
  | @parens opening closing cs rest t hopen _ hclose ih =>
    obtain ⟨ds, rfl, hds, hlocal⟩ := ih hc
    refine ⟨opening :: ds ++ [closing], by simp, ?_, fun rest' _ => ?_⟩
    · have hmap : (opening :: ds ++ [closing]).map Placed.char = '(' :: ds.map Placed.char ++ [')'] := by
        simp [hopen, hclose]
      rw [hmap]
      exact Derives.parens hds
    · rw [List.append_assoc, List.cons_append, List.singleton_append]
      exact Reads.parens hopen (hlocal (closing :: rest') rfl) hclose
  | unclosed => exact hc.elim
  | ended => exact hc.elim
  | unexpected => exact hc.elim
  | factor _ ih =>
    obtain ⟨ds, hcs, hds, hlocal⟩ := ih hc
    exact ⟨ds, hcs, Derives.factor hds, fun rest' hhead => Reads.factor (hlocal rest' hhead)⟩
  | @multiply cs ds rest l r c op _ hop _ ihl ihr =>
    obtain ⟨as, hcs, has, hlocal⟩ := ihl hc.1
    obtain ⟨bs, rfl, hbs, hlocal'⟩ := ihr hc.2
    refine ⟨as ++ c :: bs, by rw [hcs, List.append_assoc, List.cons_append], ?_, fun rest' hhead => ?_⟩
    · rw [List.map_append, List.map_cons]
      exact Derives.multiply has hop hbs
    · rw [List.append_assoc, List.cons_append]
      exact Reads.multiply (hlocal (c :: (bs ++ rest')) rfl) hop (hlocal' rest' hhead)
  | product _ hno ih =>
    obtain ⟨ds, hcs, hds, hlocal⟩ := ih hc
    exact ⟨ds, hcs, Derives.product hds, fun rest' hhead => Reads.product (hlocal rest' hhead) (hno.of_sameHead hhead)⟩
  | @add cs ds rest l r c op _ hop _ hno ihl ihr =>
    obtain ⟨as, hcs, has, hlocal⟩ := ihl hc.1
    obtain ⟨bs, rfl, hbs, hlocal'⟩ := ihr hc.2
    refine ⟨as ++ c :: bs, by rw [hcs, List.append_assoc, List.cons_append], ?_, fun rest' hhead => ?_⟩
    · rw [List.map_append, List.map_cons]
      exact Derives.add has hop hbs
    · rw [List.append_assoc, List.cons_append]
      exact Reads.add (hlocal (c :: (bs ++ rest')) rfl) hop (hlocal' rest' hhead) (hno.of_sameHead hhead)

/-- A reading that stops nowhere has consumed a phrase of the grammar, and its tree is the tree of that phrase. -/
theorem Reads.derives {p : Phrase} {cs rest : List Placed} {t : Tree} (h : Reads p cs t rest) (hc : t.IsComplete) :
    ∃ ds, cs = ds ++ rest ∧ Derives p (ds.map Placed.char) t := by
  obtain ⟨ds, hcs, hds, -⟩ := h.derives_local hc
  exact ⟨ds, hcs, hds⟩

/-- A reading that leaves something has stopped nowhere. -/
theorem Reads.isComplete {p : Phrase} {cs rest : List Placed} {t : Tree} (h : Reads p cs t rest) (hrest : rest ≠ []) :
    t.IsComplete := by
  induction h with
  | number => trivial
  | numberOfUnit => trivial
  | parens _ _ _ ih => exact ih (List.cons_ne_nil _ _)
  | unclosed => exact absurd rfl hrest
  | ended => exact absurd rfl hrest
  | unexpected => exact absurd rfl hrest
  | factor _ ih => exact ih hrest
  | multiply _ _ _ ihl ihr => exact ⟨ihl (List.cons_ne_nil _ _), ihr hrest⟩
  | product _ _ ih => exact ih hrest
  | add _ _ _ _ ihl ihr => exact ⟨ihl (List.cons_ne_nil _ _), ihr hrest⟩

/-- What a reading leaves is the end of the input. -/
theorem Reads.suffix {p : Phrase} {cs rest : List Placed} {t : Tree} (h : Reads p cs t rest) : rest <:+ cs := by
  induction h with
  | number => exact List.suffix_append _ _
  | numberOfUnit => exact (List.suffix_cons _ _).trans (List.suffix_append _ _)
  | parens _ _ _ ih => exact ((List.suffix_cons _ _).trans ih).trans (List.suffix_cons _ _)
  | unclosed => exact List.nil_suffix
  | ended => exact List.suffix_refl _
  | unexpected => exact List.nil_suffix
  | factor _ ih => exact ih
  | multiply _ _ _ ihl ihr => exact (ihr.trans (List.suffix_cons _ _)).trans ihl
  | product _ _ ih => exact ih
  | add _ _ _ _ ihl ihr => exact (ihr.trans (List.suffix_cons _ _)).trans ihl

/-! ### What is derived is read -/

/-- An input that cannot go on with a phrase: not with its last number, and at the level of sums not with its last product. -/
def Ends (p : Phrase) (rest : List Placed) : Prop :=
  NoNumber rest ∧ (p = .sum → NoOperator Operator.multiplicative? rest)

/-- An operator of sums ends every phrase before it. -/
theorem ends_of_additive? {p : Phrase} {c : Placed} {rest : List Placed} {op : Operator}
    (h : Operator.additive? c.char = some op) : Ends p (c :: rest) := by
  obtain ⟨hdigit, hunit, hmul⟩ := Operator.of_additive? h
  exact ⟨noNumber_cons.mpr ⟨hdigit, hunit⟩, fun _ => noOperator_cons.mpr hmul⟩

/-- An operator of products ends a product before it. -/
theorem ends_of_multiplicative? {c : Placed} {rest : List Placed} {op : Operator}
    (h : Operator.multiplicative? c.char = some op) : Ends .product (c :: rest) := by
  obtain ⟨hdigit, hunit, -⟩ := Operator.of_multiplicative? h
  exact ⟨noNumber_cons.mpr ⟨hdigit, hunit⟩, fun hp => nomatch hp⟩

/-- A closing parenthesis ends every phrase before it. -/
theorem ends_of_closing {p : Phrase} {c : Placed} {rest : List Placed} (h : c.char = ')') : Ends p (c :: rest) := by
  refine ⟨noNumber_cons.mpr ?_, fun _ => noOperator_cons.mpr ?_⟩
  · rw [h]
    decide
  · rw [h]
    rfl

/-- The end of the input ends every phrase before it. -/
theorem ends_nil (p : Phrase) : Ends p [] :=
  ⟨noNumber_nil, fun _ => noOperator_nil _⟩

/-- A phrase is read as a whole before an input that cannot go on with it. The induction is on the derivation: a sum or
product that an operator follows is read up to the operator, because the operator ends what stands before it. -/
theorem Derives.reads {p : Phrase} {chars : List Char} {t : Tree} (h : Derives p chars t) {cs rest : List Placed}
    (hcs : cs.map Placed.char = chars) (hrest : Ends p rest) : Reads p (cs ++ rest) t rest := by
  induction h generalizing cs rest with
  | number hne hdigits =>
    subst hcs
    refine Reads.number (by simpa using hne) ?_ hrest.1
    intro c hc
    exact hdigits c.char (List.mem_map_of_mem hc)
  | numberOfUnit hne hdigits hunit =>
    obtain ⟨digits, letters, rfl, rfl, hletter⟩ := List.map_eq_append_iff.mp hcs
    obtain ⟨letter, rfl, rfl⟩ := List.map_eq_singleton_iff.mp hletter
    rw [List.append_assoc, List.singleton_append]
    refine Reads.numberOfUnit (by simpa using hne) ?_ hunit
    intro c hc
    exact hdigits c.char (List.mem_map_of_mem hc)
  | parens _ ih =>
    obtain ⟨front, back, rfl, hfront, hback⟩ := List.map_eq_append_iff.mp hcs
    obtain ⟨opening, inner, rfl, hopen, hinner⟩ := List.map_eq_cons_iff.mp hfront
    obtain ⟨closing, rfl, hclose⟩ := List.map_eq_singleton_iff.mp hback
    have hread : Reads .sum (inner ++ closing :: rest) _ (closing :: rest) := ih hinner (ends_of_closing hclose)
    have hsplit : opening :: inner ++ [closing] ++ rest = opening :: (inner ++ closing :: rest) := by simp
    rw [hsplit]
    exact Reads.parens hopen hread hclose
  | factor _ ih => exact Reads.factor (ih hcs ⟨hrest.1, fun hp => nomatch hp⟩)
  | multiply _ hop _ ihl ihr =>
    obtain ⟨front, back, rfl, hfront, hback⟩ := List.map_eq_append_iff.mp hcs
    obtain ⟨c, ds, rfl, rfl, hds⟩ := List.map_eq_cons_iff.mp hback
    rw [List.append_assoc, List.cons_append]
    exact Reads.multiply (ihl hfront (ends_of_multiplicative? hop)) hop (ihr hds ⟨hrest.1, fun hp => nomatch hp⟩)
  | product _ ih => exact Reads.product (ih hcs ⟨hrest.1, fun hp => nomatch hp⟩) (hrest.2 rfl)
  | add _ hop _ ihl ihr =>
    obtain ⟨front, back, rfl, hfront, hback⟩ := List.map_eq_append_iff.mp hcs
    obtain ⟨c, ds, rfl, rfl, hds⟩ := List.map_eq_cons_iff.mp hback
    rw [List.append_assoc, List.cons_append]
    exact Reads.add (ihl hfront (ends_of_additive? hop)) hop (ihr hds ⟨hrest.1, fun hp => nomatch hp⟩) (hrest.2 rfl)

end Recurrence.CycleLength
