import Recurrence.Proofs.CycleLength.Reading

/-!
# Cycle lengths: reading with a cursor

A cycle length can be read with a cursor that moves along the input, in one pass that works out values as it goes. The calls for
sums, products and factors then go round in a circle, and nothing but the cursor tells whether they come to an end. Here a call
has a budget for the calls nested in it and for the rounds of a loop, and gives nothing when the budget is used up
(`Cursor.call`). Three units for each character that is left are enough, and then a call comes to what the reader of
its phrase comes to (`Cursor.call_eq`).
-/

namespace Recurrence.CycleLength

open Text (Placed)

/-- A step of reading with a cursor. From the place of the cursor it comes to a value and a place that the cursor was moved to, or
to an error, or to nothing when its budget is used up. -/
abbrev Cursor :=
  StateT Nat (ExceptT Error Option)

/-- The levels of the grammar, from the bottom. -/
def Phrase.level : Phrase → Nat
  | .sum => 2
  | .product => 1
  | .factor => 0

namespace Cursor

/-! ### Steps -/

/-- The step whose budget is used up. -/
def exhausted {α : Type} : Cursor α :=
  fun _ => none

/-- The step that works out a value and leaves the cursor where it is. -/
def evaluated {α : Type} (e : Except Error α) : Cursor α :=
  fun place => some (e.map fun a => (a, place))

/-- The character at the cursor, if the input has not ended there. -/
def peek (chars : List Placed) : Cursor (Option Placed) :=
  fun place => some (.ok (chars[place]?, place))

/-- The cursor moves on, also when the input has ended. -/
def advance : Cursor Unit :=
  fun place => some (.ok ((), place + 1))

/-- The character at the cursor, which moves on. -/
def next (chars : List Placed) : Cursor (Option Placed) := do
  let c ← peek chars
  advance
  return c

/-! ### Calls -/

/-- The number that a digit stands for. -/
def digitValue (c : Char) : Nat :=
  c.toNat - '0'.toNat

/-- A number with another digit after it. -/
def appendDigit (value : Int) (c : Char) : Except Error Int := do
  let tens ← checked (value * 10)
  checked (tens + digitValue c)

/-- The digits that go on with a number. -/
def digits (chars : List Placed) : Nat → Int → Cursor Int
  | 0, _ => exhausted
  | budget + 1, value => do
    match ← peek chars with
    | none => return value
    | some c =>
      if c.char.isDigit then
        advance
        let value ← evaluated (appendDigit value c.char)
        digits chars budget value
      else return value

/-- A number in seconds, by the unit at the cursor if there is one. -/
def inSeconds (chars : List Placed) (value : Int) : Cursor Int := do
  match (← peek chars).bind fun c => TimeUnit.ofChar? c.char with
  | none => return value
  | some unit =>
    advance
    evaluated (checked (value * unit.seconds))

/-- The number that begins with a digit, and its unit. -/
def number (chars : List Placed) (budget : Nat) (first : Char) : Cursor Int := do
  let value ← digits chars budget (digitValue first)
  inSeconds chars value

/-- The operators of a level that go on with a value, each with a call for what stands after it. -/
def operations (chars : List Placed) (operator? : Char → Option Operator) (operand : Cursor Int) : Nat → Int → Cursor Int
  | 0, _ => exhausted
  | budget + 1, value => do
    match ← peek chars with
    | none => return value
    | some c =>
      match operator? c.char with
      | none => return value
      | some op =>
        advance
        let right ← operand
        let value ← evaluated (op.apply value right)
        operations chars operator? operand budget value

/-- The closing parenthesis that the cursor must be at after the value in a pair of parentheses. -/
def closed (chars : List Placed) (opening : Placed) (value : Int) : Cursor Int := do
  if (← next chars).map Placed.char = some ')' then return value
  else throw (.unreadable (.unbalanced opening.offset))

/-- The call for a phrase at the cursor. The budget limits how deeply calls are nested and how often a loop goes round. -/
def call (chars : List Placed) : Nat → Phrase → Cursor Int
  | 0, _ => exhausted
  | budget + 1, .sum => do
    let value ← call chars budget .product
    operations chars Operator.additive? (call chars budget .product) budget value
  | budget + 1, .product => do
    let value ← call chars budget .factor
    operations chars Operator.multiplicative? (call chars budget .factor) budget value
  | budget + 1, .factor => do
    match ← next chars with
    | none => throw (.unreadable .unexpectedEnd)
    | some c =>
      if c.char = '(' then
        let value ← call chars budget .sum
        closed chars c value
      else if c.char.isDigit then number chars budget c.char
      else throw (.unreadable (.unexpectedChar c.offset c.char))

/-- The cycle length of an input whose value is worked out. What is left at the cursor is an error. -/
def finish (chars : List Placed) (value : Int) : Cursor UInt64 := do
  match ← peek chars with
  | some c => throw (.unreadable (if c.char = ')' then .unbalanced c.offset else .unexpectedChar c.offset c.char))
  | none => if value < 0 then throw (.negative value) else return UInt64.ofNat value.toNat

/-- The cycle length that a text writes, as it is read with a cursor, if the budget is enough. -/
def read? (budget : Nat) (text : String) : Option (Except Error UInt64) :=
  ((call (inked text) budget .sum >>= finish (inked text)).run' 0).run

/-! ### Steps one after the other -/

variable {chars : List Placed} {place n : Nat}

/-- What reading a phrase comes to: the value of its calculation with the place where the rest begins, or the failure of the
calculation. -/
def result (chars : List Placed) (out : Tree × List Placed) : Except Error (Int × Nat) :=
  out.1.eval.map fun value => (value, chars.length - out.2.length)

/-- After a step that comes to a value or an error, steps go on with the value, if it is one. -/
theorem bind_of_eq {α : Type} {x : Cursor Int} {f : Int → Cursor α} {e : Except Error Int} {after : Nat}
    (h : x place = some (e.map fun value => (value, after))) : (x >>= f) place = (evaluated e >>= f) after := by
  have hbind : (x >>= f) place = ExceptT.bind (x place) fun p => f p.1 p.2 := rfl
  rw [hbind, h]
  cases e <;> rfl

/-- After a value that is worked out, steps go on with it. -/
theorem evaluated_ok_bind {α β : Type} (a : α) (f : α → Cursor β) : (evaluated (.ok a) >>= f) place = f a place :=
  rfl

/-- A look at the cursor. -/
theorem peek_bind {α : Type} (f : Option Placed → Cursor α) : (peek chars >>= f) place = f chars[place]? place :=
  rfl

/-- A look at the cursor, which moves on. -/
theorem next_bind {α : Type} (f : Option Placed → Cursor α) : (next chars >>= f) place = f chars[place]? (place + 1) :=
  rfl

/-- The end of an input is found from what is left of it. -/
theorem drop_length_sub {cs : List Placed} (h : cs <:+ chars) : chars.drop (chars.length - cs.length) = cs :=
  (List.suffix_iff_eq_drop.mp h).symm

/-- The character at the cursor is the head of what is left. -/
theorem getElem?_of_drop {c : Placed} {rest : List Placed} (h : chars.drop place = c :: rest) : chars[place]? = some c := by
  rw [← List.head?_drop, h, List.head?_cons]

/-- After the head of what is left comes the tail. -/
theorem drop_succ_of_drop {c : Placed} {rest : List Placed} (h : chars.drop place = c :: rest) :
    chars.drop (place + 1) = rest := by
  rw [← List.tail_drop, h, List.tail_cons]

/-! ### Operations -/

variable {operator? : Char → Option Operator} {operand : Cursor Int}

/-- Where an input has no operator, a value does not go on. -/
theorem operations_of_noOperator {value : Int} (h : NoOperator operator? (chars.drop place)) :
    operations chars operator? operand (n + 1) value place = some (.ok (value, place)) := by
  rw [operations, peek_bind]
  rw [NoOperator, List.head?_drop] at h
  cases hc : chars[place]? with
  | none => rfl
  | some c =>
    have hop : operator? c.char = none := h c hc
    simp only [hop]
    rfl

/-- Where an input has an operator, a value goes on with the operand after it. -/
theorem operations_of_operator {value : Int} {c : Placed} {rest : List Placed} {op : Operator}
    (h : chars.drop place = c :: rest) (hop : operator? c.char = some op) :
    operations chars operator? operand (n + 1) value place =
      (operand >>= fun right => evaluated (op.apply value right) >>= operations chars operator? operand n) (place + 1) := by
  rw [operations, peek_bind, getElem?_of_drop h]
  simp only [hop]
  rfl

/-- A round of a loop: the operation on the calculation so far and the next reading is worked out, and the loop goes on from
where that reading ended. -/
theorem evaluated_bind_operations {tree : Tree} {c : Placed} {rest : List Placed} {op : Operator} {out : Tree × List Placed}
    (h : chars.drop place = c :: rest) (hop : operator? c.char = some op)
    (hnext : operand (place + 1) = some (result chars out)) :
    (evaluated tree.eval >>= operations chars operator? operand (n + 1)) place =
      (evaluated (Tree.operation op tree out.1).eval >>= operations chars operator? operand n)
        (chars.length - out.2.length) := by
  cases htree : tree.eval with
  | error e =>
    -- The loop has ended with the failure, and the operation fails by it whatever its right side is.
    have heval : (Tree.operation op tree out.1).eval = .error e := by
      rw [Tree.eval, htree]
      rfl
    rw [heval]
    rfl
  | ok value =>
    rw [evaluated_ok_bind, operations_of_operator h hop, bind_of_eq hnext, Tree.eval, htree]
    cases out.1.eval <;> rfl

/-- A loop ends where no operator follows. -/
theorem evaluated_bind_operations_of_noOperator {tree : Tree} {cs : List Placed} (hcs : cs <:+ chars)
    (h : NoOperator operator? cs) :
    (evaluated tree.eval >>= operations chars operator? operand (n + 1)) (chars.length - cs.length) =
      some (result chars (tree, cs)) := by
  rw [← drop_length_sub hcs] at h
  rw [result]
  cases tree.eval with
  | error e => rfl
  | ok value => exact operations_of_noOperator h

/-! ### Numbers -/

/-- A number that is a word is given back. -/
theorem eq_of_checked {a value : Int} (h : checked a = .ok value) : value = a := by
  rw [checked_eq] at h
  split at h
  · cases h
    rfl
  · cases h

/-- Numbers that are not words have no word above them. -/
theorem checked_of_le {a b : Nat} (hle : a ≤ b) {e : Error} (h : checked a = .error e) : checked b = .error e := by
  rw [checked_eq] at h ⊢
  split at h
  · cases h
  · next hword =>
    rw [if_neg, h]
    simp only [IsWord] at hword ⊢
    omega

/-- A digit is appended to a number. -/
theorem appendDigit_eq (a : Nat) (c : Char) : appendDigit a c = checked (10 * a + digitValue c : Nat) := by
  have htens : (a : Int) * 10 = (10 * a : Nat) := by omega
  rw [appendDigit, htens]
  cases h : checked (10 * a : Nat) with
  | error e =>
    rw [checked_of_le (Nat.le_add_right _ _) h]
    rfl
  | ok tens =>
    rw [eq_of_checked h, Int.natCast_add]
    rfl

/-- The digits that go on with a number are read up to the first character that is none. -/
theorem evaluated_bind_digits {ds rest : List Placed} (hds : ∀ c ∈ ds, c.char.isDigit = true)
    (hrest : ∀ c ∈ rest.head?, c.char.isDigit = false) (a : Nat) (hplace : chars.drop place = ds ++ rest)
    (hn : ds.length < n) :
    (evaluated (checked a) >>= digits chars n) place =
      some ((checked (Nat.ofDigitChars 10 (ds.map Placed.char) a)).map fun value => (value, place + ds.length)) := by
  obtain ⟨n, rfl⟩ := Nat.exists_eq_add_one_of_ne_zero (Nat.ne_zero_of_lt hn)
  induction ds generalizing a place n with
  | nil =>
    show _ = some ((checked a).map _)
    cases checked a with
    | error e => rfl
    | ok value =>
      rw [evaluated_ok_bind, digits, peek_bind]
      rw [List.nil_append] at hplace
      rw [← hplace, List.head?_drop] at hrest
      cases hc : chars[place]? with
      | none => rfl
      | some c =>
        have hdigit := hrest c hc
        simp only [hdigit]
        rfl
  | cons d ds ih =>
    obtain ⟨hd, hds⟩ := List.forall_mem_cons.mp hds
    rw [List.length_cons] at hn
    obtain ⟨n, rfl⟩ := Nat.exists_eq_add_one_of_ne_zero (show n ≠ 0 by omega)
    have hrec := ih hds (10 * a + digitValue d.char) (drop_succ_of_drop hplace) n (by omega)
    have hofDigits : Nat.ofDigitChars 10 ((d :: ds).map Placed.char) a =
        Nat.ofDigitChars 10 (ds.map Placed.char) (10 * a + digitValue d.char) := Nat.ofDigitChars_cons
    have hlength : place + (d :: ds).length = place + 1 + ds.length := by
      rw [List.length_cons]
      omega
    rw [hofDigits, hlength, ← hrec]
    cases ha : checked a with
    | error e =>
      -- The digits are not even looked at here. The number with the next one is no word either.
      rw [checked_of_le (by omega) ha]
      rfl
    | ok value =>
      rw [evaluated_ok_bind, digits, peek_bind, getElem?_of_drop hplace, ← appendDigit_eq, eq_of_checked ha]
      simp only [hd]
      rfl

/-- A digit is a word. -/
theorem checked_digitValue {c : Char} (h : c.isDigit = true) : checked (digitValue c) = .ok (digitValue c : Int) := by
  have hle : digitValue c ≤ 9 := by
    simp only [Char.isDigit, Bool.and_eq_true, decide_eq_true_eq] at h
    have h9 : c.toNat ≤ 57 := h.2
    show c.toNat - 48 ≤ 9
    omega
  rw [checked_eq, if_pos]
  simp only [IsWord]
  omega

/-- A number without a unit is in seconds already. -/
theorem evaluated_bind_inSeconds_of_noNumber (a : Nat) (h : NoNumber (chars.drop place)) :
    (evaluated (checked a) >>= inSeconds chars) place =
      some ((Tree.number a .second).eval.map fun value => (value, place)) := by
  have heval : (Tree.number a .second).eval = checked a := by
    rw [Tree.eval]
    exact congrArg checked (Int.mul_one _)
  rw [heval]
  cases checked a with
  | error e => rfl
  | ok value =>
    rw [evaluated_ok_bind, inSeconds, peek_bind]
    rw [NoNumber, List.head?_drop] at h
    have hunit : (chars[place]?.bind fun c => TimeUnit.ofChar? c.char) = none :=
      Option.bind_eq_none_iff.mpr fun c hc => (h c hc).2
    simp only [hunit]
    rfl

/-- A number takes the unit at the cursor. -/
theorem evaluated_bind_inSeconds_of_unit (a : Nat) {letter : Placed} {rest : List Placed} {unit : TimeUnit}
    (h : chars.drop place = letter :: rest) (hunit : TimeUnit.ofChar? letter.char = some unit) :
    (evaluated (checked a) >>= inSeconds chars) place =
      some ((Tree.number a unit).eval.map fun value => (value, place + 1)) := by
  rw [Tree.eval]
  cases ha : checked a with
  | error e =>
    have hproduct : checked ((a : Int) * unit.seconds) = .error e :=
      checked_of_le (b := a * unit.seconds) (Nat.le_mul_of_pos_right a unit.one_le_seconds) ha
    rw [hproduct]
    rfl
  | ok value =>
    rw [evaluated_ok_bind, inSeconds, peek_bind, getElem?_of_drop h, Option.bind_some, eq_of_checked ha]
    simp only [hunit]
    rfl

/-- A number is read with the unit after it, if there is one. -/
theorem number_eq {c : Placed} {rest : List Placed} (hc : c.char.isDigit = true) (hplace : chars.drop place = c :: rest)
    (hn : rest.length < n) :
    number chars n c.char (place + 1) = some (result chars (readNumber (c :: rest)).out) := by
  obtain ⟨ds, after, rfl, hds, hafter⟩ := exists_digits rest
  have hall : ∀ d ∈ c :: ds, d.char.isDigit = true := List.forall_mem_cons.mpr ⟨hc, hds⟩
  rw [List.length_append] at hn
  have hdigits := evaluated_bind_digits hds hafter (digitValue c.char) (drop_succ_of_drop hplace)
    (show ds.length < n by omega)
  rw [checked_digitValue hc] at hdigits
  have hvalue : Nat.ofDigitChars 10 (ds.map Placed.char) (digitValue c.char) =
      Nat.ofDigitChars 10 ((c :: ds).map Placed.char) 0 := by
    rw [List.map_cons, Nat.ofDigitChars_cons, Nat.mul_zero, Nat.zero_add]
    rfl
  rw [hvalue] at hdigits
  have hdrop : chars.drop (place + 1 + ds.length) = after := by
    rw [← List.drop_drop, drop_succ_of_drop hplace, List.drop_left]
  have hend : place + 1 + ds.length + after.length = chars.length := by
    have hlength := congrArg List.length hplace
    simp only [List.length_drop, List.length_cons, List.length_append] at hlength
    omega
  have hnumber : number chars n c.char (place + 1) =
      (evaluated (checked (Nat.ofDigitChars 10 ((c :: ds).map Placed.char) 0)) >>= inSeconds chars)
        (place + 1 + ds.length) := bind_of_eq hdigits
  rw [hnumber, ← List.cons_append]
  cases hunit : after.head?.bind fun d => TimeUnit.ofChar? d.char with
  | none =>
    have hrest : NoNumber after := fun d hd => ⟨hafter d hd, Option.bind_eq_none_iff.mp hunit d hd⟩
    rw [out_readNumber_of_noNumber hall hrest, evaluated_bind_inSeconds_of_noNumber _ (hdrop ▸ hrest), result]
    have hplace' : chars.length - after.length = place + 1 + ds.length := by omega
    simp only [hplace']
  | some unit =>
    obtain ⟨letter, hletter, hunit⟩ := Option.bind_eq_some_iff.mp hunit
    obtain ⟨rest, rfl⟩ := List.head?_eq_some_iff.mp hletter
    rw [out_readNumber_of_unit hall hunit, evaluated_bind_inSeconds_of_unit _ hdrop hunit, result]
    have hplace' : chars.length - rest.length = place + 1 + ds.length + 1 := by
      rw [List.length_cons] at hend
      omega
    simp only [hplace']

/-! ### Parentheses -/

/-- A pair of parentheses has the value of what is in it. -/
theorem evaluated_bind_closed {tree : Tree} {opening closing : Placed} {rest : List Placed}
    (h : chars.drop place = closing :: rest) (hclose : closing.char = ')') :
    (evaluated tree.eval >>= closed chars opening) place = some (result chars (tree, rest)) := by
  have hlength := congrArg List.length h
  rw [List.length_drop, List.length_cons] at hlength
  have hplace : chars.length - rest.length = place + 1 := by omega
  rw [result, hplace]
  cases tree.eval with
  | error e => rfl
  | ok value =>
    rw [evaluated_ok_bind, closed, next_bind, getElem?_of_drop h, Option.map_some, hclose, if_pos rfl]
    rfl

/-- A parenthesis that is not closed is an error, after the failures of what follows it. -/
theorem evaluated_bind_closed_of_unclosed {tree : Tree} {opening : Placed}
    (h : ∀ c ∈ (chars.drop place).head?, c.char ≠ ')') :
    (evaluated tree.eval >>= closed chars opening) place =
      some (result chars (.stopped tree (.unbalanced opening.offset), [])) := by
  rw [List.head?_drop] at h
  have hclose : chars[place]?.map Placed.char ≠ some ')' := by
    intro hmap
    obtain ⟨c, hc, hchar⟩ := Option.map_eq_some_iff.mp hmap
    exact h c hc hchar
  rw [result, Tree.eval]
  cases tree.eval with
  | error e => rfl
  | ok value =>
    rw [evaluated_ok_bind, closed, next_bind, if_neg hclose]
    rfl

/-- A factor that begins with a parenthesis is read like the sum after it. -/
theorem call_factor_of_opening {c : Placed} {rest : List Placed} (h : chars.drop place = c :: rest) (hopen : c.char = '(')
    (hsum : call chars n .sum (place + 1) = some (result chars (readSum rest).out)) :
    call chars (n + 1) .factor place = some (result chars (readFactor (c :: rest)).out) := by
  have hsuffix : rest <:+ chars := drop_succ_of_drop h ▸ List.drop_suffix _ _
  have hdrop : chars.drop (chars.length - (readSum rest).rest.length) = (readSum rest).rest :=
    drop_length_sub ((reads_readSum rest).1.suffix.trans hsuffix)
  have hcall : call chars (n + 1) .factor place =
      (evaluated (readSum rest).tree.eval >>= closed chars c) (chars.length - (readSum rest).rest.length) := by
    rw [call, next_bind, getElem?_of_drop h]
    simp only [if_pos hopen]
    exact bind_of_eq hsum
  rw [hcall]
  by_cases hhead : (readSum rest).rest.head?.map Placed.char = some ')'
  · obtain ⟨d, hd, hclose⟩ := Option.map_eq_some_iff.mp hhead
    obtain ⟨after, hrest⟩ := List.head?_eq_some_iff.mp hd
    rw [out_readFactor_of_closing hopen hrest hclose]
    exact evaluated_bind_closed (hdrop.trans hrest) hclose
  · have hclose : ∀ d ∈ (readSum rest).rest.head?, d.char ≠ ')' := fun d hd hchar =>
      hhead (Option.map_eq_some_iff.mpr ⟨d, hd, hchar⟩)
    rw [out_readFactor_of_unclosed hopen hclose]
    exact evaluated_bind_closed_of_unclosed (hdrop.symm ▸ hclose)

/-! ### Calls and readers -/

/-- Within a budget of three units for each character that is left, and one for each level below, each call comes to what the
reader of its phrase comes to. The recursion is that of the readers: the sum in a pair of parentheses has a character less, and
so has every round of a loop. -/
theorem call_eq_readers (chars : List Placed) :
    (∀ cs place n, chars.drop place = cs → 3 * cs.length + 2 < n →
      call chars n .sum place = some (result chars (readSum cs).out)) ∧
    (∀ tree cs n rounds, cs <:+ chars → 3 * cs.length ≤ n → cs.length < rounds →
      (evaluated tree.eval >>= operations chars Operator.additive? (call chars n .product) rounds)
        (chars.length - cs.length) = some (result chars (readTerms tree cs).out)) ∧
    (∀ cs place n, chars.drop place = cs → 3 * cs.length + 1 < n →
      call chars n .product place = some (result chars (readProduct cs).out)) ∧
    (∀ tree cs n rounds, cs <:+ chars → 3 * cs.length ≤ n → cs.length < rounds →
      (evaluated tree.eval >>= operations chars Operator.multiplicative? (call chars n .factor) rounds)
        (chars.length - cs.length) = some (result chars (readFactors tree cs).out)) ∧
    ∀ cs place n, chars.drop place = cs → 3 * cs.length < n →
      call chars n .factor place = some (result chars (readFactor cs).out) := by
  have hproduct : ∀ cs, (readProduct cs).rest <:+ cs := fun cs => (reads_readPhrase .product cs).1.suffix
  have hfactor : ∀ cs, (readFactor cs).rest <:+ cs := fun cs => (reads_readPhrase .factor cs).1.suffix
  have hleft : ∀ {c rest place n}, chars.drop place = c :: rest → 3 * (c :: rest).length < n + 1 →
      chars.drop (place + 1) = rest ∧ 3 * rest.length + 2 < n := by
    intro c rest place n hcs hn
    rw [List.length_cons] at hn
    exact ⟨drop_succ_of_drop hcs, by omega⟩
  apply readSum.mutual_induct
  case case1 =>
    intro cs first ihProduct ihTerms place n hcs hn
    obtain ⟨n, rfl⟩ := Nat.exists_eq_add_one_of_ne_zero (Nat.ne_zero_of_lt hn)
    have hle := first.length_le
    rw [call, bind_of_eq (ihProduct place n hcs (by omega)), out_readSum]
    exact ihTerms n n ((hproduct cs).trans (hcs ▸ List.drop_suffix _ _)) (by omega) (by omega)
  case case2 =>
    intro sum n rounds hcs _ hrounds
    obtain ⟨rounds, rfl⟩ := Nat.exists_eq_add_one_of_ne_zero (Nat.ne_zero_of_lt hrounds)
    rw [out_readTerms_of_noOperator sum (noOperator_nil _)]
    exact evaluated_bind_operations_of_noOperator hcs (noOperator_nil _)
  case case3 =>
    intro sum c rest hop n rounds hcs _ hrounds
    obtain ⟨rounds, rfl⟩ := Nat.exists_eq_add_one_of_ne_zero (Nat.ne_zero_of_lt hrounds)
    rw [out_readTerms_of_noOperator sum (noOperator_cons.mpr hop)]
    exact evaluated_bind_operations_of_noOperator hcs (noOperator_cons.mpr hop)
  case case4 =>
    intro sum c rest op hop following _ ihProduct ihTerms n rounds hcs hn hrounds
    obtain ⟨rounds, rfl⟩ := Nat.exists_eq_add_one_of_ne_zero (Nat.ne_zero_of_lt hrounds)
    have hdrop := drop_length_sub hcs
    have hle := following.length_le
    rw [List.length_cons] at hn hrounds
    rw [evaluated_bind_operations hdrop hop (ihProduct _ n (drop_succ_of_drop hdrop) (by omega)),
      out_readTerms_of_operator sum rest hop]
    exact ihTerms n rounds (((hproduct rest).trans (List.suffix_cons _ _)).trans hcs) (by omega) (by omega)
  case case5 =>
    intro cs first ihFactor ihFactors place n hcs hn
    obtain ⟨n, rfl⟩ := Nat.exists_eq_add_one_of_ne_zero (Nat.ne_zero_of_lt hn)
    have hle := first.length_le
    rw [call, bind_of_eq (ihFactor place n hcs (by omega)), out_readProduct]
    exact ihFactors n n ((hfactor cs).trans (hcs ▸ List.drop_suffix _ _)) (by omega) (by omega)
  case case6 =>
    intro product n rounds hcs _ hrounds
    obtain ⟨rounds, rfl⟩ := Nat.exists_eq_add_one_of_ne_zero (Nat.ne_zero_of_lt hrounds)
    rw [out_readFactors_of_noOperator product (noOperator_nil _)]
    exact evaluated_bind_operations_of_noOperator hcs (noOperator_nil _)
  case case7 =>
    intro product c rest hop n rounds hcs _ hrounds
    obtain ⟨rounds, rfl⟩ := Nat.exists_eq_add_one_of_ne_zero (Nat.ne_zero_of_lt hrounds)
    rw [out_readFactors_of_noOperator product (noOperator_cons.mpr hop)]
    exact evaluated_bind_operations_of_noOperator hcs (noOperator_cons.mpr hop)
  case case8 =>
    intro product c rest op hop following _ ihFactor ihFactors n rounds hcs hn hrounds
    obtain ⟨rounds, rfl⟩ := Nat.exists_eq_add_one_of_ne_zero (Nat.ne_zero_of_lt hrounds)
    have hdrop := drop_length_sub hcs
    have hle := following.length_le
    rw [List.length_cons] at hn hrounds
    rw [evaluated_bind_operations hdrop hop (ihFactor _ n (drop_succ_of_drop hdrop) (by omega)),
      out_readFactors_of_operator product rest hop]
    exact ihFactors n rounds (((hfactor rest).trans (List.suffix_cons _ _)).trans hcs) (by omega) (by omega)
  case case9 =>
    intro place n hcs hn
    obtain ⟨n, rfl⟩ := Nat.exists_eq_add_one_of_ne_zero (Nat.ne_zero_of_lt hn)
    have hnone : chars[place]? = none := by rw [← List.head?_drop, hcs, List.head?_nil]
    rw [call, next_bind, hnone, out_readFactor_nil]
    rfl
  case case10 =>
    intro c rest hopen inner _ _ ih place n hcs hn
    obtain ⟨n, rfl⟩ := Nat.exists_eq_add_one_of_ne_zero (Nat.ne_zero_of_lt hn)
    obtain ⟨hrest, hn⟩ := hleft hcs hn
    exact call_factor_of_opening hcs hopen (ih (place + 1) n hrest hn)
  case case11 =>
    intro c rest hopen inner _ d after _ _ ih place n hcs hn
    obtain ⟨n, rfl⟩ := Nat.exists_eq_add_one_of_ne_zero (Nat.ne_zero_of_lt hn)
    obtain ⟨hrest, hn⟩ := hleft hcs hn
    exact call_factor_of_opening hcs hopen (ih (place + 1) n hrest hn)
  case case12 =>
    intro c rest hopen inner _ d after _ _ ih place n hcs hn
    obtain ⟨n, rfl⟩ := Nat.exists_eq_add_one_of_ne_zero (Nat.ne_zero_of_lt hn)
    obtain ⟨hrest, hn⟩ := hleft hcs hn
    exact call_factor_of_opening hcs hopen (ih (place + 1) n hrest hn)
  case case13 =>
    intro c rest hopen hdigit place n hcs hn
    obtain ⟨n, rfl⟩ := Nat.exists_eq_add_one_of_ne_zero (Nat.ne_zero_of_lt hn)
    obtain ⟨-, hn⟩ := hleft hcs hn
    rw [call, next_bind, getElem?_of_drop hcs, out_readFactor_of_isDigit rest hdigit]
    simp only [if_neg hopen, if_pos hdigit]
    exact number_eq hdigit hcs (by omega)
  case case14 =>
    intro c rest hopen hdigit place n hcs hn
    obtain ⟨n, rfl⟩ := Nat.exists_eq_add_one_of_ne_zero (Nat.ne_zero_of_lt hn)
    rw [call, next_bind, getElem?_of_drop hcs, out_readFactor_of_unexpected rest hopen (by simpa using hdigit)]
    simp only [if_neg hopen, if_neg hdigit]
    rfl

/-- Each call comes to what the reader of its phrase comes to, with any budget of more than three units for each character that
is left, and one for each level below. -/
theorem call_eq (p : Phrase) (h : 3 * (chars.length - place) + p.level < n) :
    call chars n p place = some (result chars (readPhrase p (chars.drop place))) := by
  obtain ⟨hsum, -, hproduct, -, hfactor⟩ := call_eq_readers chars
  rw [← List.length_drop] at h
  cases p with
  | sum => exact hsum _ place n rfl h
  | product => exact hproduct _ place n rfl h
  | factor => exact hfactor _ place n rfl h

/-- At the end of the input the value of a calculation is its length. -/
theorem finish_of_nil (tree : Tree) (h : chars.drop place = []) :
    ((evaluated tree.eval >>= finish chars).run' place).run = some tree.length := by
  have hnone : chars[place]? = none := by rw [← List.head?_drop, h, List.head?_nil]
  rw [Tree.length]
  cases tree.eval with
  | error e => rfl
  | ok value =>
    rw [StateT.run', evaluated_ok_bind, finish, peek_bind, hnone]
    show ExceptT.run (Prod.fst <$> (if value < 0 then _ else _ : Cursor UInt64) place) =
      some (if value < 0 then _ else _)
    split <;> rfl

/-- What is left after a calculation stops the reading. -/
theorem finish_of_cons (tree : Tree) {c : Placed} {rest : List Placed} (h : chars.drop place = c :: rest) :
    ((evaluated tree.eval >>= finish chars).run' place).run = some
      (Tree.stopped tree (if c.char = ')' then .unbalanced c.offset else .unexpectedChar c.offset c.char)).length := by
  rw [Tree.length, Tree.eval]
  cases tree.eval with
  | error e => rfl
  | ok value =>
    rw [StateT.run', evaluated_ok_bind, finish, peek_bind, getElem?_of_drop h]
    rfl

/-- With enough budget a text has the cycle length that it has without a cursor, or the same error. -/
theorem read?_eq {text : String} (h : 3 * (inked text).length + 2 < n) : read? n text = some (read text) := by
  have hcall : call (inked text) n .sum 0 = some (result (inked text) (readSum (inked text)).out) :=
    call_eq .sum h
  have hdrop := drop_length_sub (reads_readSum (inked text)).1.suffix
  have hfinish : read? n text = ((evaluated (readSum (inked text)).tree.eval >>= finish (inked text)).run'
      ((inked text).length - (readSum (inked text)).rest.length)).run :=
    congrArg (fun x : ExceptT Error Option (UInt64 × Nat) => (Prod.fst <$> x).run) (bind_of_eq hcall)
  rw [hfinish, read, readTree]
  cases hrest : (readSum (inked text)).rest with
  | nil =>
    rw [hrest] at hdrop
    exact finish_of_nil _ hdrop
  | cons c rest =>
    rw [hrest] at hdrop
    exact finish_of_cons _ hdrop

example : read? 21 "1h + 30m" = some (.ok 5400) := by
  cbv

end Cursor

end Recurrence.CycleLength
