import Recurrence.Json.Number
import Recurrence.Json.Text

/-!
# JSON: values of a form

Readers of strings, 32-bit integers, lists and objects, and of a whole text. A value of another form is taken as far as
that needs to be known: a list or an object is refused at its bracket, and any other value after its end, so a problem
inside it comes first (`otherForm`).
-/

namespace Recurrence.Json

variable {ε α σ : Type}

/-- The fault of a value of another form than expected, which begins with `c`. -/
def otherForm (c : Char) (rest : List Char) : Fault ε :=
  let outcome : Except (Fault ε) Unit :=
    if c = '[' ∨ c = '{' then .ok ()
    else if c = '"' then (readChars rest).map fun _ => ()
    else if c = '-' ∨ c.isDigit then (readNumber (c :: rest)).map fun _ => ()
    else (nameAfter? c).elim (.error .malformed) fun letters => (afterLetters letters rest).map fun _ => ()
  match outcome with
  | .ok _ => .unfit
  | .error fault => fault

/-- A string. -/
def readString : Reader ε String := fun cs =>
  atFirst cs fun c rest h =>
    if c = '"' then (readChars rest).map fun t => (t.map String.ofList).within h else .error (otherForm c rest)

/-- The 32-bit integer that a number is. -/
def int32? (n : Numeral) : Option Int32 :=
  (n.integer?.filter fun value => -2147483648 ≤ value ∧ value ≤ 2147483647).map Int32.ofInt

/-- An integer of 32 bits. -/
def readInt32 : Reader ε Int32 := fun cs =>
  atFirst cs fun c rest h =>
    if c = '-' ∨ c.isDigit then do
      let n ← readNumber (c :: rest)
      match int32? n.value with
      | some value => .ok ⟨value, n.rest, Nat.lt_of_lt_of_le n.shorter h⟩
      | none => .error .unfit
    else .error (otherForm c rest)

/-! ### Lists -/

/-- The items of a list from one item on, and the closing bracket. -/
def readItems (item : Reader ε α) (cs : List Char) : Except (Fault ε) (Taken (List α) cs) := do
  let head ← item cs
  let tail ← atFirst head.rest fun c rest h =>
    if c = ']' then .ok ⟨[], rest, h⟩
    else if c = ',' then (readItems item rest).map (·.within h)
    else .error .malformed
  .ok (head.andThen (tail.map (head.value :: ·)))
  termination_by cs.length
  decreasing_by exact Nat.lt_trans h head.shorter

/-- A list of values that `item` reads. -/
def readList (item : Reader ε α) : Reader ε (List α) := fun cs =>
  atFirst cs fun c rest h =>
    if c = '[' then
      let items : Except (Fault ε) (Taken (List α) rest) := atFirst rest fun d after h' =>
        if d = ']' then .ok ⟨[], after, h'⟩ else readItems item rest
      items.map (·.within h)
    else .error (otherForm c rest)

/-- A value that is put together from the items of a list, one slot per item, and the closing bracket. A list may end
before the slots do, and must not go on after them. -/
def readSlots (slots : List (σ → Reader ε σ)) (isFirst : Bool) (state : σ) (cs : List Char) :
    Except (Fault ε) (Taken σ cs) :=
  atFirst cs fun c rest h =>
    if c = ']' then .ok ⟨state, rest, h⟩
    else
      match slots with
      | [] => .error .malformed
      | slot :: slots =>
        if isFirst then do
          let t ← slot state cs
          (readSlots slots false t.value t.rest).map t.andThen
        else if c = ',' then do
          let t ← slot state rest
          (readSlots slots false t.value t.rest).map fun t' => (t.andThen t').within h
        else .error .malformed

/-! ### Objects -/

/-- The colon after a name. -/
def readColon (cs : List Char) : Except (Fault ε) (Taken Unit cs) :=
  atFirst cs fun c rest h => if c = ':' then .ok ⟨(), rest, h⟩ else .error .malformed

/-- One member of an object. What a name stands for is decided before the value is read: `member` refuses the name, or
reads the value. -/
def readMember (member : σ → String → Except (Fault ε) (Reader ε σ)) (state : σ) (cs : List Char) :
    Except (Fault ε) (Taken σ cs) :=
  atFirst cs fun c rest h =>
    if c = '"' then do
      let name ← readChars rest
      let value ← member state (String.ofList name.value)
      let colon ← readColon name.rest
      let t ← value colon.rest
      .ok ((name.andThen (colon.andThen t)).within h)
    else .error .malformed

/-- The members of an object from one member on, and the closing brace. -/
def readMembers (member : σ → String → Except (Fault ε) (Reader ε σ)) (state : σ) (cs : List Char) :
    Except (Fault ε) (Taken σ cs) := do
  let t ← readMember member state cs
  let t' ← atFirst t.rest fun c rest h =>
    if c = '}' then .ok ⟨t.value, rest, h⟩
    else if c = ',' then (readMembers member t.value rest).map (·.within h)
    else .error .malformed
  .ok (t.andThen t')
  termination_by cs.length
  decreasing_by exact Nat.lt_trans h t.shorter

/-- The members of an object after its opening brace. -/
def readObject (member : σ → String → Except (Fault ε) (Reader ε σ)) (state : σ) (cs : List Char) :
    Except (Fault ε) (Taken σ cs) :=
  atFirst cs fun c rest h => if c = '}' then .ok ⟨state, rest, h⟩ else readMembers member state cs

/-! ### Whole texts -/

/-- The value of a text that holds nothing else. -/
def readDocument (reader : Reader ε α) (text : String) : Except (Fault ε) α := do
  let t ← reader text.toList
  if t.rest.all isSpace then .ok t.value else .error .malformed

end Recurrence.Json
