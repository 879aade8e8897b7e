import Recurrence.Text.Quoted

/-!
# Cycle lengths: arithmetic

A cycle length is written as integer arithmetic on numbers of seconds, minutes, hours, days or weeks. `Tree` is such a
calculation, as far as it could be read: where reading stopped early, the tree says so at that place. `Tree.eval` works
from left to right on signed 64-bit values, so it reports whichever comes first in the text, a calculation that fails or
the place where reading stopped.
-/

namespace Recurrence.CycleLength

/-- Why a text could not be read further. Offsets count the bytes before a character. -/
inductive ReadError where
  /-- No calculation goes on with this character. -/
  | unexpectedChar (offset : Nat) (char : Char)
  /-- The text ends where a number or a parenthesis is expected. -/
  | unexpectedEnd
  /-- A parenthesis without its partner. -/
  | unbalanced (offset : Nat)
  deriving DecidableEq, Repr

/-- Why a text has no cycle length. -/
inductive Error where
  /-- The text is not a calculation. -/
  | unreadable (cause : ReadError)
  /-- A divisor is zero. -/
  | divisionByZero
  /-- A number or a result is outside the signed 64-bit range. -/
  | overflow
  /-- The calculation gives a negative length. -/
  | negative (value : Int)
  deriving DecidableEq, Repr

/-- The message of an error. -/
def Error.message : Error → String
  | unreadable (.unexpectedChar offset char) => s!"Unexpected character {Text.quoted char} at {offset}"
  | unreadable .unexpectedEnd => "Unexpected end of input"
  | unreadable (.unbalanced offset) => s!"Unbalanced parenthesis at {offset}"
  | divisionByZero => "Division by zero"
  | overflow => "Arithmetic overflow"
  | negative value => s!"Negative cycle length {value}"

/-! ### Units and operators -/

/-- The unit that a number may carry. -/
inductive TimeUnit where
  | second
  | minute
  | hour
  | day
  | week
  deriving DecidableEq, Repr

/-- The seconds of a unit. -/
def TimeUnit.seconds : TimeUnit → Nat
  | second => 1
  | minute => 60
  | hour => 3600
  | day => 86400
  | week => 604800

/-- The unit that a letter stands for. -/
def TimeUnit.ofChar? : Char → Option TimeUnit
  | 's' => some second
  | 'm' => some minute
  | 'h' => some hour
  | 'd' => some day
  | 'w' => some week
  | _ => none

/-- The four operations. -/
inductive Operator where
  | add
  | sub
  | mul
  | div
  deriving DecidableEq, Repr

/-- The operator between terms that a character stands for. -/
def Operator.additive? : Char → Option Operator
  | '+' => some add
  | '-' => some sub
  | _ => none

/-- The operator between factors that a character stands for. -/
def Operator.multiplicative? : Char → Option Operator
  | '*' => some mul
  | '/' => some div
  | _ => none

/-- An integer, if it is in the signed 64-bit range. -/
def checked (n : Int) : Except Error Int :=
  if -9223372036854775808 ≤ n ∧ n ≤ 9223372036854775807 then .ok n else .error .overflow

/-- The result of an operation. Division goes toward zero. -/
def Operator.apply (op : Operator) (a b : Int) : Except Error Int :=
  match op with
  | add => checked (a + b)
  | sub => checked (a - b)
  | mul => checked (a * b)
  | div => if b = 0 then .error .divisionByZero else checked (a.tdiv b)

/-! ### Calculations -/

/-- A calculation, as far as it could be read. -/
inductive Tree where
  /-- A number of a unit. -/
  | number (value : Nat) (unit : TimeUnit)
  /-- An operation on two calculations. -/
  | operation (op : Operator) (left right : Tree)
  /-- Reading stopped where a calculation was expected. -/
  | missing (cause : ReadError)
  /-- Reading stopped after a calculation. -/
  | stopped (before : Tree) (cause : ReadError)
  deriving DecidableEq, Repr

namespace Tree

/-- A calculation is complete when reading stopped nowhere in it. -/
def IsComplete : Tree → Prop
  | number _ _ => True
  | operation _ left right => left.IsComplete ∧ right.IsComplete
  | missing _ => False
  | stopped _ _ => False

/-- The value of a calculation, or its first failure from left to right. -/
def eval : Tree → Except Error Int
  | number value unit => checked (value * unit.seconds)
  | operation op left right => do
    let a ← left.eval
    let b ← right.eval
    op.apply a b
  | missing cause => .error (.unreadable cause)
  | stopped before cause => do
    let _ ← before.eval
    .error (.unreadable cause)

/-- The length that a calculation gives, a whole number of seconds. -/
def length (t : Tree) : Except Error UInt64 := do
  let value ← t.eval
  if value < 0 then .error (.negative value) else .ok (UInt64.ofNat value.toNat)

end Tree

end Recurrence.CycleLength
