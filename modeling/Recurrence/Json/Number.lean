import Recurrence.Json.Basic

/-!
# JSON: numbers

A number is taken apart as it is written, and what it is worth is decided afterwards. A number without fraction and
exponent is an integer; negative zero and all others are reals. A real that exceeds every double is no number at all
(`Numeral.exceedsDoubles`).
-/

namespace Recurrence.Json

variable {ε : Type}

/-- A number as it is written: its sign, its digits before and after the point, and its exponent. -/
structure Numeral where
  isNegative : Bool
  whole : List Char
  fraction : List Char
  exponent? : Option (Bool × List Char)
  deriving DecidableEq, Repr

/-! ### Taking a number apart -/

/-- What is left of a text after the digits at its start. -/
def afterDigits (cs : List Char) : Left cs :=
  ⟨cs.dropWhile Char.isDigit, (List.dropWhile_sublist _).length_le⟩

/-- One digit or more. `atEnd` is the fault when the text ends before them. -/
def readDigits (atEnd : Fault ε) (cs : List Char) : Except (Fault ε) (Taken (List Char) cs) :=
  match cs with
  | [] => .error atEnd
  | c :: rest =>
    if c.isDigit then .ok (.headAnd (c :: rest.takeWhile Char.isDigit) c (afterDigits rest)) else .error .malformed

/-- The digits before the point: one zero, or digits of which the first is not zero. -/
def readWhole (atEnd : Fault ε) (cs : List Char) : Except (Fault ε) (Taken (List Char) cs) := do
  let digits ← readDigits atEnd cs
  match digits.value with
  | '0' :: _ :: _ => .error .malformed
  | _ => .ok digits

/-- The digits after the point, none when there is no point. -/
def readFraction (atEnd : Fault ε) (cs : List Char) : Except (Fault ε) (List Char × Left cs) :=
  match cs with
  | [] => .ok ([], .all [])
  | c :: rest =>
    if c = '.' then (readDigits atEnd rest).map fun t => (t.value, t.left.behind c) else .ok ([], .all (c :: rest))

/-- Whether an exponent begins with a minus sign, and what is left after its sign. -/
def takeSign (cs : List Char) : Bool × Left cs :=
  match cs with
  | [] => (false, .all [])
  | c :: rest => if c = '+' ∨ c = '-' then (c = '-', (Left.all rest).behind c) else (false, .all (c :: rest))

/-- The exponent, if there is one. -/
def readExponent (atEnd : Fault ε) (cs : List Char) : Except (Fault ε) (Option (Bool × List Char) × Left cs) :=
  match cs with
  | [] => .ok (none, .all [])
  | c :: rest =>
    if c = 'e' ∨ c = 'E' then
      let sign := takeSign rest
      (readDigits atEnd sign.2.rest).map fun t => (some (sign.1, t.value), (sign.2.trans t.left).behind c)
    else .ok (none, .all (c :: rest))

/-- A number without its sign. -/
def readMagnitude (atEnd : Fault ε) (isNegative : Bool) (cs : List Char) : Except (Fault ε) (Taken Numeral cs) := do
  let whole ← readWhole atEnd cs
  let (fraction, left) ← readFraction atEnd whole.rest
  let (exponent?, left') ← readExponent atEnd left.rest
  .ok (whole.andLeft ⟨isNegative, whole.value, fraction, exponent?⟩ (left.trans left'))

/-- A number. `atEnd` is the fault when the text ends inside it. -/
def readNumeral (atEnd : Fault ε) (cs : List Char) : Except (Fault ε) (Taken Numeral cs) :=
  match cs with
  | [] => .error atEnd
  | c :: rest =>
    if c = '-' then (readMagnitude atEnd true rest).map (·.behind c) else readMagnitude atEnd false (c :: rest)

/-! ### What a number is worth -/

/-- The double nearest to a natural number, with 53 significant bits; a tie goes to the even one. -/
def nearestDouble (n : Nat) : Nat :=
  if n.log2 < 53 then n
  else
    let unit := 1 <<< (n.log2 - 52)
    let quotient := n / unit
    let remainder := n % unit
    if unit < 2 * remainder ∨ (unit = 2 * remainder ∧ quotient % 2 = 1) then (quotient + 1) * unit
    else quotient * unit

/-- What rounds to a double above the greatest one begins half a unit below the power of two that would follow it. -/
def doubleBound : Nat :=
  (1 <<< 1024) - (1 <<< 970)

/-- The greatest unsigned 64-bit word. -/
def greatestWord : Nat := 18446744073709551615

/-- Digits appended to a number as long as it is a word, and the count of those left out. -/
def appendDigits (n : Nat) : List Char → Nat × Nat
  | [] => (n, 0)
  | c :: cs =>
    let n' := 10 * n + (c.toNat - '0'.toNat)
    if n' ≤ greatestWord then appendDigits n' cs else (n, cs.length + 1)

namespace Numeral

/-- The exponent as it is written, 0 when there is none. -/
def exponent (n : Numeral) : Int :=
  match n.exponent? with
  | none => 0
  | some (isNegative, digits) =>
    let e : Int := Nat.ofDigitChars 10 digits 0
    if isNegative then -e else e

/-- The leading digits of a number, as many as fit a word, and the exponent of ten that goes with them. Digits before the
point that are left out still count in the exponent. -/
def scientific (n : Numeral) : Nat × Int :=
  let (whole, dropped) := appendDigits 0 n.whole
  let (significand, ignored) := appendDigits whole n.fraction
  (significand, dropped - (n.fraction.length - ignored : Nat) + n.exponent)

/-- A number exceeds the doubles when its power of ten alone does, or its product with the leading digits. -/
def exceedsDoubles (n : Numeral) : Bool :=
  let (significand, exponent) := n.scientific
  if significand = 0 ∨ exponent < 0 then false
  else if 308 < exponent then true
  else doubleBound ≤ nearestDouble significand * nearestDouble (Nat.pow 10 exponent.toNat)

/-- The integer that a number is, if it is written without fraction and exponent and is not negative zero. -/
def integer? (n : Numeral) : Option Int :=
  let magnitude := Nat.ofDigitChars 10 n.whole 0
  if n.fraction ≠ [] ∨ n.exponent?.isSome ∨ (n.isNegative ∧ magnitude = 0) then none
  else some (if n.isNegative then -magnitude else magnitude)

end Numeral

/-- A number that does not exceed the doubles. -/
def readNumber (cs : List Char) : Except (Fault ε) (Taken Numeral cs) := do
  let n ← readNumeral .unfinished cs
  if n.value.exceedsDoubles then .error .malformed else .ok n

end Recurrence.Json
