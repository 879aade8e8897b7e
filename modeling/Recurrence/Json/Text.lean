import Recurrence.Json.Basic

/-!
# JSON: strings

The characters of a string up to its closing quote. Every character from U+0020 on stands for itself, except the quote
and the backslash. A character beyond U+FFFF may be escaped as a pair of surrogates, and no surrogate stands alone.
-/

namespace Recurrence.Json

variable {ε : Type}

/-! ### Code units -/

/-- The value of a hexadecimal digit. -/
def hexDigit? (c : Char) : Option Nat :=
  if '0' ≤ c ∧ c ≤ '9' then some (c.toNat - '0'.toNat)
  else if 'a' ≤ c ∧ c ≤ 'f' then some (c.toNat - 'a'.toNat + 10)
  else if 'A' ≤ c ∧ c ≤ 'F' then some (c.toNat - 'A'.toNat + 10)
  else none

/-- The number that digits of base 16 write. -/
def hexValue? (cs : List Char) : Option Nat :=
  (cs.mapM hexDigit?).map fun digits => digits.foldl (fun n d => 16 * n + d) 0

/-- The fault of four hexadecimal digits that are not there: the text ends when fewer than four bytes are left. -/
def hexFault (cs : List Char) : Fault ε :=
  if (String.ofList cs).utf8ByteSize < 4 then .unfinished else .malformed

/-- Four hexadecimal digits. -/
def readHex (cs : List Char) : Except (Fault ε) (Taken Nat cs) :=
  match cs with
  | a :: b :: c :: d :: rest =>
    match hexValue? [a, b, c, d] with
    | some n => .ok ((((Taken.head n d rest).behind c).behind b).behind a)
    | none => .error (hexFault (a :: b :: c :: d :: rest))
  | cs => .error (hexFault cs)

/-- A code unit that opens a pair of surrogates. -/
def isHighSurrogate (n : Nat) : Bool :=
  0xD800 ≤ n && n ≤ 0xDBFF

/-- A code unit that closes a pair of surrogates. -/
def isLowSurrogate (n : Nat) : Bool :=
  0xDC00 ≤ n && n ≤ 0xDFFF

/-- The character of a pair of surrogates. -/
def ofSurrogates (high low : Nat) : Char :=
  Char.ofNat (0x10000 + 0x400 * (high - 0xD800) + (low - 0xDC00))

/-! ### Escapes -/

/-- The character that a letter after a backslash stands for. -/
def escaped? : Char → Option Char
  | '"' => some '"'
  | '\\' => some '\\'
  | '/' => some '/'
  | 'b' => some '\x08'
  | 'f' => some '\x0c'
  | 'n' => some '\n'
  | 'r' => some '\r'
  | 't' => some '\t'
  | _ => none

/-- The code unit of an escape that must follow: a backslash, the letter u and four digits. -/
def readUnitEscape (cs : List Char) : Except (Fault ε) (Taken Nat cs) :=
  match cs with
  | [] => .error .unfinished
  | ['\\'] => .error .unfinished
  | '\\' :: 'u' :: rest => (readHex rest).map fun t => (t.behind 'u').behind '\\'
  | _ => .error .malformed

/-- The character of an escape by code units, after the letter u. -/
def readCodePoint (cs : List Char) : Except (Fault ε) (Taken Char cs) := do
  let unit ← readHex cs
  if isLowSurrogate unit.value then .error .malformed
  else if isHighSurrogate unit.value then do
    let low ← readUnitEscape unit.rest
    if isLowSurrogate low.value then .ok (unit.andThen (low.map (ofSurrogates unit.value))) else .error .malformed
  else .ok (unit.map Char.ofNat)

/-- The character of an escape, after the backslash. -/
def readEscape (cs : List Char) : Except (Fault ε) (Taken Char cs) :=
  match cs with
  | [] => .error .unfinished
  | c :: rest =>
    if c = 'u' then (readCodePoint rest).map (·.behind c)
    else
      match escaped? c with
      | some char => .ok (.head char c rest)
      | none => .error .malformed

/-! ### Strings -/

/-- The characters of a string and its closing quote, after the opening one. -/
def readChars (cs : List Char) : Except (Fault ε) (Taken (List Char) cs) :=
  match cs with
  | [] => .error .unfinished
  | c :: rest =>
    if c = '"' then .ok (.head [] c rest)
    else if c = '\\' then do
      let char ← readEscape rest
      let chars ← readChars char.rest
      .ok ((char.andThen (chars.map (char.value :: ·))).behind c)
    else if c < ' ' then .error .malformed
    else (readChars rest).map fun chars => (chars.map (c :: ·)).behind c
  termination_by cs.length
  decreasing_by
  · exact Nat.lt_succ_of_lt char.shorter
  · exact Nat.lt_succ_self _

end Recurrence.Json
