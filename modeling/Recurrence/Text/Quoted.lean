import Recurrence.Text.Combining
import Recurrence.Text.Unprintable

/-!
# Text: a quoted character

How a message shows one character: between single quotes, so that a blank or a quote can be told from the message around
it. The quote and the backslash carry a backslash, four control characters have a letter or digit of their own, and a
character that cannot be seen alone is written as its code point in hexadecimal.
-/

namespace Recurrence.Text

/-- A code point as an escape: lower-case hexadecimal digits between braces. -/
def codePointEscape (c : Char) : List Char :=
  ['\\', 'u', '{'] ++ Nat.toDigits 16 c.toNat ++ ['}']

/-- What stands for a character between the quotes. -/
def quotedBody (c : Char) : List Char :=
  match c with
  | '\x00' => ['\\', '0']
  | '\t' => ['\\', 't']
  | '\n' => ['\\', 'n']
  | '\r' => ['\\', 'r']
  | '\'' => ['\\', '\'']
  | '\\' => ['\\', '\\']
  | c => if isCombining c || isUnprintable c then codePointEscape c else [c]

/-- A character between single quotes. -/
def quoted (c : Char) : String :=
  String.ofList ('\'' :: quotedBody c ++ ['\''])

end Recurrence.Text
