/-!
# Text: blank characters

The characters that separate words, and the two things done with them: cutting a text into its words and dropping blanks
at both ends. Blank means the Unicode property White_Space, which holds of 25 characters; the ASCII class of the core
library has four of them.
-/

namespace Recurrence.Text

/-- Every character of the Unicode property White_Space is blank, and no other. -/
def isBlank (c : Char) : Bool :=
  let n := c.toNat
  (0x09 ≤ n && n ≤ 0x0D) || n = 0x20 || n = 0x85 || n = 0xA0 || n = 0x1680 || (0x2000 ≤ n && n ≤ 0x200A) ||
    n = 0x2028 || n = 0x2029 || n = 0x202F || n = 0x205F || n = 0x3000

/-- The words of a text are its longest stretches without a blank, in order. -/
def words (cs : List Char) : List (List Char) :=
  (cs.splitOnP isBlank).filter (fun word => !word.isEmpty)

/-- The text without the blanks at its start. -/
def trimStart (cs : List Char) : List Char :=
  cs.dropWhile isBlank

/-- The text without the blanks at its start and at its end. -/
def trim (cs : List Char) : List Char :=
  (trimStart (trimStart cs).reverse).reverse

end Recurrence.Text
