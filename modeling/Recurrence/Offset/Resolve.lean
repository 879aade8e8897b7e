import Recurrence.Offset.Catalog
import Recurrence.Text.Blank
import Recurrence.Text.Numeral

/-!
# Offsets: resolving a specification

A schedule says in a text which offset its times are meant in: `auto` for the client's own, a name of the catalog, or a
number of minutes. Resolving never fails; what cannot be resolved is offset 0.
-/

namespace Recurrence.Offset

/-- The text that stands for the client's own offset. -/
def clientOwn : List Char :=
  ['a', 'u', 't', 'o']

/-- The minutes that a text writes, if they fit a signed 32-bit word. -/
def minutes? (cs : List Char) : Option Int32 :=
  ((Text.signed? cs).filter (fun n => -2147483648 ≤ n ∧ n ≤ 2147483647)).map Int32.ofInt

/-- The offset that a specification stands for, in minutes east of UTC. A name is looked up before a number is read. -/
def resolve (specification : String) (client : Int32) (catalog : Catalog) : Int32 :=
  let cs := Text.trim specification.toList
  if cs = clientOwn then client
  else
    match catalog.get? (String.ofList cs) with
    | some buckets => (buckets.target? client).getD 0
    | none => (minutes? cs).getD 0

end Recurrence.Offset
