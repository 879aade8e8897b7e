import Recurrence.Json.Value
import Recurrence.Offset.Catalog

/-!
# JSON: offset catalogs

A catalog is an object whose members are lists of buckets, and a bucket is a list of its target and, unless it has none,
its bound. Every member has to be a list of buckets, also one whose name comes again later; the last of a name counts.
-/

namespace Recurrence.Offset.Catalog

open Json

/-- The buckets of a member, added to the catalog read so far. -/
def readBuckets (catalog : Catalog) (name : String) : Reader Buckets.Error Catalog := fun cs => do
  let entries ← readList (readList readInt32) cs
  match Buckets.ofEntries entries.value with
  | .ok buckets => .ok (entries.map fun _ => catalog.insert name buckets)
  | .error reason => .error (.rejected reason)

/-- A catalog. -/
def reader : Reader Buckets.Error Catalog := fun cs =>
  atFirst cs fun c rest h =>
    if c = '{' then (readObject (fun catalog name => .ok (readBuckets catalog name)) empty rest).map (·.within h)
    else .error (otherForm c rest)

/-- The catalog that a JSON text holds. -/
def ofJson (text : String) : Except (Fault Buckets.Error) Catalog :=
  readDocument reader text

end Recurrence.Offset.Catalog
