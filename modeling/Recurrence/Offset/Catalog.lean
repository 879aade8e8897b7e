import Std.Data.ExtHashMap
import Recurrence.Offset.Buckets

/-!
# Offsets: the catalog

Buckets under names. A name has the buckets given to it last, and the order in which names came does not matter: two
catalogs with the same buckets under every name are equal (`Catalog.ext`).
-/

namespace Recurrence.Offset

/-- Buckets under names. -/
structure Catalog where
  byName : Std.ExtHashMap String Buckets

/-- A client that is taken in by no bucket under a name. -/
structure Miss where
  name : String
  client : Int32
  deriving DecidableEq, Repr

/-- The message of a miss. -/
def Miss.message (miss : Miss) : String :=
  let minutes := miss.client.toInt
  s!"No offset bucket in {miss.name} covers {minutes} minutes"

namespace Catalog

/-- The catalog without a name. -/
def empty : Catalog :=
  ⟨∅⟩

/-- The buckets under a name. -/
def get? (catalog : Catalog) (name : String) : Option Buckets :=
  catalog.byName[name]?

/-- A catalog is empty when no name has buckets. -/
def isEmpty (catalog : Catalog) : Bool :=
  catalog.byName.isEmpty

/-- The catalog with buckets put under a name, in place of those that were there. -/
def insert (catalog : Catalog) (name : String) (buckets : Buckets) : Catalog :=
  ⟨catalog.byName.insert name buckets⟩

/-- The buckets that were under a name, and the catalog with others put in their place. -/
def exchange (catalog : Catalog) (name : String) (buckets : Buckets) : Option Buckets × Catalog :=
  (catalog.get? name, catalog.insert name buckets)

/-- Two catalogs together. Where a name is in both, it has the buckets of the second. -/
def merge (catalog incoming : Catalog) : Catalog :=
  ⟨catalog.byName ∪ incoming.byName⟩

/-- The target offset of a client under a name. -/
def target (catalog : Catalog) (name : String) (client : Int32) : Except Miss Int32 :=
  match (catalog.get? name).bind (·.target? client) with
  | some target => .ok target
  | none => .error ⟨name, client⟩

/-- Catalogs with the same buckets under every name are equal. -/
@[ext] theorem ext {catalog catalog' : Catalog} (h : ∀ name, catalog.get? name = catalog'.get? name) :
    catalog = catalog' := by
  cases catalog
  cases catalog'
  rw [mk.injEq]
  exact Std.ExtHashMap.ext_getElem? h

@[simp] theorem get?_empty (name : String) : empty.get? name = none := by
  simp [empty, get?]

theorem get?_insert (catalog : Catalog) (name name' : String) (buckets : Buckets) :
    (catalog.insert name buckets).get? name' = if name = name' then some buckets else catalog.get? name' := by
  simp [insert, get?, Std.ExtHashMap.getElem?_insert]

theorem get?_merge (catalog incoming : Catalog) (name : String) :
    (catalog.merge incoming).get? name = (incoming.get? name).or (catalog.get? name) := by
  simp [merge, get?, Std.ExtHashMap.getElem?_union]

end Catalog

end Recurrence.Offset
