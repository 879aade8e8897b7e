/-!
# Offsets: buckets

A list of buckets sorts the offsets of clients, in minutes east of UTC, into a few target offsets. A client belongs to
the first bucket whose bound is not below its offset. The list has a bucket, and only its last one may be without a bound;
both facts are part of the type, and `Buckets.ofList` is the one way in.
-/

namespace Recurrence.Offset

/-- A target offset, for the clients up to a bound, or for all that are left when there is no bound. -/
structure Bucket where
  target : Int32
  bound? : Option Int32
  deriving DecidableEq, Repr

/-- A bucket takes in the client offsets up to its bound. -/
def Bucket.TakesIn (b : Bucket) (client : Int32) : Prop :=
  ∀ bound ∈ b.bound?, client ≤ bound

instance (b : Bucket) (client : Int32) : Decidable (b.TakesIn client) :=
  match h : b.bound? with
  | none => isTrue (by simp [Bucket.TakesIn, h])
  | some bound => decidable_of_iff (client ≤ bound) (by simp [Bucket.TakesIn, h])

/-- A list of buckets in which only the last may be without a bound. -/
structure Buckets where
  toList : List Bucket
  ne_nil : toList ≠ []
  bounded : ∀ b ∈ toList.dropLast, b.bound?.isSome = true
  deriving DecidableEq

namespace Buckets

/-- Why a list is refused. -/
inductive Error where
  /-- A bucket is written with neither one number nor two. -/
  | wrongLength (count : Nat)
  /-- There is no bucket. -/
  | noBuckets
  /-- A bucket before the last has no bound. -/
  | unboundedBeforeLast
  deriving DecidableEq, Repr

/-- The message of an error. -/
def Error.message : Error → String
  | wrongLength count => s!"Invalid offset map: bucket needs 1 or 2 values, got {count}"
  | noBuckets => "Invalid offset map: no buckets"
  | unboundedBeforeLast => "Invalid offset map: only the last bucket may omit its upper bound"

/-- The buckets of a list, if it has some and only the last may be without a bound. -/
def ofList (buckets : List Bucket) : Except Error Buckets :=
  if h : buckets = [] then .error .noBuckets
  else if h' : ∀ b ∈ buckets.dropLast, b.bound?.isSome = true then .ok ⟨buckets, h, h'⟩
  else .error .unboundedBeforeLast

/-- A bucket written as its target alone, or as its target and its bound. -/
def bucketOfEntry : List Int32 → Except Error Bucket
  | [target] => .ok ⟨target, none⟩
  | [target, bound] => .ok ⟨target, some bound⟩
  | entry => .error (.wrongLength entry.length)

/-- The buckets that a list of entries writes. An entry of a wrong length is found before the other errors. -/
def ofEntries (entries : List (List Int32)) : Except Error Buckets := do
  ofList (← entries.mapM bucketOfEntry)

/-- The target offset of a client, if a bucket takes it in. -/
def target? (buckets : Buckets) (client : Int32) : Option Int32 :=
  (buckets.toList.find? (fun b => b.TakesIn client)).map Bucket.target

/-- Buckets made from a list have that list. -/
theorem toList_of_ofList {list : List Bucket} {buckets : Buckets} (h : ofList list = .ok buckets) :
    buckets.toList = list := by
  unfold ofList at h
  split at h
  · cases h
  · split at h
    · simp only [Except.ok.injEq] at h
      rw [← h]
    · cases h

/-- The list of any buckets is accepted, and makes these buckets again. -/
theorem ofList_toList (buckets : Buckets) : ofList buckets.toList = .ok buckets := by
  rw [ofList, dif_neg buckets.ne_nil, dif_pos buckets.bounded]

end Buckets

end Recurrence.Offset
