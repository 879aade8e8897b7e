import Mathlib.Tactic.ByContra
import Mathlib.Tactic.Push
import Recurrence.Offset.Buckets

/-!
# Offsets: the clients that buckets serve

A client is served by the first bucket that takes it in (`Buckets.Serves`), and its target is that of this bucket
(`target?_eq_some_iff`). What takes in a client takes in every client below it, so buckets serve the clients up to some offset and
miss those above, in whatever order their bounds are. The check of `Buckets.ofList` lets only the last bucket be without a bound,
so the misses are known from the last bucket and the bounds alone. Bounds that ascend cut the offsets into one stretch for each
bucket (`ofList_coverage`).
-/

namespace Recurrence.Offset

/-! ### One bucket -/

/-- A bucket that takes in a client takes in every client below it. -/
theorem Bucket.TakesIn.mono {b : Bucket} {client client' : Int32} (h : b.TakesIn client') (hle : client ≤ client') :
    b.TakesIn client :=
  fun bound hbound => Int32.le_trans hle (h bound hbound)

/-- A bucket does not take in the clients above its bound. -/
theorem Bucket.not_takesIn_iff {b : Bucket} {client : Int32} :
    ¬b.TakesIn client ↔ ∃ bound, b.bound? = some bound ∧ bound < client := by
  simp only [Bucket.TakesIn, not_forall, Int32.not_le, Option.mem_def, exists_prop]

namespace Buckets

/-! ### The first bucket -/

/-- The bucket `b`, at index `i` of a list, serves a client: it takes the client in, and no bucket before it does. -/
structure Serves (list : List Bucket) (client : Int32) (i : Nat) (b : Bucket) : Prop where
  bucket : list[i]? = some b
  takesIn : b.TakesIn client
  first : ∀ j < i, ∀ b', list[j]? = some b' → ¬b'.TakesIn client

/-- The first bucket that is found is the one that serves the client. -/
theorem find?_eq_some_iff_serves {list : List Bucket} {client : Int32} {b : Bucket} :
    list.find? (fun b => b.TakesIn client) = some b ↔ ∃ i, Serves list client i b := by
  rw [List.find?_eq_some_iff_getElem]
  constructor
  · rintro ⟨htakes, i, hi, hb, hfirst⟩
    refine ⟨i, List.getElem?_eq_some_iff.mpr ⟨hi, hb⟩, of_decide_eq_true htakes, fun j hj b' hb' => ?_⟩
    obtain ⟨_, rfl⟩ := List.getElem?_eq_some_iff.mp hb'
    simpa using hfirst j hj
  · rintro ⟨i, hserves⟩
    obtain ⟨hi, hb⟩ := List.getElem?_eq_some_iff.mp hserves.bucket
    refine ⟨decide_eq_true hserves.takesIn, i, hi, hb, fun j hj => ?_⟩
    simpa using hserves.first j hj _ (List.getElem?_eq_getElem _)

/-- The target of a client is that of the bucket that serves it. -/
theorem target?_eq_some_iff {buckets : Buckets} {client target : Int32} :
    buckets.target? client = some target ↔ ∃ i b, Serves buckets.toList client i b ∧ b.target = target := by
  unfold target?
  rw [Option.map_eq_some_iff]
  constructor
  · rintro ⟨b, hb, htarget⟩
    obtain ⟨i, hserves⟩ := find?_eq_some_iff_serves.mp hb
    exact ⟨i, b, hserves, htarget⟩
  · rintro ⟨i, b, hserves, htarget⟩
    exact ⟨b, find?_eq_some_iff_serves.mpr ⟨i, hserves⟩, htarget⟩

/-- A client has no target exactly if it is above the bound of every bucket. -/
theorem target?_eq_none_iff {buckets : Buckets} {client : Int32} :
    buckets.target? client = none ↔ ∀ b ∈ buckets.toList, ∃ bound, b.bound? = some bound ∧ bound < client := by
  simp only [target?, Option.map_eq_none_iff, List.find?_eq_none, decide_eq_true_eq, Bucket.not_takesIn_iff]

/-- Where a bucket takes in the client, that bucket or one before it serves the client. -/
theorem exists_serves {list : List Bucket} {client : Int32} {j : Nat} {b' : Bucket} (hb' : list[j]? = some b')
    (htakes : b'.TakesIn client) : ∃ i ≤ j, ∃ b, Serves list client i b := by
  induction j using Nat.strongRecOn generalizing b' with
  | ind j ih =>
    by_cases hfirst : ∀ k < j, ∀ b, list[k]? = some b → ¬b.TakesIn client
    · exact ⟨j, Nat.le_refl j, b', hb', htakes, hfirst⟩
    · push Not at hfirst
      obtain ⟨k, hk, b, hb, hearlier⟩ := hfirst
      obtain ⟨i, hi, hserves⟩ := ih k hk hb hearlier
      exact ⟨i, Nat.le_trans hi (Nat.le_of_lt hk), hserves⟩

/-- A client below a served one is served, by the same bucket or by one before it. -/
theorem Serves.mono {list : List Bucket} {client client' : Int32} {j : Nat} {b' : Bucket} (h : Serves list client' j b')
    (hle : client ≤ client') : ∃ i ≤ j, ∃ b, Serves list client i b :=
  exists_serves h.bucket (h.takesIn.mono hle)

/-! ### The bounds -/

/-- A bucket that is not the last has a bound. -/
theorem exists_bound_of_lt {buckets : Buckets} {i j : Nat} {b b' : Bucket} (hij : i < j)
    (hb : buckets.toList[i]? = some b) (hb' : buckets.toList[j]? = some b') : ∃ bound, b.bound? = some bound := by
  obtain ⟨hj, -⟩ := List.getElem?_eq_some_iff.mp hb'
  have hmem : b ∈ buckets.toList.dropLast := by
    refine List.mem_of_getElem? (i := i) ?_
    rw [List.getElem?_dropLast, if_pos (by omega), hb]
  exact Option.isSome_iff_exists.mp (buckets.bounded b hmem)

/-- A list of buckets ends with one of them. -/
theorem exists_getLast? (buckets : Buckets) : ∃ last, buckets.toList.getLast? = some last :=
  Option.isSome_iff_exists.mp (List.getLast?_isSome.mpr buckets.ne_nil)

/-- Every bucket has a bound when the last one has. -/
theorem exists_bound_of_mem {buckets : Buckets} {last b : Bucket} (hlast : buckets.toList.getLast? = some last)
    (hbound : last.bound?.isSome = true) (hb : b ∈ buckets.toList) : ∃ bound, b.bound? = some bound := by
  obtain ⟨i, hi⟩ := List.mem_iff_getElem?.mp hb
  rw [List.getLast?_eq_getElem?] at hlast
  obtain ⟨hlt, -⟩ := List.getElem?_eq_some_iff.mp hi
  rcases Nat.lt_or_ge i (buckets.toList.length - 1) with hbefore | hend
  · exact exists_bound_of_lt hbefore hi hlast
  · have hi' : i = buckets.toList.length - 1 := by omega
    rw [hi', hlast, Option.some.injEq] at hi
    rw [← hi]
    exact Option.isSome_iff_exists.mp hbound

/-- Clients without a target are those above every bound, if the last bucket has a bound too. -/
theorem target?_eq_none_iff_last {buckets : Buckets} {client : Int32} :
    buckets.target? client = none ↔
      (∃ last ∈ buckets.toList.getLast?, last.bound?.isSome = true) ∧
        ∀ b ∈ buckets.toList, ∀ bound ∈ b.bound?, bound < client := by
  rw [target?_eq_none_iff]
  constructor
  · intro h
    obtain ⟨last, hlast⟩ := exists_getLast? buckets
    obtain ⟨bound, hbound, -⟩ := h last (List.mem_of_getLast? hlast)
    refine ⟨⟨last, hlast, by rw [hbound]; rfl⟩, fun b hb bound' hbound' => ?_⟩
    obtain ⟨bound'', hbound'', hlt⟩ := h b hb
    rw [Option.mem_def, hbound'', Option.some.injEq] at hbound'
    rwa [← hbound']
  · rintro ⟨⟨last, hlast, hbounded⟩, habove⟩ b hb
    obtain ⟨bound, hbound⟩ := exists_bound_of_mem hlast hbounded hb
    exact ⟨bound, hbound, habove b hb bound hbound⟩

/-- Every client has a target exactly if the last bucket has no bound, or some bound is the greatest offset there is. -/
theorem forall_target?_ne_none_iff {buckets : Buckets} :
    (∀ client, buckets.target? client ≠ none) ↔
      (∃ last ∈ buckets.toList.getLast?, last.bound? = none) ∨
        ∃ b ∈ buckets.toList, b.bound? = some Int32.maxValue := by
  constructor
  · intro h
    -- The greatest offset is the client to look at: it is above every other bound.
    have hgreatest := h Int32.maxValue
    rw [Ne, target?_eq_none_iff_last, not_and_or] at hgreatest
    rcases hgreatest with hlast | hbound
    · obtain ⟨last, hlast'⟩ := exists_getLast? buckets
      refine Or.inl ⟨last, hlast', ?_⟩
      by_contra hne
      exact hlast ⟨last, hlast', Option.isSome_iff_ne_none.mpr hne⟩
    · push Not at hbound
      obtain ⟨b, hb, bound, hbound, hge⟩ := hbound
      refine Or.inr ⟨b, hb, ?_⟩
      rw [Option.mem_def.mp hbound, Int32.le_antisymm (Int32.le_maxValue bound) (Int32.not_lt.mp hge)]
  · rintro (⟨last, hlast, hnone⟩ | ⟨b, hb, hbound⟩) client htarget
    · obtain ⟨bound, hbound, -⟩ := target?_eq_none_iff.mp htarget last (List.mem_of_getLast? hlast)
      rw [hnone] at hbound
      cases hbound
    · obtain ⟨bound, hbound', hlt⟩ := target?_eq_none_iff.mp htarget b hb
      rw [hbound, Option.some.injEq] at hbound'
      rw [← hbound'] at hlt
      exact Int32.not_lt.mpr (Int32.le_maxValue client) hlt

/-! ### Ascending bounds -/

/-- The bounds of buckets ascend when each is above those before it. -/
def BoundsAscend (list : List Bucket) : Prop :=
  (list.filterMap Bucket.bound?).Pairwise (· < ·)

instance (list : List Bucket) : Decidable (BoundsAscend list) :=
  inferInstanceAs (Decidable (List.Pairwise _ _))

/-- Bounds that ascend do so from index to index. -/
theorem BoundsAscend.lt {list : List Bucket} (h : BoundsAscend list) {i j : Nat} (hij : i < j) {b b' : Bucket}
    (hb : list[i]? = some b) (hb' : list[j]? = some b') {bound bound' : Int32} (hbound : b.bound? = some bound)
    (hbound' : b'.bound? = some bound') : bound < bound' := by
  obtain ⟨hi, rfl⟩ := List.getElem?_eq_some_iff.mp hb
  obtain ⟨hj, rfl⟩ := List.getElem?_eq_some_iff.mp hb'
  exact List.pairwise_iff_getElem.mp (List.pairwise_filterMap.mp h) i j hi hj hij bound hbound bound' hbound'

/-- With ascending bounds, a bucket serves the clients above the bound before its own and up to its own. -/
theorem serves_iff_of_boundsAscend {buckets : Buckets} (h : BoundsAscend buckets.toList) {i : Nat} {b : Bucket}
    (hb : buckets.toList[i]? = some b) (client : Int32) :
    Serves buckets.toList client i b ↔
      (∀ j b', i = j + 1 → buckets.toList[j]? = some b' → ∃ bound, b'.bound? = some bound ∧ bound < client) ∧
        ∀ bound ∈ b.bound?, client ≤ bound := by
  constructor
  · intro hserves
    refine ⟨fun j b' hj hb' => ?_, hserves.takesIn⟩
    exact Bucket.not_takesIn_iff.mp (hserves.first j (by omega) b' hb')
  · rintro ⟨habove, htakes⟩
    refine ⟨hb, htakes, fun j hj b' hb' => ?_⟩
    rw [Bucket.not_takesIn_iff]
    obtain ⟨k, rfl⟩ : ∃ k, i = k + 1 := ⟨i - 1, by omega⟩
    obtain ⟨hk, -⟩ := List.getElem?_eq_some_iff.mp hb
    have hprevious : buckets.toList[k]? = some buckets.toList[k] := List.getElem?_eq_getElem (by omega)
    obtain ⟨bound, hbound, hlt⟩ := habove k _ rfl hprevious
    rcases Nat.lt_or_ge j k with hjk | hjk
    · obtain ⟨bound', hbound'⟩ := exists_bound_of_lt hjk hb' hprevious
      exact ⟨bound', hbound', Int32.lt_trans (h.lt hjk hb' hprevious hbound' hbound) hlt⟩
    · have hj' : j = k := by omega
      subst hj'
      rw [hprevious, Option.some.injEq] at hb'
      rw [← hb']
      exact ⟨bound, hbound, hlt⟩

/-- A bucket without a bound serves the clients that no bucket before it serves. -/
theorem serves_iff_of_bound?_eq_none {list : List Bucket} {i : Nat} {b : Bucket} (hb : list[i]? = some b)
    (hnone : b.bound? = none) (client : Int32) :
    Serves list client i b ↔ ∀ j < i, ∀ b', ¬Serves list client j b' := by
  constructor
  · intro h j hj b' hserves
    exact h.first j hj b' hserves.bucket hserves.takesIn
  · intro h
    refine ⟨hb, fun bound hbound => ?_, fun j hj b' hb' htakes => ?_⟩
    · rw [hnone] at hbound
      cases hbound
    · obtain ⟨k, hk, b'', hserves⟩ := exists_serves hb' htakes
      exact h k (Nat.lt_of_le_of_lt hk hj) b'' hserves

/-! ### Coverage -/

/-- Buckets that are accepted serve their clients as follows, in whatever order their bounds are.
1. The target of a client is that of the bucket that serves it.
2. A client below a served one is served, by the same bucket or by one before it.
3. A client that is missed is above every client that is served.
4. A client is missed exactly if the last bucket has a bound and the client is above every bound.
5. No client is missed exactly if the last bucket has no bound or some bound is the greatest offset.
6. When the bounds ascend, a bucket serves the clients above the bound before its own and up to its own, and the one without a
   bound serves all that are left. -/
theorem ofList_coverage {list : List Bucket} {buckets : Buckets} (h : ofList list = .ok buckets) :
    (∀ client target, buckets.target? client = some target ↔ ∃ i b, Serves list client i b ∧ b.target = target) ∧
    (∀ client client' j b', client ≤ client' → Serves list client' j b' → ∃ i ≤ j, ∃ b, Serves list client i b) ∧
    (∀ client client', buckets.target? client = none → buckets.target? client' ≠ none → client' < client) ∧
    (∀ client, buckets.target? client = none ↔
      (∃ last ∈ list.getLast?, last.bound?.isSome = true) ∧ ∀ b ∈ list, ∀ bound ∈ b.bound?, bound < client) ∧
    ((∀ client, buckets.target? client ≠ none) ↔
      (∃ last ∈ list.getLast?, last.bound? = none) ∨ ∃ b ∈ list, b.bound? = some Int32.maxValue) ∧
    (BoundsAscend list → ∀ i b, list[i]? = some b → ∀ client,
      (Serves list client i b ↔
        (∀ j b', i = j + 1 → list[j]? = some b' → ∃ bound, b'.bound? = some bound ∧ bound < client) ∧
          ∀ bound ∈ b.bound?, client ≤ bound) ∧
      (b.bound? = none → (Serves list client i b ↔ ∀ j < i, ∀ b', ¬Serves list client j b'))) := by
  have hlist := toList_of_ofList h
  subst hlist
  refine ⟨fun client target => target?_eq_some_iff, fun client client' j b' hle hserves => hserves.mono hle, ?_,
    fun client => target?_eq_none_iff_last, forall_target?_ne_none_iff, fun hascend i b hb client => ⟨?_, fun hnone => ?_⟩⟩
  · intro client client' hmiss hhit
    by_contra hge
    rw [Int32.not_lt] at hge
    obtain ⟨target, htarget⟩ := Option.ne_none_iff_exists'.mp hhit
    obtain ⟨j, b', hserves, -⟩ := target?_eq_some_iff.mp htarget
    obtain ⟨i, -, b, hserves'⟩ := hserves.mono hge
    have hsome := target?_eq_some_iff.mpr ⟨i, b, hserves', rfl⟩
    rw [hmiss] at hsome
    cases hsome
  · exact serves_iff_of_boundsAscend hascend hb client
  · exact serves_iff_of_bound?_eq_none hb hnone client

/-- Bounds that descend: the last bucket serves nobody, and the clients above both bounds are missed. -/
def descending : Buckets :=
  ⟨[⟨-300, some 0⟩, ⟨60, some (-180)⟩], by decide, by decide⟩

/-- Bounds that ascend up to the greatest offset: each client is served by one of the two buckets. -/
def ascending : Buckets :=
  ⟨[⟨-300, some (-180)⟩, ⟨60, some Int32.maxValue⟩], by decide, by decide⟩

/-- Descending bounds miss the clients above the greatest of them. Ascending bounds up to the greatest offset miss nobody, and the
last bucket serves the clients above the bound before its own. -/
theorem ofList_coverage_descending :
    ofList descending.toList = .ok descending ∧ ofList ascending.toList = .ok ascending ∧
      (∀ client, descending.target? client = none ↔ 0 < client) ∧ (∀ client, ascending.target? client ≠ none) ∧
      ∀ client, Serves ascending.toList client 1 ⟨60, some Int32.maxValue⟩ ↔ -180 < client := by
  have hdescending := ofList_toList descending
  have hascending := ofList_toList ascending
  obtain ⟨-, -, -, hmiss, -, -⟩ := ofList_coverage hdescending
  obtain ⟨-, -, -, -, hall, hserves⟩ := ofList_coverage hascending
  refine ⟨hdescending, hascending, fun client => ?_, hall.mpr (Or.inr ⟨_, List.mem_cons_of_mem _ List.mem_cons_self, rfl⟩), ?_⟩
  · rw [hmiss]
    constructor
    · rintro ⟨-, habove⟩
      exact habove ⟨-300, some 0⟩ List.mem_cons_self 0 rfl
    · intro hlt
      refine ⟨⟨⟨60, some (-180)⟩, rfl, rfl⟩, fun b hb bound hbound => ?_⟩
      simp only [descending, List.mem_cons, List.not_mem_nil, or_false] at hb
      rcases hb with rfl | rfl <;> cases hbound
      · exact hlt
      · exact Int32.lt_trans (by decide) hlt
  · intro client
    rw [(hserves (by decide) 1 _ rfl client).1]
    constructor
    · rintro ⟨habove, -⟩
      obtain ⟨bound, hbound, hlt⟩ := habove 0 _ rfl rfl
      cases hbound
      exact hlt
    · intro hlt
      refine ⟨fun j b' hj hb' => ?_, fun bound hbound => ?_⟩
      · obtain rfl : j = 0 := by omega
        cases hb'
        exact ⟨-180, rfl, hlt⟩
      · cases hbound
        exact Int32.le_maxValue client

end Buckets

end Recurrence.Offset
