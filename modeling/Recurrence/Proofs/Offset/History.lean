import Mathlib.Data.List.Induction
import Mathlib.Tactic.ByContra
import Recurrence.Offset.Resolve
import Recurrence.Proofs.Text

/-!
# Offsets: the history of a catalog

A catalog is built from the empty one by two steps: buckets are put under a name, or another catalog is merged into it. Whatever
the steps were, a name has the buckets supplied for it last (`get?_ofHistory_eq_some_iff`). So a specification is resolved by what
the history supplied under it, once it is known not to be the client's own offset, and otherwise by the number that it writes
(`resolve_ofHistory`).
-/

namespace Recurrence.Offset

/-! ### Literal offsets -/

/-- A text reads as minutes exactly if it writes an integer of 32 bits, and then as that integer. -/
theorem minutes?_eq_some_iff {cs : List Char} {value : Int32} :
    minutes? cs = some value ↔ Text.IsSignedLiteral cs value.toInt := by
  unfold minutes?
  simp only [Option.map_eq_some_iff, Option.filter_eq_some_iff, decide_eq_true_eq, Text.signed?_eq_some_iff]
  constructor
  · rintro ⟨n, ⟨hliteral, hmin, hmax⟩, rfl⟩
    rwa [Int32.toInt_ofInt_of_le hmin (Int.lt_add_one_of_le hmax)]
  · intro hliteral
    exact ⟨value.toInt, ⟨hliteral, value.le_toInt, Int.le_of_lt_add_one value.toInt_lt⟩, Int32.ofInt_toInt value⟩

namespace Catalog

/-! ### Steps -/

/-- A step in the history of a catalog. -/
inductive Step where
  /-- Buckets are put under a name, in exchange for those that are there. -/
  | exchange (name : String) (buckets : Buckets)
  /-- Another catalog is merged in. -/
  | merge (incoming : Catalog)

/-- The catalog after a step. -/
def after (catalog : Catalog) : Step → Catalog
  | .exchange name buckets => (catalog.exchange name buckets).2
  | .merge incoming => catalog.merge incoming

/-- The catalog that a history leads to. -/
def ofHistory (history : List Step) : Catalog :=
  history.foldl after empty

/-- A step supplies buckets for a name. -/
def Step.Supplies (step : Step) (name : String) (buckets : Buckets) : Prop :=
  match step with
  | .exchange name' buckets' => name' = name ∧ buckets' = buckets
  | .merge incoming => incoming.get? name = some buckets

/-- A step leaves a name alone when it supplies no buckets for it. -/
def Step.LeavesAlone (step : Step) (name : String) : Prop :=
  ∀ buckets, ¬step.Supplies name buckets

/-- Buckets are supplied last for a name when the steps after that leave the name alone. -/
def SuppliedLast (history : List Step) (name : String) (buckets : Buckets) : Prop :=
  ∃ before step later, history = before ++ step :: later ∧ step.Supplies name buckets ∧ ∀ s ∈ later, s.LeavesAlone name

/-- A name is ever supplied when some step supplies buckets for it. -/
def EverSupplied (history : List Step) (name : String) : Prop :=
  ∃ step ∈ history, ¬step.LeavesAlone name

/-- After a step, a name has the buckets that the step supplies. -/
theorem get?_after_of_supplies {step : Step} {name : String} {buckets : Buckets} (h : step.Supplies name buckets)
    (catalog : Catalog) : (catalog.after step).get? name = some buckets := by
  cases step with
  | exchange name' buckets' =>
    obtain ⟨rfl, rfl⟩ := h
    rw [after, exchange, get?_insert, if_pos rfl]
  | merge incoming =>
    have hincoming : incoming.get? name = some buckets := h
    rw [after, get?_merge, hincoming, Option.some_or]

/-- A step changes nothing under a name that it leaves alone. -/
theorem get?_after_of_leavesAlone {step : Step} {name : String} (h : step.LeavesAlone name) (catalog : Catalog) :
    (catalog.after step).get? name = catalog.get? name := by
  cases step with
  | exchange name' buckets' =>
    have hname : name' ≠ name := fun heq => h buckets' ⟨heq, rfl⟩
    rw [after, exchange, get?_insert, if_neg hname]
  | merge incoming =>
    have hincoming : incoming.get? name = none := Option.eq_none_iff_forall_ne_some.mpr h
    rw [after, get?_merge, hincoming, Option.none_or]

/-! ### Histories -/

/-- Steps that leave a name alone change nothing under it. -/
theorem get?_foldl_after_of_leavesAlone {steps : List Step} {name : String} (h : ∀ s ∈ steps, s.LeavesAlone name)
    (catalog : Catalog) : (steps.foldl after catalog).get? name = catalog.get? name := by
  induction steps generalizing catalog with
  | nil => rfl
  | cons step steps ih =>
    obtain ⟨hstep, hsteps⟩ := List.forall_mem_cons.mp h
    rw [List.foldl_cons, ih hsteps, get?_after_of_leavesAlone hstep]

/-- A name that is ever supplied is supplied last with some buckets. The induction is from the last step on. -/
theorem EverSupplied.exists_suppliedLast {history : List Step} {name : String} (h : EverSupplied history name) :
    ∃ buckets, SuppliedLast history name buckets := by
  induction history using List.reverseRecOn with
  | nil =>
    obtain ⟨step, hmem, -⟩ := h
    cases hmem
  | append_singleton history step ih =>
    by_cases hstep : step.LeavesAlone name
    · have hearlier : EverSupplied history name := by
        obtain ⟨s, hs, hsupplies⟩ := h
        rcases List.mem_append.mp hs with hs | hs
        · exact ⟨s, hs, hsupplies⟩
        · rw [List.mem_singleton.mp hs] at hsupplies
          exact absurd hstep hsupplies
      obtain ⟨buckets, before, s, later, rfl, hsupplies, hlater⟩ := ih hearlier
      refine ⟨buckets, before, s, later ++ [step], by simp, hsupplies, fun t ht => ?_⟩
      rcases List.mem_append.mp ht with ht | ht
      · exact hlater t ht
      · rwa [List.mem_singleton.mp ht]
    · obtain ⟨buckets, hsupplies⟩ := not_forall_not.mp hstep
      exact ⟨buckets, history, step, [], rfl, hsupplies, by simp⟩

/-- A name has the buckets supplied for it last. -/
theorem SuppliedLast.get?_eq {history : List Step} {name : String} {buckets : Buckets}
    (h : SuppliedLast history name buckets) : (ofHistory history).get? name = some buckets := by
  obtain ⟨before, step, later, rfl, hsupplies, hlater⟩ := h
  rw [ofHistory, List.foldl_append, List.foldl_cons, get?_foldl_after_of_leavesAlone hlater,
    get?_after_of_supplies hsupplies]

/-- A name has no buckets exactly if none were ever supplied for it. -/
theorem get?_ofHistory_eq_none_iff {history : List Step} {name : String} :
    (ofHistory history).get? name = none ↔ ¬EverSupplied history name := by
  constructor
  · intro h hever
    obtain ⟨buckets, hlast⟩ := hever.exists_suppliedLast
    rw [hlast.get?_eq] at h
    cases h
  · intro h
    have hleaves : ∀ s ∈ history, s.LeavesAlone name := fun s hs => not_not.mp fun hsupplies => h ⟨s, hs, hsupplies⟩
    rw [ofHistory, get?_foldl_after_of_leavesAlone hleaves, get?_empty]

/-- A name has exactly the buckets supplied for it last. -/
theorem get?_ofHistory_eq_some_iff {history : List Step} {name : String} {buckets : Buckets} :
    (ofHistory history).get? name = some buckets ↔ SuppliedLast history name buckets := by
  constructor
  · intro h
    have hever : EverSupplied history name := by
      by_contra hnever
      rw [get?_ofHistory_eq_none_iff.mpr hnever] at h
      cases h
    obtain ⟨buckets', hlast⟩ := hever.exists_suppliedLast
    rw [hlast.get?_eq, Option.some.injEq] at h
    rwa [← h]
  · exact SuppliedLast.get?_eq

/-! ### Merging -/

/-- Of three catalogs, it does not matter which two are merged first. -/
theorem merge_assoc (a b c : Catalog) : (a.merge b).merge c = a.merge (b.merge c) := by
  ext1 name
  simp only [get?_merge, Option.or_assoc]

/-- A catalog that is merged into itself stays as it is. -/
theorem merge_self (a : Catalog) : a.merge a = a := by
  ext1 name
  rw [get?_merge, Option.or_self]

/-- Merging into the empty catalog gives what is merged. -/
theorem empty_merge (a : Catalog) : empty.merge a = a := by
  ext1 name
  rw [get?_merge, get?_empty, Option.or_none]

/-- Merging the empty catalog changes nothing. -/
theorem merge_empty (a : Catalog) : a.merge empty = a := by
  ext1 name
  rw [get?_merge, get?_empty, Option.none_or]

/-! ### Looking up -/

/-- A target is looked up in the buckets that the name has. -/
theorem target_eq_ok_iff {catalog : Catalog} {name : String} {client target : Int32} :
    catalog.target name client = .ok target ↔
      ∃ buckets, catalog.get? name = some buckets ∧ buckets.target? client = some target := by
  rw [← Option.bind_eq_some_iff, Catalog.target]
  cases (catalog.get? name).bind (·.target? client) <;> simp

/-! ### Resolving -/

/-- A specification that is a name of the catalog is resolved by looking it up, and a miss is offset 0. -/
theorem resolve_of_get?_eq_some {specification : String} {catalog : Catalog} {buckets : Buckets} (client : Int32)
    (hown : Text.trim specification.toList ≠ clientOwn)
    (hget : catalog.get? (String.ofList (Text.trim specification.toList)) = some buckets) :
    resolve specification client catalog =
      (catalog.target (String.ofList (Text.trim specification.toList)) client).toOption.getD 0 := by
  rw [target, hget, Option.bind_some, resolve, if_neg hown, hget]
  cases htarget : buckets.target? client <;> simp only [htarget] <;> rfl

/-- A specification that is no name of the catalog is resolved by the number that it writes. -/
theorem resolve_of_get?_eq_none {specification : String} {catalog : Catalog} (client : Int32)
    (hown : Text.trim specification.toList ≠ clientOwn)
    (hget : catalog.get? (String.ofList (Text.trim specification.toList)) = none) :
    resolve specification client catalog = (minutes? (Text.trim specification.toList)).getD 0 := by
  rw [resolve, if_neg hown, hget]

/-- A text names the client's own offset exactly if it is made of the characters that stand for it. -/
theorem ofList_eq_auto_iff {cs : List Char} : String.ofList cs = "auto" ↔ cs = clientOwn := by
  rw [← String.toList_inj, String.toList_ofList]
  rfl

/-- A catalog of any history keeps what its steps supplied, and specifications are resolved by it.
1. A name has the buckets supplied for it last, and none if none ever were.
2. A step changes nothing under the names that it leaves alone.
3. An exchange gives back the buckets supplied last for the name, none if none ever were, and puts others in their place.
4. Merging is associative and idempotent, and the empty catalog is neutral on both sides of it.
5. A look-up goes to the buckets supplied last for the name.
6. What counts of a specification is what is left of it without the blanks around it. If this is `auto`, it is the client's own
   offset, whatever names the catalog has.
7. Otherwise, if it was ever supplied as a name, it is what is looked up under that name, and 0 on a miss.
8. Otherwise it is the integer of 32 bits that it writes, and 0 if it writes none, so it is the same for every client. -/
theorem resolve_ofHistory (history : List Step) (specification : String) :
    let catalog := ofHistory history
    let trimmed := Text.trim specification.toList
    let own := String.ofList trimmed
    ((∀ name buckets, catalog.get? name = some buckets ↔ SuppliedLast history name buckets) ∧
      ∀ name, catalog.get? name = none ↔ ¬EverSupplied history name) ∧
    (∀ (step : Step) name, step.LeavesAlone name → (catalog.after step).get? name = catalog.get? name) ∧
    (∀ name buckets,
      (∀ old, (catalog.exchange name buckets).1 = some old ↔ SuppliedLast history name old) ∧
      ((catalog.exchange name buckets).1 = none ↔ ¬EverSupplied history name) ∧
      (catalog.exchange name buckets).2.get? name = some buckets) ∧
    (∀ a b c : Catalog, (a.merge b).merge c = a.merge (b.merge c) ∧ a.merge a = a ∧ empty.merge a = a ∧ a.merge empty = a) ∧
    (∀ name client target, catalog.target name client = .ok target ↔
      ∃ buckets, SuppliedLast history name buckets ∧ buckets.target? client = some target) ∧
    (Text.Trims specification.toList trimmed ∧ (own = "auto" → ∀ client, resolve specification client catalog = client)) ∧
    (own ≠ "auto" → EverSupplied history own → ∀ client,
      resolve specification client catalog = (catalog.target own client).toOption.getD 0) ∧
    (own ≠ "auto" → ¬EverSupplied history own →
      (∀ value : Int32, Text.IsSignedLiteral trimmed value.toInt → ∀ client, resolve specification client catalog = value) ∧
      ((∀ value : Int32, ¬Text.IsSignedLiteral trimmed value.toInt) → ∀ client, resolve specification client catalog = 0) ∧
      ∀ client client', resolve specification client catalog = resolve specification client' catalog) := by
  intro catalog trimmed own
  have hexchange : ∀ name buckets, (catalog.exchange name buckets).2.get? name = some buckets := by
    intro name buckets
    have hsupplies : (Step.exchange name buckets).Supplies name buckets := ⟨rfl, rfl⟩
    exact get?_after_of_supplies hsupplies catalog
  refine ⟨⟨fun name buckets => get?_ofHistory_eq_some_iff, fun name => get?_ofHistory_eq_none_iff⟩,
    fun step name h => get?_after_of_leavesAlone h catalog, fun name buckets => ⟨fun old => get?_ofHistory_eq_some_iff,
      get?_ofHistory_eq_none_iff, hexchange name buckets⟩,
    fun a b c => ⟨merge_assoc a b c, merge_self a, empty_merge a, merge_empty a⟩, ?_, ⟨Text.trims_trim _, ?_⟩, ?_, ?_⟩
  · intro name client target
    simp only [target_eq_ok_iff, catalog, get?_ofHistory_eq_some_iff]
  · intro hown client
    rw [resolve, if_pos (ofList_eq_auto_iff.mp hown)]
  · intro hown hever client
    obtain ⟨buckets, hlast⟩ := hever.exists_suppliedLast
    exact resolve_of_get?_eq_some client (mt ofList_eq_auto_iff.mpr hown) hlast.get?_eq
  · intro hown hnever
    have hresolve : ∀ client, resolve specification client catalog = (minutes? trimmed).getD 0 := fun client =>
      resolve_of_get?_eq_none client (mt ofList_eq_auto_iff.mpr hown) (get?_ofHistory_eq_none_iff.mpr hnever)
    refine ⟨fun value hliteral client => ?_, fun hnone client => ?_, fun client client' => ?_⟩
    · rw [hresolve, minutes?_eq_some_iff.mpr hliteral, Option.getD_some]
    · have hminutes : minutes? trimmed = none :=
        Option.eq_none_iff_forall_ne_some.mpr fun value hvalue => hnone value (minutes?_eq_some_iff.mp hvalue)
      rw [hresolve, hminutes, Option.getD_none]
    · rw [hresolve, hresolve]

end Catalog

end Recurrence.Offset
