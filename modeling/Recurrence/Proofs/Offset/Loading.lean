import Recurrence.Json.Catalog
import Recurrence.Proofs.Json.Nested

/-!
# Offsets: loading a catalog

Entries are made into buckets exactly if they are well formed, and otherwise they are refused for the reason that comes first
(`Buckets.ofEntries_cases`). A text of pairs of names and entries is loaded pair by pair in the order of the text. So one pair
that is not well formed refuses the whole text, also when its name comes again later, and the last pair of a name counts
(`ofJson_pairs`).
-/

namespace Recurrence.Offset

open Json

/-- A bucket as it is written: its target, and its bound if it has one. -/
def Bucket.entry (b : Bucket) : List Int32 :=
  b.target :: b.bound?.toList

namespace Buckets

/-- An entry writes a target, or a target and a bound. -/
def IsEntry (entry : List Int32) : Prop :=
  entry.length = 1 ∨ entry.length = 2

/-- Entries that make buckets: there are some, and each before the last has a bound. -/
structure WellFormed (entries : List (List Int32)) : Prop where
  ne_nil : entries ≠ []
  isEntry : ∀ entry ∈ entries, IsEntry entry
  bounded : ∀ entry ∈ entries.dropLast, entry.length = 2

/-- The reason for which entries are refused. A wrong length is reported before the other reasons, and the first wrong length
before later ones. -/
inductive Refused : List (List Int32) → Error → Prop where
  | wrongLength {before after : List (List Int32)} {entry : List Int32} : (∀ e ∈ before, IsEntry e) → ¬IsEntry entry →
      Refused (before ++ entry :: after) (.wrongLength entry.length)
  | noBuckets : Refused [] .noBuckets
  | unboundedBeforeLast {entries : List (List Int32)} {entry : List Int32} : (∀ e ∈ entries, IsEntry e) →
      entry ∈ entries.dropLast → entry.length = 1 → Refused entries .unboundedBeforeLast

/-- Entries that are refused are not well formed. -/
theorem Refused.not_wellFormed {entries : List (List Int32)} {reason : Error} (h : Refused entries reason) :
    ¬WellFormed entries := by
  intro hwell
  cases h with
  | wrongLength _ hentry => exact hentry (hwell.isEntry _ (by simp))
  | noBuckets => exact hwell.ne_nil rfl
  | unboundedBeforeLast _ hmem hlength =>
    have hbounded := hwell.bounded _ hmem
    omega

/-- A bucket is written with one number or two. -/
theorem isEntry_entry (b : Bucket) : IsEntry b.entry := by
  cases hbound : b.bound? <;> simp [IsEntry, Bucket.entry, hbound]

/-- A bucket is written with two numbers exactly if it has a bound. -/
theorem length_entry_eq_two_iff (b : Bucket) : b.entry.length = 2 ↔ b.bound?.isSome = true := by
  cases hbound : b.bound? <;> simp [Bucket.entry, hbound]

/-- An entry is read back as it was written, or it is of a wrong length. -/
theorem bucketOfEntry_cases (entry : List Int32) :
    (∃ b : Bucket, bucketOfEntry entry = .ok b ∧ b.entry = entry) ∨
    ¬IsEntry entry ∧ bucketOfEntry entry = .error (.wrongLength entry.length) := by
  match entry with
  | [] => exact Or.inr ⟨by simp [IsEntry], rfl⟩
  | [target] => exact Or.inl ⟨_, rfl, rfl⟩
  | [target, bound] => exact Or.inl ⟨_, rfl, rfl⟩
  | _ :: _ :: _ :: _ => exact Or.inr ⟨by simp [IsEntry], rfl⟩

/-- Entries are read back as they were written, or the first one of a wrong length is reported. -/
theorem mapM_bucketOfEntry_cases (entries : List (List Int32)) :
    (∃ buckets : List Bucket, entries.mapM bucketOfEntry = .ok buckets ∧ buckets.map Bucket.entry = entries) ∨
    ∃ before entry after, entries = before ++ entry :: after ∧ (∀ e ∈ before, IsEntry e) ∧ ¬IsEntry entry ∧
      entries.mapM bucketOfEntry = .error (.wrongLength entry.length) := by
  induction entries with
  | nil => exact Or.inl ⟨[], rfl, rfl⟩
  | cons head entries ih =>
    rw [List.mapM_cons]
    rcases bucketOfEntry_cases head with ⟨b, hb, hentry⟩ | ⟨hnot, hb⟩
    · rw [hb]
      rcases ih with ⟨buckets, hbuckets, hentries⟩ | ⟨before, entry, after, rfl, hbefore, hnot, herror⟩
      · exact Or.inl ⟨b :: buckets, by rw [hbuckets]; rfl, by rw [List.map_cons, hentry, hentries]⟩
      · refine Or.inr ⟨head :: before, entry, after, rfl, List.forall_mem_cons.mpr ⟨?_, hbefore⟩, hnot, by rw [herror]; rfl⟩
        rw [← hentry]
        exact isEntry_entry b
    · exact Or.inr ⟨[], head, entries, rfl, by simp, hnot, by rw [hb]; rfl⟩

/-- Entries make the buckets that they write, or they are refused. -/
theorem ofEntries_cases (entries : List (List Int32)) :
    (WellFormed entries ∧ ∃ buckets, ofEntries entries = .ok buckets ∧ buckets.toList.map Bucket.entry = entries) ∨
    ∃ reason, Refused entries reason ∧ ofEntries entries = .error reason := by
  unfold ofEntries
  rcases mapM_bucketOfEntry_cases entries with ⟨list, hlist, rfl⟩ | ⟨before, entry, after, rfl, hbefore, hnot, herror⟩
  · have hentries : ∀ e ∈ list.map Bucket.entry, IsEntry e := by
      intro e he
      obtain ⟨b, -, rfl⟩ := List.mem_map.mp he
      exact isEntry_entry b
    rw [hlist]
    show _ ∨ ∃ reason, _ ∧ ofList list = .error reason
    by_cases hnil : list = []
    · subst hnil
      exact Or.inr ⟨.noBuckets, Refused.noBuckets, rfl⟩
    · by_cases hbounded : ∀ b ∈ list.dropLast, b.bound?.isSome = true
      · refine Or.inl ⟨⟨by simpa using hnil, hentries, ?_⟩, ⟨list, hnil, hbounded⟩, ?_, rfl⟩
        · intro e he
          rw [← List.map_dropLast] at he
          obtain ⟨b, hb, rfl⟩ := List.mem_map.mp he
          exact (length_entry_eq_two_iff b).mpr (hbounded b hb)
        · show ofList list = _
          rw [ofList, dif_neg hnil, dif_pos hbounded]
      · obtain ⟨b, hb, hnone⟩ : ∃ b ∈ list.dropLast, b.bound?.isSome ≠ true := by simpa using hbounded
        have hmem : b.entry ∈ (list.map Bucket.entry).dropLast := by
          rw [← List.map_dropLast]
          exact List.mem_map_of_mem hb
        have hone : b.entry.length = 1 :=
          (isEntry_entry b).resolve_right fun htwo => hnone ((length_entry_eq_two_iff b).mp htwo)
        refine Or.inr ⟨.unboundedBeforeLast, Refused.unboundedBeforeLast hentries hmem hone, ?_⟩
        rw [ofList, dif_neg hnil, dif_neg hbounded]
  · rw [herror]
    exact Or.inr ⟨_, Refused.wrongLength hbefore hnot, rfl⟩

end Buckets

namespace Catalog

/-- Pairs of names and entries. -/
abbrev Pairs := List (String × List (List Int32))

/-- Buckets of a pair, added to a catalog. -/
def addPair (catalog : Catalog) (pair : String × List (List Int32)) : Except (Fault Buckets.Error) Catalog :=
  match Buckets.ofEntries pair.2 with
  | .ok buckets => .ok (catalog.insert pair.1 buckets)
  | .error reason => .error (.rejected reason)

/-- The object that lists pairs in their order. -/
def WritesPairs : List Char → Pairs → Prop :=
  WritesObject fun _ => WritesList (WritesList WritesInt32)

/-- Every list of pairs has a text. -/
theorem exists_writesText_pairs (pairs : Pairs) : ∃ text, WritesText WritesPairs text pairs := by
  have hentries : ∀ entries, ∃ cs, WritesList (WritesList WritesInt32) cs entries :=
    exists_writesList (exists_writesList fun value => exists_writesInt value.toInt)
  exact exists_writesText (exists_writesObject (fun _ => hentries) pairs)

/-! ### Reading the pairs -/

/-- The lists of buckets in an object are read by adding each pair to the catalog read so far. -/
theorem takesMembers_readBuckets :
    TakesMembers (fun catalog name => .ok (readBuckets catalog name)) (fun _ => WritesList (WritesList WritesInt32))
      fun catalog pair outcome => outcome = addPair catalog pair := by
  intro catalog name entries before cs rest hbefore hentries hrest
  have hread := takes_readInt32.readList.readList.gives (ε := Buckets.Error) hbefore hentries hrest
  refine ⟨_, ?_, rfl⟩
  show Gives rest (readBuckets catalog name _) _
  refine hread.bind_ok fun h => ?_
  unfold addPair
  cases Buckets.ofEntries entries with
  | ok buckets => exact Gives.ok _ h
  | error reason => exact Gives.error _

/-- A text of pairs is loaded by adding them one after the other. -/
theorem ofJson_eq_foldlM {pairs : Pairs} {text : String} (h : WritesText WritesPairs text pairs) :
    ofJson text = pairs.foldlM addPair empty := by
  obtain ⟨before, _, after, hbefore, ⟨inner, hinner, rfl⟩, hafter, htext⟩ := h
  obtain ⟨outcome, hread, hsteps⟩ := takesMembers_readBuckets.gives_readObject hinner after empty
  rw [← hsteps.eq_foldlM]
  refine readDocument_eq hafter ?_
  have hsplit : text.toList = before ++ '{' :: (inner ++ '}' :: after) := by simp [htext]
  rw [hsplit]
  refine Gives.atFirst rfl hbefore (by decide) fun _ => ?_
  rw [if_pos rfl]
  exact hread.map_same fun _ => ⟨rfl, rfl⟩

/-! ### Adding pairs -/

/-- Pairs that are all well formed are added, and each name then has the buckets of its last pair. The induction is on the pairs
for every catalog before them, since what a name had there counts only until a pair has that name. -/
theorem foldlM_addPair_of_wellFormed {pairs : Pairs} (h : ∀ pair ∈ pairs, Buckets.WellFormed pair.2) (catalog : Catalog) :
    ∃ catalog', pairs.foldlM addPair catalog = .ok catalog' ∧
      (∀ name, name ∉ pairs.map Prod.fst → catalog'.get? name = catalog.get? name) ∧
      ∀ before name entries after, pairs = before ++ (name, entries) :: after → name ∉ after.map Prod.fst →
        ∃ buckets, catalog'.get? name = some buckets ∧ buckets.toList.map Bucket.entry = entries := by
  induction pairs generalizing catalog with
  | nil =>
    refine ⟨catalog, rfl, fun name _ => rfl, fun before name entries after hpairs => ?_⟩
    exact absurd hpairs (by simp)
  | cons pair pairs ih =>
    obtain ⟨name₀, entries₀⟩ := pair
    obtain ⟨hpair, hpairs⟩ := List.forall_mem_cons.mp h
    obtain ⟨buckets₀, hbuckets, hentries⟩ :
        ∃ buckets, Buckets.ofEntries entries₀ = .ok buckets ∧ buckets.toList.map Bucket.entry = entries₀ := by
      rcases Buckets.ofEntries_cases entries₀ with ⟨-, hok⟩ | ⟨reason, hrefused, -⟩
      · exact hok
      · exact absurd hpair hrefused.not_wellFormed
    obtain ⟨catalog', hfold, habsent, hlast⟩ := ih hpairs (catalog.insert name₀ buckets₀)
    refine ⟨catalog', ?_, ?_, ?_⟩
    · rw [List.foldlM_cons, addPair, hbuckets]
      exact hfold
    · intro name hname
      rw [List.map_cons, List.mem_cons, not_or] at hname
      rw [habsent name hname.2, get?_insert, if_neg (Ne.symm hname.1)]
    · intro before name entries after hsplit hname
      cases before with
      | nil =>
        obtain ⟨⟨rfl, rfl⟩, rfl⟩ := by simpa using hsplit
        exact ⟨buckets₀, by rw [habsent _ hname, get?_insert, if_pos rfl], hentries⟩
      | cons _ before => exact hlast before name entries after (List.cons.inj hsplit).2 hname

/-- The first pair that is not well formed is the reason for which pairs are refused. -/
theorem foldlM_addPair_of_not_wellFormed {pairs : Pairs} (h : ¬∀ pair ∈ pairs, Buckets.WellFormed pair.2)
    (catalog : Catalog) :
    ∃ before name entries after reason, pairs = before ++ (name, entries) :: after ∧
      (∀ pair ∈ before, Buckets.WellFormed pair.2) ∧ Buckets.Refused entries reason ∧
      pairs.foldlM addPair catalog = .error (.rejected reason) := by
  induction pairs generalizing catalog with
  | nil => exact absurd (by simp) h
  | cons pair pairs ih =>
    obtain ⟨name₀, entries₀⟩ := pair
    rw [List.foldlM_cons, addPair]
    rcases Buckets.ofEntries_cases entries₀ with ⟨hwell, buckets, hbuckets, -⟩ | ⟨reason, hrefused, herror⟩
    · have hpairs : ¬∀ pair ∈ pairs, Buckets.WellFormed pair.2 :=
        fun hpairs => h (List.forall_mem_cons.mpr ⟨hwell, hpairs⟩)
      obtain ⟨before, name, entries, after, reason, rfl, hbefore, hrefused, hfold⟩ :=
        ih hpairs (catalog.insert name₀ buckets)
      refine ⟨(name₀, entries₀) :: before, name, entries, after, reason, rfl,
        List.forall_mem_cons.mpr ⟨hwell, hbefore⟩, hrefused, ?_⟩
      rw [hbuckets]
      exact hfold
    · refine ⟨[], name₀, entries₀, pairs, reason, rfl, by simp, hrefused, ?_⟩
      rw [herror]
      rfl

/-! ### Loading a text -/

/-- A text that lists pairs of names and entries is loaded exactly if every one of them is well formed. Then each name has the
buckets of its last pair, as they were written, and other names have none. Otherwise the text is refused for the reason of the
first pair that is not well formed. -/
theorem ofJson_pairs {pairs : Pairs} {text : String} (h : WritesText WritesPairs text pairs) :
    ((∃ catalog, ofJson text = .ok catalog) ↔ ∀ pair ∈ pairs, Buckets.WellFormed pair.2) ∧
    (∀ catalog, ofJson text = .ok catalog →
      (∀ name, name ∉ pairs.map Prod.fst → catalog.get? name = none) ∧
      ∀ before name entries after, pairs = before ++ (name, entries) :: after → name ∉ after.map Prod.fst →
        ∃ buckets, catalog.get? name = some buckets ∧ buckets.toList.map Bucket.entry = entries) ∧
    ((¬∀ pair ∈ pairs, Buckets.WellFormed pair.2) →
      ∃ before name entries after reason, pairs = before ++ (name, entries) :: after ∧
        (∀ pair ∈ before, Buckets.WellFormed pair.2) ∧ Buckets.Refused entries reason ∧
        ofJson text = .error (.rejected reason)) := by
  rw [ofJson_eq_foldlM h]
  by_cases hwell : ∀ pair ∈ pairs, Buckets.WellFormed pair.2
  · obtain ⟨catalog, hfold, habsent, hlast⟩ := foldlM_addPair_of_wellFormed hwell empty
    refine ⟨iff_of_true ⟨catalog, hfold⟩ hwell, ?_, fun hnot => absurd hwell hnot⟩
    intro catalog' hfold'
    rw [hfold] at hfold'
    cases hfold'
    exact ⟨fun name hname => by rw [habsent name hname, get?_empty], hlast⟩
  · have hrefused := foldlM_addPair_of_not_wellFormed hwell empty
    have herror : ∃ fault, pairs.foldlM addPair empty = .error fault := by
      obtain ⟨-, -, -, -, reason, -, -, -, hfold⟩ := hrefused
      exact ⟨_, hfold⟩
    obtain ⟨fault, hfold⟩ := herror
    refine ⟨iff_of_false ?_ hwell, ?_, fun _ => hrefused⟩
    · rintro ⟨catalog, hok⟩
      rw [hfold] at hok
      cases hok
    · intro catalog hok
      rw [hfold] at hok
      cases hok

/-- A name may come again, also written with an escape. Its last buckets count. -/
theorem ofJson_pairs_repeated :
    WritesText WritesPairs "\x7b\"a\":[[1]],\n\"\\u0061\":[[-1]]\x7d" [("a", [[1]]), ("a", [[-1]])] ∧
    ∃ catalog buckets, ofJson "\x7b\"a\":[[1]],\n\"\\u0061\":[[-1]]\x7d" = .ok catalog ∧ catalog.get? "a" = some buckets ∧
      buckets.toList.map Bucket.entry = [[-1]] := by
  have hlists : ∀ {cs value}, WritesInt32 cs value →
      WritesList (WritesList WritesInt32) ('[' :: ('[' :: cs ++ [']']) ++ [']']) [[value]] := by
    intro cs value hvalue
    have hlist : WritesList WritesInt32 ('[' :: cs ++ [']']) [value] :=
      ⟨_, Parts.some (Separated.last spaces_nil hvalue spaces_nil), by simp⟩
    exact ⟨_, Parts.some (Separated.last spaces_nil hlist spaces_nil), by simp⟩
  have hone : WritesInt32 ['1'] 1 := WritesInt.natural 1
  have hminus : WritesInt32 ['-', '1'] (-1) := WritesInt.negative (n := 1) (by decide)
  have hname : WritesString ['"', 'a', '"'] "a" :=
    ⟨['a'], WritesChars.cons (WritesChar.plain (by decide) (by decide) (by decide)) WritesChars.nil, rfl⟩
  have hunit : WritesUnit ['0', '0', '6', '1'] 'a'.toNat := ⟨rfl, [0, 0, 6, 1], by simp [IsHexDigit], rfl⟩
  have hescape : WritesString "\"\\u0061\"".toList "a" :=
    ⟨_, WritesChars.cons (WritesChar.unit hunit) WritesChars.nil, rfl⟩
  have hnewline : Spaces ['\n'] := List.all_eq_true.mp (by decide)
  have htext : WritesText WritesPairs "\x7b\"a\":[[1]],\n\"\\u0061\":[[-1]]\x7d" [("a", [[1]]), ("a", [[-1]])] := by
    have hfirst : WritesMember (fun _ => WritesList (WritesList WritesInt32)) "\"a\":[[1]]".toList ("a", [[1]]) :=
      WritesMember.mk hname spaces_nil spaces_nil (hlists hone)
    have hsecond : WritesMember (fun _ => WritesList (WritesList WritesInt32)) "\"\\u0061\":[[-1]]".toList ("a", [[-1]]) :=
      WritesMember.mk hescape spaces_nil spaces_nil (hlists hminus)
    exact ⟨[], _, [], spaces_nil, ⟨_, Parts.some (Separated.more spaces_nil hfirst spaces_nil
      (Separated.last hnewline hsecond spaces_nil)), rfl⟩, spaces_nil, rfl⟩
  obtain ⟨hloads, hlast, -⟩ := ofJson_pairs htext
  have hwell : ∀ pair ∈ [("a", [[1]]), ("a", [[-1]])], Buckets.WellFormed pair.2 := by
    intro pair hpair
    simp only [List.mem_cons, List.not_mem_nil, or_false] at hpair
    rcases hpair with rfl | rfl <;> constructor <;> simp [Buckets.IsEntry]
  obtain ⟨catalog, hok⟩ := hloads.mpr hwell
  obtain ⟨buckets, hget, hbuckets⟩ := (hlast catalog hok).2 [("a", [[1]])] "a" [[-1]] [] rfl (by simp)
  exact ⟨htext, catalog, buckets, hok, hget, hbuckets⟩

end Catalog

end Recurrence.Offset
