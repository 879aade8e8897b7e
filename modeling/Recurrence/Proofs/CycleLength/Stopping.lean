import Recurrence.Proofs.CycleLength.Reading

/-!
# Cycle lengths: where reading stops

A text is viable when it can still become a calculation. `Expects` gives the beginnings of phrases after which a factor must
follow, and such a beginning is viable (`Expects.exists_derives`). Reading stops at the first character after which the text is
no longer viable, or after it: where a factor is expected and none begins, at the parenthesis of a factor that is not closed,
or after a whole calculation. `StopsAt` says which of these is behind each error, and a text that cannot be read further has
stopped in one of these ways (`stopsAt_of_firstFailure?`).
-/

namespace Recurrence.CycleLength

open Text (Placed)

/-- A text is viable when it can be extended to a calculation. -/
def Viable (cs : List Char) : Prop :=
  ∃ more t, Derives .sum (cs ++ more) t

/-- Every parenthesis that a text opens is closed in it, and no other is closed. -/
inductive Balanced : List Char → Prop where
  | nil : Balanced []
  | other {c : Char} {cs : List Char} : c ≠ '(' → c ≠ ')' → Balanced cs → Balanced (c :: cs)
  | parens {cs ds : List Char} : Balanced cs → Balanced ds → Balanced ('(' :: cs ++ ')' :: ds)

/-- The characters after which a factor must follow. -/
def expectant : List Char :=
  ['+', '-', '*', '/', '(']

/-- The beginnings of a phrase after which a factor must follow. -/
inductive Expects : Phrase → List Char → Prop where
  | start : Expects .factor []
  | parens {cs : List Char} : Expects .sum cs → Expects .factor ('(' :: cs)
  | factor {cs : List Char} : Expects .factor cs → Expects .product cs
  | multiply {cs ds : List Char} {l : Tree} {c : Char} {op : Operator} : Derives .product cs l →
      Operator.multiplicative? c = some op → Expects .factor ds → Expects .product (cs ++ c :: ds)
  | product {cs : List Char} : Expects .product cs → Expects .sum cs
  | add {cs ds : List Char} {l : Tree} {c : Char} {op : Operator} : Derives .sum cs l →
      Operator.additive? c = some op → Expects .product ds → Expects .sum (cs ++ c :: ds)

/-- The inputs that begin with no factor, with the error at which reading one stops. -/
inductive NoFactor : List Placed → ReadError → Prop where
  | ended : NoFactor [] .unexpectedEnd
  | unexpected {c : Placed} {cs : List Placed} : c.char ≠ '(' → c.char.isDigit = false →
      NoFactor (c :: cs) (.unexpectedChar c.offset c.char)
  | unclosed {opening : Placed} {cs rest : List Placed} {t : Tree} : opening.char = '(' → Reads .sum cs t rest →
      t.IsComplete → NoOperator Operator.additive? rest → (∀ c ∈ rest.head?, c.char ≠ ')') →
      NoFactor (opening :: cs) (.unbalanced opening.offset)

/-! ### Parentheses -/

/-- Balanced texts one after the other are balanced. -/
theorem Balanced.append {cs ds : List Char} (h : Balanced cs) (h' : Balanced ds) : Balanced (cs ++ ds) := by
  induction h with
  | nil => exact h'
  | other hopen hclose _ ih => exact Balanced.other hopen hclose ih
  | @parens cs es hcs _ _ ih =>
    rw [List.append_assoc, List.cons_append]
    exact Balanced.parens hcs ih

/-- A character that is no parenthesis is balanced. -/
theorem balanced_singleton {c : Char} (hopen : c ≠ '(') (hclose : c ≠ ')') : Balanced [c] :=
  Balanced.other hopen hclose Balanced.nil

/-- Digits are balanced. -/
theorem balanced_of_isDigit {cs : List Char} (h : ∀ c ∈ cs, c.isDigit = true) : Balanced cs := by
  induction cs with
  | nil => exact Balanced.nil
  | cons c cs ih =>
    obtain ⟨hc, hcs⟩ := List.forall_mem_cons.mp h
    refine Balanced.other ?_ ?_ (ih hcs)
    · rintro rfl
      cases hc
    · rintro rfl
      cases hc

/-- Units and operators are balanced. -/
theorem balanced_of_isSome {α : Type} {f : Char → Option α} (hopen : f '(' = none) (hclose : f ')' = none) {c : Char} {a : α}
    (h : f c = some a) : Balanced [c] := by
  refine balanced_singleton ?_ ?_
  · rintro rfl
    rw [hopen] at h
    cases h
  · rintro rfl
    rw [hclose] at h
    cases h

/-- The phrases of the grammar are balanced. -/
theorem Derives.balanced {p : Phrase} {cs : List Char} {t : Tree} (h : Derives p cs t) : Balanced cs := by
  induction h with
  | number _ hdigits => exact balanced_of_isDigit hdigits
  | numberOfUnit _ hdigits hunit => exact (balanced_of_isDigit hdigits).append (balanced_of_isSome rfl rfl hunit)
  | parens _ ih => exact Balanced.parens ih Balanced.nil
  | factor _ ih => exact ih
  | multiply _ hop _ ihl ihr => exact ihl.append ((balanced_of_isSome rfl rfl hop).append ihr)
  | product _ ih => exact ih
  | add _ hop _ ihl ihr => exact ihl.append ((balanced_of_isSome rfl rfl hop).append ihr)

/-! ### Where a factor is expected -/

/-- With any factor after it, a beginning that expects one can be completed to a phrase. -/
theorem Expects.exists_derives {p : Phrase} {cs fs : List Char} {f : Tree} (h : Expects p cs) (hf : Derives .factor fs f) :
    ∃ more t, Derives p (cs ++ fs ++ more) t := by
  induction h with
  | start => exact ⟨[], f, by simpa using hf⟩
  | parens _ ih =>
    obtain ⟨more, t, ht⟩ := ih
    exact ⟨more ++ [')'], t, by simpa using Derives.parens ht⟩
  | factor _ ih =>
    obtain ⟨more, t, ht⟩ := ih
    exact ⟨more, t, Derives.factor ht⟩
  | multiply hl hop _ ih =>
    obtain ⟨more, t, ht⟩ := ih
    exact ⟨more, _, by simpa using Derives.multiply hl hop ht⟩
  | product _ ih =>
    obtain ⟨more, t, ht⟩ := ih
    exact ⟨more, t, Derives.product ht⟩
  | add hl hop _ ih =>
    obtain ⟨more, t, ht⟩ := ih
    exact ⟨more, _, by simpa using Derives.add hl hop ht⟩

/-- A digit is a factor. -/
theorem derives_zero : Derives .factor ['0'] (.number 0 .second) :=
  Derives.number (List.cons_ne_nil _ _) (List.all_eq_true.mp (by decide))

/-- A beginning that expects a factor is viable. -/
theorem Expects.viable {cs : List Char} (h : Expects .sum cs) : Viable cs := by
  obtain ⟨more, t, ht⟩ := h.exists_derives derives_zero
  exact ⟨'0' :: more, t, by simpa using ht⟩

/-- A beginning that expects a factor is empty, or ends with an operator or an opening parenthesis. -/
theorem Expects.getLast?_mem {p : Phrase} {cs : List Char} (h : Expects p cs) : ∀ c ∈ cs.getLast?, c ∈ expectant := by
  induction h with
  | start => simp
  | @parens cs _ ih =>
    cases cs with
    | nil => simp [expectant]
    | cons d ds => simpa using ih
  | factor _ ih => exact ih
  | @multiply cs ds l c op _ hop _ ih =>
    cases ds with
    | nil =>
      have hc : c ∈ expectant := by
        unfold Operator.multiplicative? at hop
        split at hop <;> simp_all [expectant]
      simpa using hc
    | cons d ds => simpa using ih
  | product _ ih => exact ih
  | @add cs ds l c op _ hop _ ih =>
    cases ds with
    | nil =>
      have hc : c ∈ expectant := by
        unfold Operator.additive? at hop
        split at hop <;> simp_all [expectant]
      simpa using hc
    | cons d ds => simpa using ih

/-- Where a factor is expected and none begins, reading stops. -/
theorem Expects.reads {p : Phrase} {chars : List Char} (h : Expects p chars) {cs ds : List Placed} {cause : ReadError}
    (hcs : cs.map Placed.char = chars) (hds : NoFactor ds cause) : ∃ t, Reads p (cs ++ ds) t [] ∧ ¬t.IsComplete := by
  induction h generalizing cs with
  | start =>
    obtain rfl := List.map_eq_nil_iff.mp hcs
    cases hds with
    | ended => exact ⟨_, Reads.ended, id⟩
    | unexpected hopen hdigit => exact ⟨_, Reads.unexpected hopen hdigit, id⟩
    | unclosed hopen hread _ hno hclose => exact ⟨_, Reads.unclosed hopen hread hno hclose, id⟩
  | parens _ ih =>
    obtain ⟨opening, cs, rfl, hopen, hcs⟩ := List.map_eq_cons_iff.mp hcs
    obtain ⟨t, ht, -⟩ := ih hcs
    exact ⟨_, Reads.unclosed hopen ht (noOperator_nil _) (by simp), id⟩
  | factor _ ih =>
    obtain ⟨t, ht, hstop⟩ := ih hcs
    exact ⟨t, Reads.factor ht, hstop⟩
  | multiply hl hop _ ih =>
    obtain ⟨front, back, rfl, hfront, hback⟩ := List.map_eq_append_iff.mp hcs
    obtain ⟨c, es, rfl, rfl, hes⟩ := List.map_eq_cons_iff.mp hback
    obtain ⟨t, ht, hstop⟩ := ih hes
    rw [List.append_assoc, List.cons_append]
    exact ⟨_, Reads.multiply (hl.reads hfront (ends_of_multiplicative? hop)) hop ht, fun hc => hstop hc.2⟩
  | product _ ih =>
    obtain ⟨t, ht, hstop⟩ := ih hcs
    exact ⟨t, Reads.product ht (noOperator_nil _), hstop⟩
  | add hl hop _ ih =>
    obtain ⟨front, back, rfl, hfront, hback⟩ := List.map_eq_append_iff.mp hcs
    obtain ⟨c, es, rfl, rfl, hes⟩ := List.map_eq_cons_iff.mp hback
    obtain ⟨t, ht, hstop⟩ := ih hes
    rw [List.append_assoc, List.cons_append]
    exact ⟨_, Reads.add (hl.reads hfront (ends_of_additive? hop)) hop ht (noOperator_nil _), fun hc => hstop hc.2⟩

/-! ### What cannot go on -/

/-- An input that the reading of a phrase does not consume is no such phrase. -/
theorem not_derives_of_reads {p : Phrase} {cs rest : List Placed} {t : Tree} (h : Reads p cs t rest) (hclosed : Closed p rest)
    (hstop : rest ≠ [] ∨ ¬t.IsComplete) (t' : Tree) : ¬Derives p (cs.map Placed.char) t' := by
  intro ht'
  have hread := ht'.reads rfl (ends_nil p)
  rw [List.append_nil] at hread
  have hout := (h.readPhrase_eq hclosed).symm.trans (hread.readPhrase_eq (closed_nil p))
  obtain ⟨rfl, rfl⟩ := Prod.mk.inj hout
  rcases hstop with hrest | hcomplete
  · exact hrest rfl
  · exact hcomplete ht'.isComplete

/-- A text is not viable when it is no calculation, whatever follows it. -/
theorem not_viable {cs : List Placed} (h : ∀ more t, ¬Derives .sum ((cs ++ more).map Placed.char) t) :
    ¬Viable (cs.map Placed.char) := by
  rintro ⟨more, t, ht⟩
  refine h (more.map (Placed.mk 0)) t ?_
  simpa [Function.comp_def] using ht

/-- A character that does not go on with a whole calculation leaves nothing viable. -/
theorem Reads.not_viable {cs rest : List Placed} {c : Placed} {t : Tree} (h : Reads .sum cs t (c :: rest))
    (hno : NoOperator Operator.additive? (c :: rest)) :
    ∃ ds, cs = ds ++ c :: rest ∧ Derives .sum (ds.map Placed.char) t ∧ ¬Viable (ds.map Placed.char ++ [c.char]) := by
  obtain ⟨ds, hcs, hds, hlocal⟩ := h.derives_local (h.isComplete (List.cons_ne_nil _ _))
  refine ⟨ds, hcs, hds, ?_⟩
  have hmap : ds.map Placed.char ++ [c.char] = (ds ++ [c]).map Placed.char := by simp
  rw [hmap]
  refine CycleLength.not_viable fun more t' => ?_
  rw [List.append_assoc, List.singleton_append]
  exact not_derives_of_reads (hlocal (c :: more) rfl) (noOperator_cons.mpr (noOperator_cons.mp hno))
    (Or.inl (List.cons_ne_nil _ _)) t'

/-- Where a factor is expected and none begins, there is no calculation. -/
theorem Expects.not_derives {before ds : List Placed} {cause : ReadError} (h : Expects .sum (before.map Placed.char))
    (hds : NoFactor ds cause) (t : Tree) : ¬Derives .sum ((before ++ ds).map Placed.char) t := by
  obtain ⟨t', hread, hstop⟩ := h.reads rfl hds
  exact not_derives_of_reads hread (noOperator_nil _) (Or.inr hstop) t

/-! ### The failures of a reading -/

/-- A calculation that was read to its end does not fail by being unreadable. -/
theorem Tree.IsComplete.firstFailure?_ne {t : Tree} (h : t.IsComplete) (cause : ReadError) :
    t.firstFailure? ≠ some (.unreadable cause) := by
  intro hfail
  rcases firstFailure?_of_isComplete h hfail with hcause | hcause <;> cases hcause

/-- A calculation that reading stopped after fails before that, or there. -/
theorem Tree.firstFailure?_stopped (before : Tree) (cause : ReadError) :
    (stopped before cause).firstFailure? = before.firstFailure?.or (some (.unreadable cause)) := by
  simp [firstFailure?, postorder, List.findSome?_append, failure?]

/-- An operation that is unreadable is so in its second part when the first was read to its end. -/
theorem Tree.firstFailure?_right {op : Operator} {left right : Tree} {cause : ReadError} (hleft : left.IsComplete)
    (h : (operation op left right).firstFailure? = some (.unreadable cause)) :
    right.firstFailure? = some (.unreadable cause) := by
  have hor : (operation op left right).firstFailure? =
      (left.firstFailure?.or right.firstFailure?).or (op.failure? left.exact right.exact) := by
    simp [firstFailure?, postorder, List.findSome?_append, failure?, Option.or_assoc]
  rw [hor, Option.or_eq_some_iff, Option.or_eq_some_iff] at h
  rcases h with (hl | ⟨-, hr⟩) | ⟨-, hop⟩
  · exact absurd hl (hleft.firstFailure?_ne cause)
  · exact hr
  · simp only [Operator.failure?] at hop
    split at hop
    · cases hop
    · split at hop <;> cases hop

/-- A reading is unreadable because it came to a place where a factor is expected and none begins. -/
theorem Reads.expects {p : Phrase} {cs rest : List Placed} {t : Tree} {cause : ReadError} (h : Reads p cs t rest)
    (hfail : t.firstFailure? = some (.unreadable cause)) :
    ∃ before ds, cs = before ++ ds ∧ Expects p (before.map Placed.char) ∧ NoFactor ds cause := by
  induction h with
  | number => exact absurd hfail (Tree.IsComplete.firstFailure?_ne (t := .number _ _) trivial cause)
  | numberOfUnit => exact absurd hfail (Tree.IsComplete.firstFailure?_ne (t := .number _ _) trivial cause)
  | parens _ hread _ _ =>
    exact absurd hfail ((hread.isComplete (List.cons_ne_nil _ _)).firstFailure?_ne cause)
  | @unclosed opening cs rest t hopen hread hno hclose ih =>
    rw [Tree.firstFailure?_stopped, Option.or_eq_some_iff] at hfail
    rcases hfail with hinner | ⟨hnone, hcause⟩
    · obtain ⟨before, ds, rfl, hexpects, hds⟩ := ih hinner
      refine ⟨opening :: before, ds, rfl, ?_, hds⟩
      rw [List.map_cons, hopen]
      exact Expects.parens hexpects
    · cases hcause
      exact ⟨[], _, rfl, Expects.start,
        NoFactor.unclosed hopen hread (Tree.isComplete_of_firstFailure? hnone) hno hclose⟩
  | ended =>
    cases hfail
    exact ⟨[], _, rfl, Expects.start, NoFactor.ended⟩
  | unexpected hopen hdigit =>
    cases hfail
    exact ⟨[], _, rfl, Expects.start, NoFactor.unexpected hopen hdigit⟩
  | factor _ ih =>
    obtain ⟨before, ds, hcs, hexpects, hds⟩ := ih hfail
    exact ⟨before, ds, hcs, Expects.factor hexpects, hds⟩
  | @multiply cs es rest l r c op hl hop _ _ ihr =>
    have hcomplete := hl.isComplete (List.cons_ne_nil _ _)
    obtain ⟨front, hcs, hfront⟩ := hl.derives hcomplete
    obtain ⟨before, ds, rfl, hexpects, hds⟩ := ihr (Tree.firstFailure?_right hcomplete hfail)
    refine ⟨front ++ c :: before, ds, by rw [hcs, List.append_assoc, List.cons_append], ?_, hds⟩
    rw [List.map_append, List.map_cons]
    exact Expects.multiply hfront hop hexpects
  | product _ _ ih =>
    obtain ⟨before, ds, hcs, hexpects, hds⟩ := ih hfail
    exact ⟨before, ds, hcs, Expects.product hexpects, hds⟩
  | @add cs es rest l r c op hl hop _ _ _ ihr =>
    have hcomplete := hl.isComplete (List.cons_ne_nil _ _)
    obtain ⟨front, hcs, hfront⟩ := hl.derives hcomplete
    obtain ⟨before, ds, rfl, hexpects, hds⟩ := ihr (Tree.firstFailure?_right hcomplete hfail)
    refine ⟨front ++ c :: before, ds, by rw [hcs, List.append_assoc, List.cons_append], ?_, hds⟩
    rw [List.map_append, List.map_cons]
    exact Expects.add hfront hop hexpects

/-! ### Inputs -/

/-- The calculation that an input writes. What is left after it stops the reading. -/
def treeOf (cs : List Placed) : Tree :=
  match (readSum cs).rest with
  | [] => (readSum cs).tree
  | c :: _ =>
    .stopped (readSum cs).tree (if c.char = ')' then .unbalanced c.offset else .unexpectedChar c.offset c.char)

/-- The length of a text is that of the calculation of its characters that are not blank. -/
theorem read_eq_length_treeOf (text : String) : read text = (treeOf (inked text)).length :=
  rfl

/-- Why reading an input stops, for each error. -/
inductive StopsAt (cs : List Placed) : ReadError → Prop where
  /-- The input ends where a factor is expected. -/
  | ended : Expects .sum (cs.map Placed.char) → StopsAt cs .unexpectedEnd
  /-- A character leaves nothing viable. -/
  | unexpected {before rest : List Placed} {c : Placed} : cs = before ++ c :: rest → Viable (before.map Placed.char) →
      ¬Viable (before.map Placed.char ++ [c.char]) → StopsAt cs (.unexpectedChar c.offset c.char)
  /-- A parenthesis closes after a whole calculation. -/
  | unopened {before rest : List Placed} {c : Placed} {t : Tree} : cs = before ++ c :: rest → c.char = ')' →
      Derives .sum (before.map Placed.char) t → StopsAt cs (.unbalanced c.offset)
  /-- A parenthesis is open, and what follows a whole calculation after it neither goes on with it nor closes it. -/
  | unclosed {before inner rest : List Placed} {opening : Placed} {t : Tree} : cs = before ++ opening :: (inner ++ rest) →
      opening.char = '(' → Derives .sum (inner.map Placed.char) t →
      Viable (before.map Placed.char ++ '(' :: inner.map Placed.char) →
      (∀ c ∈ rest.head?, c.char ≠ ')' ∧ ¬Viable (inner.map Placed.char ++ [c.char]) ∧
        ¬Viable (before.map Placed.char ++ '(' :: inner.map Placed.char ++ [c.char])) →
      StopsAt cs (.unbalanced opening.offset)

/-- Where a factor is expected and none begins, reading stops for a good reason. -/
theorem Expects.stopsAt {before ds : List Placed} {cause : ReadError} (h : Expects .sum (before.map Placed.char))
    (hds : NoFactor ds cause) : StopsAt (before ++ ds) cause := by
  cases hds with
  | ended =>
    rw [List.append_nil]
    exact StopsAt.ended h
  | @unexpected c rest hopen hdigit =>
    refine StopsAt.unexpected rfl h.viable ?_
    have hmap : before.map Placed.char ++ [c.char] = (before ++ [c]).map Placed.char := by simp
    rw [hmap]
    refine CycleLength.not_viable fun more t => ?_
    rw [List.append_assoc, List.singleton_append]
    exact h.not_derives (NoFactor.unexpected hopen hdigit) t
  | @unclosed opening cs rest t hopen hread hcomplete hno hclose =>
    obtain ⟨inner, rfl, hinner, hlocal⟩ := hread.derives_local hcomplete
    have hviable : Viable (before.map Placed.char ++ '(' :: inner.map Placed.char) := by
      obtain ⟨more, t', ht'⟩ := h.exists_derives (Derives.parens hinner)
      exact ⟨')' :: more, t', by simpa using ht'⟩
    refine StopsAt.unclosed rfl hopen hinner hviable fun c hc => ⟨hclose c hc, ?_⟩
    obtain ⟨rest, rfl⟩ := List.head?_eq_some_iff.mp hc
    have hno' : ∀ more, NoOperator Operator.additive? (c :: more) :=
      fun more => noOperator_cons.mpr (noOperator_cons.mp hno)
    constructor
    · obtain ⟨inner', hsame, -, hnot⟩ := hread.not_viable hno
      rwa [List.append_cancel_right hsame]
    · have hmap : before.map Placed.char ++ '(' :: inner.map Placed.char ++ [c.char] =
          (before ++ opening :: (inner ++ [c])).map Placed.char := by
        simp [hopen]
      rw [hmap]
      refine CycleLength.not_viable fun more t' => ?_
      have hsplit : before ++ opening :: (inner ++ [c]) ++ more = before ++ opening :: (inner ++ c :: more) := by simp
      rw [hsplit]
      refine h.not_derives (NoFactor.unclosed hopen (hlocal (c :: more) rfl) hcomplete (hno' more) ?_) t'
      intro d hd
      cases hd
      exact hclose c rfl

/-- An input that is unreadable has stopped for a good reason. -/
theorem stopsAt_of_firstFailure? {cs : List Placed} {cause : ReadError}
    (h : (treeOf cs).firstFailure? = some (.unreadable cause)) : StopsAt cs cause := by
  obtain ⟨hread, hno⟩ := reads_readSum cs
  unfold treeOf at h
  split at h
  · obtain ⟨before, ds, rfl, hexpects, hds⟩ := hread.expects h
    exact hexpects.stopsAt hds
  · next c rest hrest =>
    rw [hrest] at hread hno
    obtain ⟨before, hcs, hbefore, hnot⟩ := hread.not_viable hno
    rw [Tree.firstFailure?_stopped, Option.or_eq_some_iff] at h
    rcases h with hfail | ⟨-, hcause⟩
    · exact absurd hfail ((hread.isComplete (List.cons_ne_nil _ _)).firstFailure?_ne cause)
    · split at hcause
      · next hclose =>
        cases hcause
        exact StopsAt.unopened hcs hclose hbefore
      · cases hcause
        exact StopsAt.unexpected hcs ⟨[], _, by rwa [List.append_nil]⟩ hnot

end Recurrence.CycleLength
