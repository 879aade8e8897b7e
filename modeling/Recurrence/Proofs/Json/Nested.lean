import Recurrence.Proofs.Json.Reading

/-!
# JSON: reading lists and objects

The items of a list are read one after the other, up to the first that fails (`TakesItems.gives_readList`), so lists are read when
their items are (`Takes.readList`). A list that fills slots is read one slot after the other, and may end before they do
(`Fills.gives_readSlots`). The members of an object are read one after the other too, each into what was read before it, and
reading ends with the first that fails (`TakesMembers.gives_readObject`).
-/

namespace Recurrence.Json

variable {ε α β σ : Type}

/-! ### Lists -/

/-- Parts begin with spaces and the first character of a part. -/
theorem Separated.starts {part : List Char → α → Prop} {P : Char → Prop}
    (hpart : ∀ {cs a}, part cs a → ∃ c ds, cs = c :: ds ∧ P c) {cs : List Char} {as : List α} (h : Separated part cs as) :
    ∃ before c ds, cs = before ++ c :: ds ∧ Spaces before ∧ P c := by
  cases h with
  | @last before cs after a hbefore hcs _ =>
    obtain ⟨c, ds, rfl, hc⟩ := hpart hcs
    exact ⟨before, c, ds ++ after, by simp, hbefore, hc⟩
  | @more before cs after ds a as hbefore hcs _ _ =>
    obtain ⟨c, es, rfl, hc⟩ := hpart hcs
    exact ⟨before, c, es ++ after ++ ',' :: ds, by simp, hbefore, hc⟩

/-- Parts have any form that each of them has. -/
theorem Separated.imp {part part' : List Char → α → Prop} {cs : List Char} {as : List α} (h : Separated part cs as)
    (himp : ∀ a ∈ as, ∀ {cs}, part cs a → part' cs a) : Separated part' cs as := by
  induction h with
  | last hbefore hcs hafter => exact Separated.last hbefore (himp _ List.mem_cons_self hcs) hafter
  | more hbefore hcs hafter _ ih =>
    obtain ⟨hhead, htail⟩ := List.forall_mem_cons.mp himp
    exact Separated.more hbefore (hhead hcs) hafter (ih htail)

/-- What is between two brackets has any form that each of its parts has. -/
theorem Parts.imp {part part' : List Char → α → Prop} {cs : List Char} {as : List α} (h : Parts part cs as)
    (himp : ∀ a ∈ as, ∀ {cs}, part cs a → part' cs a) : Parts part' cs as := by
  cases h with
  | none hspaces => exact Parts.none hspaces
  | some hseparated => exact Parts.some (hseparated.imp himp)

/-- The items of lists are taken by their reader, with a result for each that is related to it. -/
structure TakesItems (item : Reader ε α) (part : List Char → β → Prop) (result : β → Except (Fault ε) α → Prop) : Prop where
  starts : ∀ {cs b}, part cs b → ∃ c ds, cs = c :: ds ∧ isSpace c = false ∧ c ≠ ']'
  gives : ∀ {before cs rest b}, Spaces before → part cs b → Ends rest →
    ∃ outcome, Gives rest (item (before ++ (cs ++ rest))) outcome ∧ result b outcome

/-- The results of all items, up to the first that fails. -/
inductive Collects (result : β → Except (Fault ε) α → Prop) : List β → Except (Fault ε) (List α) → Prop where
  | nil : Collects result [] (.ok [])
  | stop {b : β} {bs : List β} {fault : Fault ε} : result b (.error fault) → Collects result (b :: bs) (.error fault)
  | next {b : β} {bs : List β} {a : α} {outcome : Except (Fault ε) (List α)} : result b (.ok a) →
      Collects result bs outcome → Collects result (b :: bs) (outcome.map (a :: ·))

/-- Items that are all taken as they are make their list. -/
theorem Collects.eq_ok {as : List α} {outcome : Except (Fault ε) (List α)}
    (h : Collects (fun a outcome => outcome = .ok a) as outcome) : outcome = .ok as := by
  induction h with
  | nil => rfl
  | stop hresult => cases hresult
  | next hresult _ ih =>
    cases hresult
    rw [ih]
    rfl

section Items

variable {item : Reader ε α} {part : List Char → β → Prop} {result : β → Except (Fault ε) α → Prop}

/-- The items of a list are read up to its closing bracket. -/
theorem TakesItems.gives_readItems (hitem : TakesItems item part result) {cs : List Char} {bs : List β}
    (h : Separated part cs bs) (rest : List Char) :
    ∃ outcome, Gives rest (readItems item (cs ++ ']' :: rest)) outcome ∧ Collects result bs outcome := by
  induction h with
  | @last before cs after b hbefore hcs hafter =>
    have hsplit : before ++ cs ++ after ++ ']' :: rest = before ++ (cs ++ (after ++ ']' :: rest)) := by simp
    have hends : Ends (after ++ ']' :: rest) := ends_append hafter (by decide)
    obtain ⟨outcome, hread, hresult⟩ := hitem.gives hbefore hcs hends
    rw [hsplit, readItems]
    cases outcome with
    | error fault => exact ⟨_, hread.bind_error, Collects.stop hresult⟩
    | ok a =>
      refine ⟨_, hread.bind_ok fun _ => ?_, Collects.next hresult Collects.nil⟩
      refine Gives.bind_map (Gives.atFirst rfl hafter (by decide) fun h => ?_) fun _ => ⟨rfl, rfl⟩
      rw [if_pos rfl]
      exact Gives.ok [] h
  | @more before cs after ds b bs hbefore hcs hafter _ ih =>
    have hsplit : before ++ cs ++ after ++ ',' :: ds ++ ']' :: rest =
        before ++ (cs ++ (after ++ ',' :: (ds ++ ']' :: rest))) := by simp
    have hends : Ends (after ++ ',' :: (ds ++ ']' :: rest)) := ends_append hafter (by decide)
    obtain ⟨outcome, hread, hresult⟩ := hitem.gives hbefore hcs hends
    rw [hsplit, readItems]
    cases outcome with
    | error fault => exact ⟨_, hread.bind_error, Collects.stop hresult⟩
    | ok a =>
      obtain ⟨outcome', hrest, hcollects⟩ := ih
      refine ⟨_, hread.bind_ok fun _ => ?_, Collects.next hresult hcollects⟩
      refine Gives.bind_map (Gives.atFirst rfl hafter (by decide) fun h => ?_) fun _ => ⟨rfl, rfl⟩
      rw [if_neg (by decide), if_pos rfl]
      exact hrest.map_same fun _ => ⟨rfl, rfl⟩

/-- A list is read from its opening bracket on. -/
theorem TakesItems.gives_readList (hitem : TakesItems item part result) {spaces inner : List Char} {bs : List β}
    (hspaces : Spaces spaces) (h : Parts part inner bs) (rest : List Char) :
    ∃ outcome, Gives rest (readList item (spaces ++ '[' :: (inner ++ ']' :: rest))) outcome ∧ Collects result bs outcome := by
  cases h with
  | none hinner =>
    refine ⟨_, Gives.atFirst rfl hspaces (by decide) fun _ => ?_, Collects.nil⟩
    rw [if_pos rfl]
    refine Gives.map_same (Gives.atFirst rfl hinner (by decide) fun h => ?_) fun _ => ⟨rfl, rfl⟩
    rw [if_pos rfl]
    exact Gives.ok [] h
  | some hseparated =>
    obtain ⟨outcome, hitems, hcollects⟩ := hitem.gives_readItems hseparated rest
    obtain ⟨before, c, ds, rfl, hbefore, hspace, hclose⟩ := hseparated.starts hitem.starts
    refine ⟨outcome, Gives.atFirst rfl hspaces (by decide) fun _ => ?_, hcollects⟩
    rw [if_pos rfl]
    refine Gives.map_same (Gives.atFirst (List.append_assoc before (c :: ds) _) hbefore hspace fun _ => ?_)
      fun _ => ⟨rfl, rfl⟩
    rw [if_neg hclose]
    exact hitems

end Items

/-- Lists are read when their items are. -/
theorem Takes.readList {item : Reader ε α} {writes : List Char → α → Prop} (hitem : Takes item writes) :
    Takes (readList item) (WritesList writes) where
  starts := by
    rintro _ _ ⟨inner, -, rfl⟩
    exact ⟨'[', inner ++ [']'], rfl, by decide, by decide⟩
  gives := by
    rintro before _ rest as hbefore ⟨inner, hparts, rfl⟩ -
    have hitems : TakesItems item writes fun a outcome => outcome = .ok a :=
      ⟨hitem.starts, fun hbefore hcs hrest => ⟨_, hitem.gives hbefore hcs hrest, rfl⟩⟩
    have hsplit : before ++ ('[' :: inner ++ [']'] ++ rest) = before ++ '[' :: (inner ++ ']' :: rest) := by simp
    obtain ⟨outcome, hread, hcollects⟩ := hitems.gives_readList hbefore hparts rest
    rw [hsplit, ← hcollects.eq_ok]
    exact hread

/-! ### Slots -/

/-- There is a part between separators. -/
theorem Separated.ne_nil {part : List Char → α → Prop} {cs : List Char} {as : List α} (h : Separated part cs as) :
    as ≠ [] := by
  cases h <;> exact List.cons_ne_nil _ _

/-- The parts of a list fill slots, one after the other: each slot reads its part into what was read before it. -/
inductive Fills (part : List Char → α → Prop) : List (σ → Reader ε σ) → List α → σ → σ → Prop where
  | nil {slots : List (σ → Reader ε σ)} {state : σ} : Fills part slots [] state state
  | cons {slot : σ → Reader ε σ} {slots : List (σ → Reader ε σ)} {a : α} {as : List α} {state state' state'' : σ} :
      (∀ {before cs rest}, Spaces before → part cs a → Ends rest →
        Gives rest (slot state (before ++ (cs ++ rest))) (.ok state')) →
      Fills part slots as state' state'' → Fills part (slot :: slots) (a :: as) state state''

/-- Parts are read into slots from the first of them on. Every slot but the first is read after a comma and its result is seen
from there, so the induction is for any view `f` of what the later slots give. -/
theorem Separated.gives_slots {part : List Char → α → Prop} {cs : List Char} {as : List α} (h : Separated part cs as)
    {slot : σ → Reader ε σ} {slots : List (σ → Reader ε σ)} {state state' : σ}
    (hfills : Fills part (slot :: slots) as state state') {text ds rest : List Char} (htext : text = cs ++ ']' :: rest)
    (f : (t : Taken σ text) → Taken σ t.rest → Taken σ ds) (hf : ∀ t t', (f t t').value = t'.value ∧ (f t t').rest = t'.rest) :
    Gives rest (slot state text >>= fun t => (readSlots slots false t.value t.rest).map (f t)) (.ok state') := by
  induction h generalizing slot slots state text ds with
  | @last before cs after a hbefore hcs hafter =>
    obtain rfl : text = before ++ (cs ++ (after ++ ']' :: rest)) := by simp [htext]
    cases hfills with
    | cons hslot hnil =>
      cases hnil
      refine (hslot hbefore hcs (ends_append hafter (by decide))).bind_ok fun _ => ?_
      refine Gives.map_same ?_ (hf _)
      unfold readSlots
      refine Gives.atFirst rfl hafter (by decide) fun h => ?_
      rw [if_pos rfl]
      exact Gives.ok _ h
  | @more before cs after es a as hbefore hcs hafter hseparated ih =>
    obtain rfl : text = before ++ (cs ++ (after ++ ',' :: (es ++ ']' :: rest))) := by simp [htext]
    cases hfills with
    | @cons _ slots _ _ _ _ _ hslot hfills =>
      obtain ⟨slot', slots', rfl⟩ : ∃ slot' slots', slots = slot' :: slots' := by
        cases hfills with
        | nil => exact absurd rfl hseparated.ne_nil
        | cons => exact ⟨_, _, rfl⟩
      refine (hslot hbefore hcs (ends_append hafter (by decide))).bind_ok fun _ => ?_
      refine Gives.map_same ?_ (hf _)
      unfold readSlots
      refine Gives.atFirst rfl hafter (by decide) fun h => ?_
      rw [if_neg (by decide)]
      exact ih hfills rfl (fun t t' => (t.andThen t').within h) fun _ _ => ⟨rfl, rfl⟩

/-- A list is read into slots up to its closing bracket. It may end before the slots do. -/
theorem Fills.gives_readSlots {part : List Char → α → Prop}
    (hpart : ∀ {cs a}, part cs a → ∃ c ds, cs = c :: ds ∧ isSpace c = false ∧ c ≠ ']') {inner : List Char} {as : List α}
    (h : Parts part inner as) {slots : List (σ → Reader ε σ)} {state state' : σ} (hfills : Fills part slots as state state')
    (rest : List Char) : Gives rest (readSlots slots true state (inner ++ ']' :: rest)) (.ok state') := by
  unfold readSlots
  cases h with
  | none hspaces =>
    cases hfills
    refine Gives.atFirst rfl hspaces (by decide) fun h => ?_
    rw [if_pos rfl]
    exact Gives.ok _ h
  | some hseparated =>
    obtain ⟨spaces, c, ds, rfl, hspaces, hspace, hclose⟩ := hseparated.starts hpart
    refine Gives.atFirst (List.append_assoc spaces (c :: ds) _) hspaces hspace fun _ => ?_
    rw [if_neg hclose]
    cases hfills with
    | nil => exact absurd rfl hseparated.ne_nil
    | cons hslot hfills =>
      exact hseparated.gives_slots (Fills.cons hslot hfills) rfl Taken.andThen fun _ _ => ⟨rfl, rfl⟩

/-! ### Objects -/

/-- The readers of members take them by a step, which relates what was read before a member, the member, and the outcome of
reading its value. -/
def TakesMembers (member : σ → String → Except (Fault ε) (Reader ε σ)) (value : String → List Char → β → Prop)
    (step : σ → String × β → Except (Fault ε) σ → Prop) : Prop :=
  ∀ (state : σ) {name b before cs rest}, Spaces before → value name cs b → Ends rest →
    ∃ outcome, Gives rest (member state name >>= fun reader => reader (before ++ (cs ++ rest))) outcome ∧
      step state (name, b) outcome

/-- Steps over all members, up to the first that fails. -/
inductive Steps (step : σ → String × β → Except (Fault ε) σ → Prop) :
    σ → List (String × β) → Except (Fault ε) σ → Prop where
  | nil (state : σ) : Steps step state [] (.ok state)
  | stop {state : σ} {m : String × β} {ms : List (String × β)} {fault : Fault ε} : step state m (.error fault) →
      Steps step state (m :: ms) (.error fault)
  | next {state state' : σ} {m : String × β} {ms : List (String × β)} {outcome : Except (Fault ε) σ} :
      step state m (.ok state') → Steps step state' ms outcome → Steps step state (m :: ms) outcome

/-- Steps by a function are its fold. -/
theorem Steps.eq_foldlM {f : σ → String × β → Except (Fault ε) σ} {state : σ} {members : List (String × β)}
    {outcome : Except (Fault ε) σ} (h : Steps (fun state m outcome => outcome = f state m) state members outcome) :
    outcome = members.foldlM f state := by
  induction h with
  | nil state => rfl
  | stop hstep => rw [List.foldlM_cons, ← hstep]; rfl
  | next hstep _ ih => rw [List.foldlM_cons, ← hstep, ih]; rfl

/-- A colon after spaces is read. -/
theorem gives_readColon {spaces : List Char} (hspaces : Spaces spaces) (rest : List Char) :
    Gives rest (readColon (ε := ε) (spaces ++ ':' :: rest)) (.ok ()) := by
  refine Gives.atFirst rfl hspaces (by decide) fun h => ?_
  rw [if_pos rfl]
  exact Gives.ok () h

section Members

variable {member : σ → String → Except (Fault ε) (Reader ε σ)} {value : String → List Char → β → Prop}
  {step : σ → String × β → Except (Fault ε) σ → Prop}

/-- A member of an object is read into what was read before it. -/
theorem TakesMembers.gives_readMember (hmember : TakesMembers member value step) {spaces cs rest : List Char} {m : String × β}
    (hspaces : Spaces spaces) (h : WritesMember value cs m) (hrest : Ends rest) (state : σ) :
    ∃ outcome, Gives rest (readMember member state (spaces ++ (cs ++ rest))) outcome ∧ step state m outcome := by
  cases h with
  | @mk quoted before after cs name b hname hbefore hafter hvalue =>
    obtain ⟨inner, hinner, rfl⟩ := hname
    obtain ⟨outcome, hread, hstep⟩ := hmember state hafter hvalue hrest
    refine ⟨outcome, ?_, hstep⟩
    have hsplit : spaces ++ ('"' :: inner ++ ['"'] ++ before ++ ':' :: (after ++ cs) ++ rest) =
        spaces ++ '"' :: (inner ++ '"' :: (before ++ ':' :: (after ++ (cs ++ rest)))) := by simp
    rw [hsplit]
    refine Gives.atFirst rfl hspaces (by decide) fun _ => ?_
    rw [if_pos rfl]
    refine (hinner.gives_readChars _).bind_ok fun _ => ?_
    rw [String.ofList_toList]
    cases hreader : member state name with
    | error fault =>
      -- A name that is refused ends the reading before its colon and its value.
      rw [hreader] at hread
      rw [Gives.eq_error hread]
      exact Gives.error fault
    | ok reader =>
      rw [hreader] at hread
      refine (gives_readColon hbefore _).bind_ok fun _ => ?_
      exact Gives.bind_same hread fun _ => ⟨rfl, rfl⟩

/-- The members of an object are read one after the other, up to its closing brace. -/
theorem TakesMembers.gives_readMembers (hmember : TakesMembers member value step) {cs : List Char}
    {members : List (String × β)} (h : Separated (WritesMember value) cs members) (rest : List Char) (state : σ) :
    ∃ outcome, Gives rest (readMembers member state (cs ++ '}' :: rest)) outcome ∧ Steps step state members outcome := by
  induction h generalizing state with
  | @last before cs after m hbefore hcs hafter =>
    have hsplit : before ++ cs ++ after ++ '}' :: rest = before ++ (cs ++ (after ++ '}' :: rest)) := by simp
    have hends : Ends (after ++ '}' :: rest) := ends_append hafter (by decide)
    obtain ⟨outcome, hread, hstep⟩ := hmember.gives_readMember hbefore hcs hends state
    rw [hsplit, readMembers]
    cases outcome with
    | error fault => exact ⟨_, hread.bind_error, Steps.stop hstep⟩
    | ok state' =>
      refine ⟨_, hread.bind_ok fun _ => ?_, Steps.next hstep (Steps.nil state')⟩
      refine Gives.bind_same (Gives.atFirst rfl hafter (by decide) fun h => ?_) fun _ => ⟨rfl, rfl⟩
      rw [if_pos rfl]
      exact Gives.ok state' h
  | @more before cs after ds m ms hbefore hcs hafter _ ih =>
    have hsplit : before ++ cs ++ after ++ ',' :: ds ++ '}' :: rest =
        before ++ (cs ++ (after ++ ',' :: (ds ++ '}' :: rest))) := by simp
    have hends : Ends (after ++ ',' :: (ds ++ '}' :: rest)) := ends_append hafter (by decide)
    obtain ⟨outcome, hread, hstep⟩ := hmember.gives_readMember hbefore hcs hends state
    rw [hsplit, readMembers]
    cases outcome with
    | error fault => exact ⟨_, hread.bind_error, Steps.stop hstep⟩
    | ok state' =>
      obtain ⟨outcome', hrest, hsteps⟩ := ih state'
      refine ⟨outcome', hread.bind_ok fun _ => ?_, Steps.next hstep hsteps⟩
      refine Gives.bind_same (Gives.atFirst rfl hafter (by decide) fun h => ?_) fun _ => ⟨rfl, rfl⟩
      rw [if_neg (by decide), if_pos rfl]
      exact hrest.map_same fun _ => ⟨rfl, rfl⟩

/-- A member begins with a quote. -/
theorem WritesMember.starts {cs : List Char} {m : String × β} (h : WritesMember value cs m) :
    ∃ c ds, cs = c :: ds ∧ c = '"' := by
  obtain ⟨⟨inner, -, rfl⟩, -, -, -⟩ := h
  exact ⟨_, _, rfl, rfl⟩

/-- The members of an object are read from its opening brace on, each into what was read before it. -/
theorem TakesMembers.gives_readObject (hmember : TakesMembers member value step) {inner : List Char}
    {members : List (String × β)} (h : Parts (WritesMember value) inner members) (rest : List Char) (state : σ) :
    ∃ outcome, Gives rest (readObject member state (inner ++ '}' :: rest)) outcome ∧ Steps step state members outcome := by
  cases h with
  | none hspaces =>
    refine ⟨_, Gives.atFirst rfl hspaces (by decide) fun h => ?_, Steps.nil state⟩
    rw [if_pos rfl]
    exact Gives.ok state h
  | some hseparated =>
    obtain ⟨spaces, _, ds, rfl, hspaces, rfl⟩ := hseparated.starts WritesMember.starts
    obtain ⟨outcome, hmembers, hsteps⟩ := hmember.gives_readMembers hseparated rest state
    refine ⟨outcome, Gives.atFirst (List.append_assoc spaces ('"' :: ds) _) hspaces (by decide) fun _ => ?_, hsteps⟩
    rw [if_neg (by decide)]
    exact hmembers

end Members

/-! ### Whole texts -/

/-- A text is read when spaces are all that is left after its value. -/
theorem readDocument_eq {reader : Reader ε α} {text : String} {outcome : Except (Fault ε) α} {after : List Char}
    (hafter : Spaces after) (h : Gives after (reader text.toList) outcome) : readDocument reader text = outcome := by
  unfold readDocument
  cases h' : reader text.toList with
  | error fault =>
    rw [h'] at h
    exact h.eq_error.symm
  | ok t =>
    rw [h'] at h
    cases h with
    | ok value _ =>
      have hspaces : after.all isSpace = true := List.all_eq_true.mpr hafter
      simp only [bind, Except.bind, hspaces, ↓reduceIte]

end Recurrence.Json
