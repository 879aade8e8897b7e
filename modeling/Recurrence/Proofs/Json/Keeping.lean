import Recurrence.Proofs.Json.Skipping

/-!
# JSON: readers of one form on values of any form

A reader that expects one form may meet a value of any form. It keeps to the value when it fails or takes exactly the value, so
what follows the value is read the same way whatever the value is (`KeepsToValues`). A string that is used is more than one that
is passed over: a surrogate has to be followed by its counterpart, or the string is refused.
-/

namespace Recurrence.Json

variable {ε α β : Type}

/-- A reader fails on a value of any form, or it takes exactly the value. -/
def KeepsToValues (reader : Reader ε α) : Prop :=
  ∀ {before cs rest}, Spaces before → IsJson cs → Ends rest →
    ∃ outcome, Gives rest (reader (before ++ (cs ++ rest))) outcome

/-! ### Inside a string -/

/-- A reader inside a string fails, or it leaves pieces before the closing quote, which are no more than there were. -/
def LeavesPieces (cs rest : List Char) {text : List Char} (r : Except (Fault ε) (Taken α text)) : Prop :=
  ∃ ds outcome, IsPieces ds ∧ ds.length ≤ cs.length ∧ Gives (ds ++ '"' :: rest) r outcome

namespace LeavesPieces

variable {cs rest text text' : List Char}

/-- A reader that takes something before the pieces leaves all of them. -/
theorem of_gives {r : Except (Fault ε) (Taken α text)} {outcome : Except (Fault ε) α} (hcs : IsPieces cs)
    (h : Gives (cs ++ '"' :: rest) r outcome) : LeavesPieces cs rest r :=
  ⟨cs, outcome, hcs, Nat.le_refl _, h⟩

/-- A reader that goes on with the pieces that are left. -/
theorem bind {r : Except (Fault ε) (Taken α text)} {k : Taken α text → Except (Fault ε) (Taken β text')}
    (h : LeavesPieces cs rest r)
    (hk : ∀ value ds, IsPieces ds → ds.length ≤ cs.length → ∀ h, LeavesPieces ds rest (k ⟨value, ds ++ '"' :: rest, h⟩)) :
    LeavesPieces cs rest (r >>= k) := by
  obtain ⟨ds, outcome, hds, hle, hgives⟩ := h
  cases hgives with
  | ok value hlt =>
    obtain ⟨es, outcome', hes, hle', hgives'⟩ := hk value ds hds hle hlt
    exact ⟨es, outcome', hes, Nat.le_trans hle' hle, hgives'⟩
  | error fault => exact ⟨ds, _, hds, hle, Gives.error fault⟩

/-- A result that is seen from an earlier place of the text. -/
theorem map_same {r : Except (Fault ε) (Taken α text)} {f : Taken α text → Taken α text'} (h : LeavesPieces cs rest r)
    (hf : ∀ t : Taken α text, (f t).value = t.value ∧ (f t).rest = t.rest) : LeavesPieces cs rest (r.map f) := by
  obtain ⟨ds, outcome, hds, hle, hgives⟩ := h
  exact ⟨ds, outcome, hds, hle, hgives.map_same hf⟩

end LeavesPieces

/-- Where no escape by a code unit begins, reading one fails. -/
theorem readUnitEscape_eq_error {cs : List Char} (h : ∀ ds, cs ≠ '\\' :: 'u' :: ds) :
    ∃ fault, readUnitEscape (ε := ε) cs = .error fault := by
  unfold readUnitEscape
  split
  · exact ⟨_, rfl⟩
  · exact ⟨_, rfl⟩
  · exact absurd rfl (h _)
  · exact ⟨_, rfl⟩

/-- A code unit is read from the next piece, or reading it fails. -/
theorem IsPieces.leaves_readUnitEscape {cs : List Char} (h : IsPieces cs) (rest : List Char) :
    LeavesPieces cs rest (readUnitEscape (ε := ε) (cs ++ '"' :: rest)) := by
  have hfails : (∀ ds, cs ++ '"' :: rest ≠ '\\' :: 'u' :: ds) →
      LeavesPieces cs rest (readUnitEscape (ε := ε) (cs ++ '"' :: rest)) := by
    intro hne
    obtain ⟨fault, hfault⟩ := readUnitEscape_eq_error (ε := ε) hne
    rw [hfault]
    exact LeavesPieces.of_gives h (Gives.error fault)
  cases h with
  | nil => exact hfails fun ds hds => by cases hds
  | @cons piece ds hpiece hpieces =>
    cases hpiece with
    | plain _ _ hbackslash => exact hfails fun es hes => hbackslash (List.cons.inj hes).1
    | short hmem =>
      exact hfails fun es hes => (escaped?_of_mem hmem).1 (List.cons.inj (List.cons.inj hes).2).1
    | @unit digits unit hunit =>
      have hsplit : '\\' :: 'u' :: digits ++ ds ++ '"' :: rest = '\\' :: 'u' :: (digits ++ (ds ++ '"' :: rest)) := by simp
      have hle : ds.length ≤ ('\\' :: 'u' :: digits ++ ds).length := by
        rw [List.length_append]
        exact Nat.le_add_left _ _
      rw [hsplit, readUnitEscape]
      exact ⟨ds, _, hpieces, hle, hunit.gives_readHex.map_same fun _ => ⟨rfl, rfl⟩⟩

/-- The character of a code unit is read from its digits, or from these and the next piece, or reading it fails. -/
theorem WritesUnit.leaves_readCodePoint {digits cs : List Char} {unit : Nat} (hunit : WritesUnit digits unit)
    (h : IsPieces cs) (rest : List Char) :
    LeavesPieces cs rest (readCodePoint (ε := ε) (digits ++ (cs ++ '"' :: rest))) := by
  refine (LeavesPieces.of_gives h hunit.gives_readHex).bind fun value ds hds _ hlt => ?_
  split
  · exact LeavesPieces.of_gives hds (Gives.error _)
  · split
    · refine (hds.leaves_readUnitEscape rest).bind fun low es hes _ hlt' => ?_
      split
      · exact LeavesPieces.of_gives hes (Gives.of_eq rfl rfl)
      · exact LeavesPieces.of_gives hes (Gives.error _)
    · exact LeavesPieces.of_gives hds (Gives.of_eq rfl rfl)

/-- A piece is a character that stands for itself, or it begins an escape, of which it may be only the first surrogate. -/
theorem IsPiece.plain_or_escape {cs : List Char} (h : IsPiece cs) :
    (∃ c, cs = [c] ∧ ' ' ≤ c ∧ c ≠ '"' ∧ c ≠ '\\') ∨
    ∃ escape, cs = '\\' :: escape ∧ ∀ {ds}, IsPieces ds → ∀ rest,
      LeavesPieces ds rest (readEscape (ε := ε) (escape ++ (ds ++ '"' :: rest))) := by
  cases h with
  | @plain c hspace hquote hbackslash => exact Or.inl ⟨c, rfl, hspace, hquote, hbackslash⟩
  | short hmem =>
    obtain ⟨hletter, hescaped⟩ := escaped?_of_mem hmem
    refine Or.inr ⟨_, rfl, fun hds rest => ?_⟩
    rw [List.singleton_append, readEscape, if_neg hletter, hescaped]
    exact LeavesPieces.of_gives hds (Gives.of_eq rfl rfl)
  | unit hunit =>
    refine Or.inr ⟨_, rfl, fun hds rest => ?_⟩
    rw [List.cons_append, readEscape, if_pos rfl]
    exact (hunit.leaves_readCodePoint hds rest).map_same fun _ => ⟨rfl, rfl⟩

/-- The characters of a string are read up to its closing quote, or reading them fails. The induction is on the length of the
pieces, since a pair of surrogates takes two of them. -/
theorem IsPieces.exists_gives_readChars {cs : List Char} (h : IsPieces cs) (rest : List Char) :
    ∃ outcome, Gives rest (readChars (ε := ε) (cs ++ '"' :: rest)) outcome := by
  induction hlength : cs.length using Nat.strongRecOn generalizing cs with
  | ind n ih =>
    subst hlength
    cases h with
    | nil =>
      rw [List.nil_append, readChars, if_pos rfl]
      exact ⟨_, Gives.of_eq rfl rfl⟩
    | @cons piece ds hpiece hds =>
      rw [List.append_assoc]
      rcases hpiece.plain_or_escape (ε := ε) with ⟨c, rfl, hspace, hquote, hbackslash⟩ | ⟨escape, rfl, hescape⟩
      · obtain ⟨outcome, hread⟩ := ih ds.length (Nat.lt_succ_self _) hds rfl
        rw [List.singleton_append, readChars, if_neg hquote, if_neg hbackslash, if_neg (Char.not_lt.mpr hspace)]
        exact ⟨_, hread.map (g := (c :: ·)) fun _ => ⟨rfl, rfl⟩⟩
      · obtain ⟨es, outcome, hes, hle, hread⟩ := hescape hds rest
        have hlt : es.length < ('\\' :: escape ++ ds).length := by
          rw [List.length_append, List.length_cons]
          omega
        obtain ⟨outcome', hchars⟩ := ih es.length hlt hes rfl
        rw [List.cons_append, readChars, if_neg (by decide), if_pos rfl]
        cases outcome with
        | error fault => exact ⟨_, hread.bind_error⟩
        | ok c => exact ⟨_, hread.bind_ok fun _ => hchars.bind_map (g := (c :: ·)) fun _ => ⟨rfl, rfl⟩⟩

/-! ### Strings and lists -/

/-- A value that begins with a quote is a string. -/
theorem IsJson.isString {cs : List Char} (h : IsJson ('"' :: cs)) : IsString ('"' :: cs) := by
  generalize htext : '"' :: cs = text at h ⊢
  cases h with
  | scalar h =>
    cases h with
    | string h => exact h
    | number h =>
      obtain ⟨c, ds, rfl, hc⟩ := h.starts
      obtain ⟨rfl, -⟩ := List.cons.inj htext
      exact absurd hc (by decide)
    | name h =>
      subst htext
      simp [names] at h
  | @nested bracket => cases bracket <;> cases htext

/-- A value that begins with the opening bracket of a list is a list of values. -/
theorem IsJson.exists_parts {cs : List Char} (h : IsJson ('[' :: cs)) :
    ∃ inner values, Parts (IsPart .list) inner values ∧ (∀ value ∈ values, IsJson value) ∧ cs = inner ++ [']'] := by
  generalize htext : '[' :: cs = text at h
  cases h with
  | scalar h =>
    obtain ⟨c, ds, rfl, -, -, hopened⟩ := h.starts
    obtain ⟨rfl, -⟩ := List.cons.inj htext
    cases hopened
  | @nested bracket inner values hparts hjson =>
    cases bracket with
    | list => exact ⟨inner, values, hparts, hjson, (List.cons.inj htext).2⟩
    | object => cases htext

/-- A string is read from its quotes only, and any other value is refused. -/
theorem keepsToValues_readString : KeepsToValues (readString (ε := ε)) := by
  intro before cs rest hbefore h _
  obtain ⟨c, ds, rfl, hspace, -⟩ := h.starts
  by_cases hquote : c = '"'
  · subst hquote
    obtain ⟨inner, hinner, hcs⟩ := h.isString
    obtain ⟨-, rfl⟩ := List.cons.inj hcs
    obtain ⟨outcome, hread⟩ := hinner.exists_gives_readChars (ε := ε) rest
    have hsplit : before ++ ('"' :: (inner ++ ['"']) ++ rest) = before ++ '"' :: (inner ++ '"' :: rest) := by simp
    refine ⟨outcome.map String.ofList, ?_⟩
    show Gives rest (readString (before ++ ('"' :: (inner ++ ['"']) ++ rest))) _
    rw [hsplit]
    refine Gives.atFirst rfl hbefore (by decide) fun _ => ?_
    rw [if_pos rfl]
    exact hread.map fun _ => ⟨rfl, rfl⟩
  · refine ⟨.error (otherForm c (ds ++ rest)), Gives.atFirst rfl hbefore hspace fun _ => ?_⟩
    rw [if_neg hquote]
    exact Gives.error _

/-- A list whose items keep to values keeps to values, and any other value is refused. -/
theorem KeepsToValues.readList {item : Reader ε α} (hitem : KeepsToValues item) : KeepsToValues (readList item) := by
  intro before cs rest hbefore h _
  obtain ⟨c, ds, rfl, hspace, -⟩ := h.starts
  by_cases hbracket : c = '['
  · subst hbracket
    obtain ⟨inner, values, hparts, hjson, rfl⟩ := h.exists_parts
    have hitems : TakesItems item (fun cs value => IsPart .list cs value ∧ IsJson value) fun _ _ => True := by
      refine ⟨fun hpart => hpart.1.starts hpart.2, fun hbefore hpart hrest => ?_⟩
      obtain ⟨hpart, hvalue⟩ := hpart
      cases hpart
      obtain ⟨outcome, hread⟩ := hitem hbefore hvalue hrest
      exact ⟨outcome, hread, trivial⟩
    have hpartsJson : Parts (fun cs value => IsPart .list cs value ∧ IsJson value) inner values :=
      hparts.imp fun value hvalue _ hpart => ⟨hpart, hjson value hvalue⟩
    obtain ⟨outcome, hread, -⟩ := hitems.gives_readList hbefore hpartsJson rest
    have hsplit : before ++ ('[' :: (inner ++ [']']) ++ rest) = before ++ '[' :: (inner ++ ']' :: rest) := by simp
    refine ⟨outcome, ?_⟩
    rw [hsplit]
    exact hread
  · refine ⟨.error (otherForm c (ds ++ rest)), Gives.atFirst rfl hbefore hspace fun _ => ?_⟩
    rw [if_neg hbracket]
    exact Gives.error _

end Recurrence.Json
