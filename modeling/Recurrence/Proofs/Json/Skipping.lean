import Recurrence.Json.Skipped
import Recurrence.Proofs.Json.Nested

/-!
# JSON: values of any form

What JSON a value may be, nested to any depth (`IsJson`), and that such a value is passed over wherever it stands inside open
brackets (`IsJson.passes`). Less is asked of a string here than of one that is used, since an escape may be a surrogate that
stands alone.
-/

namespace Recurrence.Json

variable {ε : Type}

/-! ### The forms of a value -/

/-- The pieces of a string: a character that stands for itself, and the two kinds of escapes. -/
inductive IsPiece : List Char → Prop where
  | plain {c : Char} : ' ' ≤ c → c ≠ '"' → c ≠ '\\' → IsPiece [c]
  | short {letter c : Char} : (letter, c) ∈ shortEscapes → IsPiece ['\\', letter]
  | unit {digits : List Char} {unit : Nat} : WritesUnit digits unit → IsPiece ('\\' :: 'u' :: digits)

/-- Pieces, one after the other. -/
inductive IsPieces : List Char → Prop where
  | nil : IsPieces []
  | cons {cs ds : List Char} : IsPiece cs → IsPieces ds → IsPieces (cs ++ ds)

/-- A string, between quotes. -/
def IsString (cs : List Char) : Prop :=
  ∃ inner, IsPieces inner ∧ cs = '"' :: inner ++ ['"']

/-- The values that are written as a name. -/
def names : List (List Char) :=
  [['n', 'u', 'l', 'l'], ['t', 'r', 'u', 'e'], ['f', 'a', 'l', 's', 'e']]

/-- The values without parts. -/
inductive IsScalar : List Char → Prop where
  | string {cs : List Char} : IsString cs → IsScalar cs
  | number {cs : List Char} {n : Numeral} : WritesNumeral cs n → IsScalar cs
  | name {cs : List Char} : cs ∈ names → IsScalar cs

/-- The character that opens a bracket. -/
def Bracket.opening : Bracket → Char
  | list => '['
  | object => '{'

/-- A part of a list or an object, with the value in it: a list has values, and an object has a name before each. -/
inductive IsPart : Bracket → List Char → List Char → Prop where
  | item {cs : List Char} : IsPart .list cs cs
  | member {name before after cs : List Char} : IsString name → Spaces before → Spaces after →
      IsPart .object (name ++ before ++ ':' :: (after ++ cs)) cs

/-- A value of any form. -/
inductive IsJson : List Char → Prop where
  | scalar {cs : List Char} : IsScalar cs → IsJson cs
  | nested {bracket : Bracket} {inner : List Char} {values : List (List Char)} : Parts (IsPart bracket) inner values →
      (∀ value ∈ values, IsJson value) → IsJson (bracket.opening :: inner ++ [bracket.closing])

/-! ### How a value begins -/

/-- A value without parts begins with a character that opens no bracket. -/
theorem IsScalar.starts {cs : List Char} (h : IsScalar cs) :
    ∃ c ds, cs = c :: ds ∧ isSpace c = false ∧ c ≠ ']' ∧ Bracket.opened? c = none := by
  cases h with
  | string h =>
    obtain ⟨inner, -, rfl⟩ := h
    exact ⟨_, _, rfl, by decide, by decide, rfl⟩
  | number h =>
    obtain ⟨c, ds, hcs, hc⟩ := h.starts
    have hopened : Bracket.opened? c = none := by
      unfold Bracket.opened?
      split
      · revert hc; decide
      · revert hc; decide
      · rfl
    exact ⟨c, ds, hcs, (not_isSpace_of_number hc).1, (not_isSpace_of_number hc).2, hopened⟩
  | name h =>
    simp only [names, List.mem_cons, List.not_mem_nil, or_false] at h
    rcases h with rfl | rfl | rfl <;> exact ⟨_, _, rfl, by decide, by decide, rfl⟩

/-- A value begins with neither a space nor a closing bracket. -/
theorem IsJson.starts {cs : List Char} (h : IsJson cs) : ∃ c ds, cs = c :: ds ∧ isSpace c = false ∧ c ≠ ']' := by
  cases h with
  | scalar h =>
    obtain ⟨c, ds, hcs, hspace, hclose, -⟩ := h.starts
    exact ⟨c, ds, hcs, hspace, hclose⟩
  | @nested bracket => cases bracket <;> exact ⟨_, _, rfl, by decide, by decide⟩

/-! ### Strings -/

/-- A piece is passed over like the characters that it writes. -/
theorem IsPiece.gives_skipChars {cs ds rest : List Char} (h : IsPiece cs)
    (hds : Gives rest (skipChars (ε := ε) ds) (.ok ())) : Gives rest (skipChars (ε := ε) (cs ++ ds)) (.ok ()) := by
  cases h with
  | plain hspace hquote hbackslash =>
    rw [List.singleton_append, skipChars, if_neg hquote, if_neg hbackslash, if_neg (Char.not_lt.mpr hspace)]
    exact hds.map_same fun _ => ⟨rfl, rfl⟩
  | @short letter c hmem =>
    obtain ⟨hletter, hescaped⟩ := escaped?_of_mem hmem
    have hescape : Gives ds (skipEscape (ε := ε) (letter :: ds)) (.ok ()) := by
      rw [skipEscape, if_neg hletter, hescaped, Option.isSome_some, if_pos rfl]
      exact Gives.of_eq rfl rfl
    show Gives rest (skipChars ('\\' :: letter :: ds)) _
    rw [skipChars, if_neg (by decide), if_pos rfl]
    exact hescape.bind_ok fun _ => hds.map_same fun _ => ⟨rfl, rfl⟩
  | @unit digits _ hunit =>
    have hescape : Gives ds (skipEscape (ε := ε) ('u' :: (digits ++ ds))) (.ok ()) := by
      rw [skipEscape, if_pos rfl]
      exact hunit.gives_readHex.map (g := fun _ => ()) fun _ => ⟨rfl, rfl⟩
    show Gives rest (skipChars ('\\' :: 'u' :: (digits ++ ds))) _
    rw [skipChars, if_neg (by decide), if_pos rfl]
    exact hescape.bind_ok fun _ => hds.map_same fun _ => ⟨rfl, rfl⟩

/-- The pieces of a string are passed over up to its closing quote. -/
theorem IsPieces.gives_skipChars {cs : List Char} (h : IsPieces cs) (rest : List Char) :
    Gives rest (skipChars (ε := ε) (cs ++ '"' :: rest)) (.ok ()) := by
  induction h with
  | nil =>
    rw [List.nil_append, skipChars, if_pos rfl]
    exact Gives.of_eq rfl rfl
  | cons hpiece _ ih =>
    rw [List.append_assoc]
    exact hpiece.gives_skipChars ih

/-! ### Values without parts -/

/-- Given letters are passed over. -/
theorem afterLetters_append (letters rest : List Char) :
    ∃ hle, afterLetters (ε := ε) letters (letters ++ rest) = .ok ⟨rest, hle⟩ := by
  induction letters with
  | nil => exact ⟨_, rfl⟩
  | cons letter letters ih =>
    obtain ⟨hle, hafter⟩ := ih
    refine ⟨Nat.le_succ_of_le hle, ?_⟩
    show afterLetters (letter :: letters) (letter :: (letters ++ rest)) = _
    rw [afterLetters, if_pos rfl, hafter]
    rfl

/-- A value without parts is passed over. -/
theorem IsScalar.gives_skipScalar {c : Char} {cs rest : List Char} (h : IsScalar (c :: cs)) (hrest : Ends rest) :
    Gives rest (skipScalar (ε := ε) c (cs ++ rest)) (.ok ()) := by
  generalize htext : c :: cs = text at h
  cases h with
  | string h =>
    obtain ⟨inner, hinner, rfl⟩ := h
    rw [List.cons_append] at htext
    obtain ⟨rfl, rfl⟩ := List.cons.inj htext
    rw [skipScalar, if_pos rfl, List.append_assoc]
    exact (hinner.gives_skipChars rest).map_same fun _ => ⟨rfl, rfl⟩
  | number h =>
    subst htext
    have hc : c = '-' ∨ c.isDigit = true := by
      obtain ⟨_, _, hcs, hc⟩ := h.starts
      cases hcs
      exact hc
    have hquote : c ≠ '"' := by
      rintro rfl
      revert hc
      decide
    rw [skipScalar, if_neg hquote, if_pos hc]
    exact (h.gives_readNumeral .malformed hrest).map (g := fun _ => ()) fun _ => ⟨rfl, rfl⟩
  | name h =>
    subst htext
    have hname : c ≠ '"' ∧ ¬(c = '-' ∨ c.isDigit = true) ∧ nameAfter? c = some cs := by
      simp only [names, List.mem_cons, List.cons.injEq, List.not_mem_nil, or_false] at h
      rcases h with ⟨rfl, rfl⟩ | ⟨rfl, rfl⟩ | ⟨rfl, rfl⟩ <;> decide
    obtain ⟨hquote, hnumber, hletters⟩ := hname
    obtain ⟨hle, hafter⟩ := afterLetters_append (ε := ε) cs rest
    rw [skipScalar, if_neg hquote, if_neg hnumber, hletters, Option.elim_some, hafter]
    exact Gives.of_eq rfl rfl

/-! ### Nested values -/

/-- Reading goes on after a value up to the end of the outermost bracket. A value that is in no bracket is the last. -/
def GoesOn (ε : Type) (brackets : List Bracket) (rest tail : List Char) : Prop :=
  if brackets = [] then rest = tail else Gives tail (skipFrom (ε := ε) .after brackets rest) (.ok ())

/-- A value is passed over wherever it stands, and reading goes on after it. -/
def Passes (ε : Type) (cs : List Char) : Prop :=
  ∀ {before brackets rest tail}, Spaces before → Ends rest → GoesOn ε brackets rest tail →
    Gives tail (skipFrom (ε := ε) .value brackets (before ++ (cs ++ rest))) (.ok ())

/-- What is left after a value is passed over, too. -/
theorem GoesOn.gives {brackets : List Bracket} {cs rest tail : List Char} (h : GoesOn ε brackets rest tail)
    (hlt : rest.length < cs.length) :
    Gives tail (if brackets = [] then Except.ok (ε := Fault ε) (⟨(), rest, hlt⟩ : Taken Unit cs)
      else (skipFrom .after brackets rest).map (·.within hlt)) (.ok ()) := by
  unfold GoesOn at h
  split at h
  · next hnil =>
    subst h
    rw [if_pos hnil]
    exact Gives.ok () hlt
  · next hne =>
    rw [if_neg hne]
    exact h.map_same fun _ => ⟨rfl, rfl⟩

/-- A value without parts is passed over. -/
theorem IsScalar.passes {cs : List Char} (h : IsScalar cs) : Passes ε cs := by
  intro before brackets rest tail hbefore hrest hgoes
  obtain ⟨c, ds, rfl, hspace, -, hopened⟩ := h.starts
  unfold skipFrom
  refine Gives.atFirst rfl hbefore hspace fun _ => ?_
  simp only [hopened]
  exact (h.gives_skipScalar hrest).bind_ok fun hlt => hgoes.gives _

/-- A part of a list or an object is passed over, with the value in it. -/
theorem IsPart.gives_skipFrom {bracket : Bracket} {brackets : List Bracket} {before cs value rest tail : List Char}
    (h : IsPart bracket cs value) (hvalue : Passes ε value) (hbefore : Spaces before) (hrest : Ends rest)
    (hgoes : GoesOn ε brackets rest tail) :
    Gives tail (skipFrom (ε := ε) bracket.part brackets (before ++ (cs ++ rest))) (.ok ()) := by
  cases h with
  | item => exact hvalue hbefore hrest hgoes
  | @member name spaces after _ hname hspaces hafter =>
    obtain ⟨inner, hinner, rfl⟩ := hname
    have hsplit : before ++ ('"' :: inner ++ ['"'] ++ spaces ++ ':' :: (after ++ value) ++ rest) =
        before ++ '"' :: (inner ++ '"' :: (spaces ++ ':' :: (after ++ (value ++ rest)))) := by simp
    rw [hsplit]
    unfold skipFrom
    refine Gives.atFirst rfl hbefore (by decide) fun _ => ?_
    simp only [Bracket.part, ↓reduceIte]
    refine (hinner.gives_skipChars _).bind_ok fun _ => ?_
    refine Gives.atFirst rfl hspaces (by decide) fun _ => ?_
    rw [if_pos rfl]
    exact (hvalue hafter hrest hgoes).map_same fun _ => ⟨rfl, rfl⟩

/-- The closing character of a bracket ends it, after any spaces. -/
theorem goesOn_closing {bracket : Bracket} {outer : List Bracket} {spaces rest tail : List Char} (hspaces : Spaces spaces)
    (hgoes : GoesOn ε outer rest tail) : GoesOn ε (bracket :: outer) (spaces ++ bracket.closing :: rest) tail := by
  rw [GoesOn, if_neg (List.cons_ne_nil _ _)]
  unfold skipFrom
  refine Gives.atFirst rfl hspaces (by cases bracket <;> decide) fun hlt => ?_
  simp only [↓reduceIte]
  exact hgoes.gives hlt

/-- A comma is followed by the next part, after any spaces. -/
theorem goesOn_comma {bracket : Bracket} {outer : List Bracket} {spaces rest tail : List Char} (hspaces : Spaces spaces)
    (h : Gives tail (skipFrom (ε := ε) bracket.part (bracket :: outer) rest) (.ok ())) :
    GoesOn ε (bracket :: outer) (spaces ++ ',' :: rest) tail := by
  rw [GoesOn, if_neg (List.cons_ne_nil _ _)]
  unfold skipFrom
  refine Gives.atFirst rfl hspaces (by decide) fun hlt => ?_
  have hclosing : ',' ≠ bracket.closing := by cases bracket <;> decide
  simp only [if_neg hclosing, ↓reduceIte]
  exact h.map_same fun _ => ⟨rfl, rfl⟩

/-- Parts are passed over, with the bracket that closes after them. -/
theorem Separated.gives_skipFrom {bracket : Bracket} {outer : List Bracket} {cs rest tail : List Char}
    {values : List (List Char)} (h : Separated (IsPart bracket) cs values) (hvalues : ∀ value ∈ values, Passes ε value)
    (hgoes : GoesOn ε outer rest tail) :
    Gives tail (skipFrom (ε := ε) bracket.part (bracket :: outer) (cs ++ bracket.closing :: rest)) (.ok ()) := by
  have hclosing : bracket.closing = ',' ∨ bracket.closing = ']' ∨ bracket.closing = '}' := by cases bracket <;> decide
  induction h with
  | @last before cs after value hbefore hpart hafter =>
    have hsplit : before ++ cs ++ after ++ bracket.closing :: rest =
        before ++ (cs ++ (after ++ bracket.closing :: rest)) := by simp
    rw [hsplit]
    exact hpart.gives_skipFrom (hvalues value List.mem_cons_self) hbefore (ends_append hafter hclosing)
      (goesOn_closing hafter hgoes)
  | @more before cs after ds value values hbefore hpart hafter _ ih =>
    obtain ⟨hvalue, hvalues⟩ := List.forall_mem_cons.mp hvalues
    have hsplit : before ++ cs ++ after ++ ',' :: ds ++ bracket.closing :: rest =
        before ++ (cs ++ (after ++ ',' :: (ds ++ bracket.closing :: rest))) := by simp
    rw [hsplit]
    exact hpart.gives_skipFrom hvalue hbefore (ends_append hafter (Or.inl rfl)) (goesOn_comma hafter (ih hvalues))

/-- A part begins with neither a space nor the closing character of its bracket. -/
theorem IsPart.starts {bracket : Bracket} {cs value : List Char} (h : IsPart bracket cs value) (hvalue : IsJson value) :
    ∃ c ds, cs = c :: ds ∧ isSpace c = false ∧ c ≠ bracket.closing := by
  cases h with
  | item => exact hvalue.starts
  | member hname =>
    obtain ⟨inner, -, rfl⟩ := hname
    exact ⟨'"', _, rfl, by decide, by decide⟩

/-- What is between two brackets is passed over, with the closing one. -/
theorem Parts.gives_skipFrom {bracket : Bracket} {outer : List Bracket} {inner rest tail : List Char}
    {values : List (List Char)} (h : Parts (IsPart bracket) inner values) (hjson : ∀ value ∈ values, IsJson value)
    (hvalues : ∀ value ∈ values, Passes ε value) (hgoes : GoesOn ε outer rest tail) :
    Gives tail (skipFrom (ε := ε) .opened (bracket :: outer) (inner ++ bracket.closing :: rest)) (.ok ()) := by
  unfold skipFrom
  cases h with
  | none hspaces =>
    refine Gives.atFirst rfl hspaces (by cases bracket <;> decide) fun hlt => ?_
    simp only [↓reduceIte]
    exact hgoes.gives hlt
  | some hseparated =>
    have hparts : Separated (fun cs value => IsPart bracket cs value ∧ IsJson value) inner values :=
      hseparated.imp fun value hvalue _ hpart => ⟨hpart, hjson value hvalue⟩
    obtain ⟨spaces, c, ds, rfl, hspaces, hspace, hclose⟩ := hparts.starts fun hpart => hpart.1.starts hpart.2
    refine Gives.atFirst (List.append_assoc spaces (c :: ds) _) hspaces hspace fun _ => ?_
    simp only [if_neg hclose]
    exact hseparated.gives_skipFrom hvalues hgoes

/-- A value of any form is passed over. The induction is on how values are nested; whatever brackets stand around a value are
open while it is read. -/
theorem IsJson.passes {cs : List Char} (h : IsJson cs) : Passes ε cs := by
  induction h with
  | scalar h => exact h.passes
  | @nested bracket inner values hparts hjson ih =>
    intro before brackets rest tail hbefore _ hgoes
    have hsplit : before ++ (bracket.opening :: inner ++ [bracket.closing] ++ rest) =
        before ++ bracket.opening :: (inner ++ bracket.closing :: rest) := by simp
    have hopened : Bracket.opened? bracket.opening = some bracket := by cases bracket <;> rfl
    rw [hsplit]
    unfold skipFrom
    refine Gives.atFirst rfl hbefore (by cases bracket <;> decide) fun _ => ?_
    simp only [hopened]
    exact (hparts.gives_skipFrom hjson ih hgoes).map_same fun _ => ⟨rfl, rfl⟩

/-- A value of any form that is in no bracket is passed over up to its own end. -/
theorem IsJson.gives_skipValue {before cs rest : List Char} (h : IsJson cs) (hbefore : Spaces before) (hrest : Ends rest) :
    Gives rest (skipValue (ε := ε) (before ++ (cs ++ rest))) (.ok ()) := by
  have hdone : GoesOn ε [] rest rest := by rw [GoesOn, if_pos rfl]
  exact h.passes hbefore hrest hdone

end Recurrence.Json
