import Recurrence.Json.Value
import Recurrence.Proofs.Json.Written
import Recurrence.Text.Numeral

/-!
# JSON: reading what is written

A reader takes a form when it reads every text of that form, with spaces before it, and leaves what follows (`Takes`). Strings
and 32-bit integers are taken by their readers, and every number is read as it is written (`WritesNumeral.gives_readNumeral`).
-/

namespace Recurrence.Json

variable {ε α β : Type}

/-- The result of a reader has an outcome: the fault, or the value together with what is left after it. -/
inductive Gives (rest : List Char) {cs : List Char} : Except (Fault ε) (Taken α cs) → Except (Fault ε) α → Prop where
  | ok (value : α) (h : rest.length < cs.length) : Gives rest (.ok ⟨value, rest, h⟩) (.ok value)
  | error (fault : Fault ε) : Gives rest (.error fault) (.error fault)

/-- A reader takes a form when it reads every text of that form. Such a text begins with neither a space nor a closing
bracket. -/
structure Takes (reader : Reader ε α) (writes : List Char → α → Prop) : Prop where
  starts : ∀ {cs a}, writes cs a → ∃ c ds, cs = c :: ds ∧ isSpace c = false ∧ c ≠ ']'
  gives : ∀ {before cs rest a}, Spaces before → writes cs a → Ends rest → Gives rest (reader (before ++ (cs ++ rest))) (.ok a)

/-! ### Results -/

namespace Gives

variable {rest rest' cs ds : List Char}

/-- A value that is taken has itself as outcome. -/
theorem of_eq {t : Taken α cs} {value : α} (hvalue : t.value = value) (hrest : t.rest = rest) :
    Gives rest (Except.ok (ε := Fault ε) t) (.ok value) := by
  subst hvalue hrest
  exact ok t.value t.shorter

/-- A reader that goes on after a value. -/
theorem bind_ok {r : Except (Fault ε) (Taken α cs)} {k : Taken α cs → Except (Fault ε) (Taken β ds)} {value : α}
    {outcome : Except (Fault ε) β} (h : Gives rest r (.ok value))
    (hk : ∀ h, Gives rest' (k ⟨value, rest, h⟩) outcome) : Gives rest' (r >>= k) outcome := by
  cases h with
  | ok _ h => exact hk h

/-- A reader that does not go on after a fault. -/
theorem bind_error {r : Except (Fault ε) (Taken α cs)} {k : Taken α cs → Except (Fault ε) (Taken β ds)} {fault : Fault ε}
    (h : Gives rest r (.error fault)) : Gives rest' (r >>= k) (.error fault) := by
  cases h with
  | error => exact error fault

/-- A result that is seen from an earlier place of the text, with its value changed. -/
theorem map {r : Except (Fault ε) (Taken α cs)} {f : Taken α cs → Taken β ds} {g : α → β} {outcome : Except (Fault ε) α}
    (h : Gives rest r outcome) (hf : ∀ t : Taken α cs, (f t).value = g t.value ∧ (f t).rest = t.rest) :
    Gives rest (r.map f) (outcome.map g) := by
  cases h with
  | ok value h => exact of_eq (hf _).1 (hf _).2
  | error fault => exact error fault

/-- A result that is seen from an earlier place of the text. -/
theorem map_same {r : Except (Fault ε) (Taken α cs)} {f : Taken α cs → Taken α ds} {outcome : Except (Fault ε) α}
    (h : Gives rest r outcome) (hf : ∀ t : Taken α cs, (f t).value = t.value ∧ (f t).rest = t.rest) :
    Gives rest (r.map f) outcome := by
  cases h with
  | ok value h => exact of_eq (hf _).1 (hf _).2
  | error fault => exact error fault

/-- A reader that goes on after a result and only changes its value, seen from an earlier place of the text. -/
theorem bind_map {r : Except (Fault ε) (Taken α cs)} {f : Taken α cs → Taken β ds} {g : α → β}
    {outcome : Except (Fault ε) α} (h : Gives rest r outcome)
    (hf : ∀ t : Taken α cs, (f t).value = g t.value ∧ (f t).rest = t.rest) :
    Gives rest (r >>= fun t => .ok (f t)) (outcome.map g) := by
  cases h with
  | ok value h => exact of_eq (hf _).1 (hf _).2
  | error fault => exact error fault

/-- A reader that goes on after a result and only sees it from an earlier place of the text. -/
theorem bind_same {r : Except (Fault ε) (Taken α cs)} {f : Taken α cs → Taken α ds} {outcome : Except (Fault ε) α}
    (h : Gives rest r outcome) (hf : ∀ t : Taken α cs, (f t).value = t.value ∧ (f t).rest = t.rest) :
    Gives rest (r >>= fun t => .ok (f t)) outcome := by
  cases h with
  | ok value h => exact of_eq (hf _).1 (hf _).2
  | error fault => exact error fault

/-- A result with a value as outcome is that value, with what is left after it. -/
theorem exists_eq {r : Except (Fault ε) (Taken α cs)} {value : α} (h : Gives rest r (.ok value)) :
    ∃ hlt, r = .ok ⟨value, rest, hlt⟩ := by
  cases h with
  | ok _ hlt => exact ⟨hlt, rfl⟩

/-- A fault is its own outcome. -/
theorem eq_error {fault : Fault ε} {outcome : Except (Fault ε) α}
    (h : Gives rest (Except.error (α := Taken α cs) fault) outcome) : outcome = .error fault := by
  cases h
  rfl

end Gives

/-! ### Spaces -/

/-- The first character after spaces. -/
theorem first?_append {spaces rest : List Char} {c : Char} (hspaces : Spaces spaces) (hc : isSpace c = false) :
    ∃ h, first? (spaces ++ c :: rest) = some ⟨c, rest, h⟩ := by
  induction spaces with
  | nil => exact ⟨Nat.lt_succ_self _, by simp [first?, hc, Taken.head]⟩
  | cons d spaces ih =>
    obtain ⟨hd, hspaces⟩ := List.forall_mem_cons.mp hspaces
    obtain ⟨h, hfirst⟩ := ih hspaces
    exact ⟨Nat.lt_succ_of_lt h, by simp [first?, hd, hfirst, Taken.behind]⟩

/-- Reading goes on at the first character after spaces. -/
theorem atFirst_append {cs spaces rest : List Char} {c : Char} (hcs : cs = spaces ++ c :: rest) (hspaces : Spaces spaces)
    (hc : isSpace c = false) (next : (c : Char) → (rest : List Char) → rest.length < cs.length → Except (Fault ε) β) :
    ∃ h, atFirst cs next = next c rest h := by
  subst hcs
  obtain ⟨h, hfirst⟩ := first?_append hspaces hc
  exact ⟨h, by rw [atFirst, hfirst]⟩

/-- The result of going on at the first character after spaces. -/
theorem Gives.atFirst {cs ds spaces tail rest : List Char} {c : Char}
    {next : (c : Char) → (tail : List Char) → tail.length < cs.length → Except (Fault ε) (Taken α ds)}
    {outcome : Except (Fault ε) α} (hcs : cs = spaces ++ c :: tail) (hspaces : Spaces spaces) (hc : isSpace c = false)
    (h : ∀ h, Gives rest (next c tail h) outcome) : Gives rest (Json.atFirst cs next) outcome := by
  obtain ⟨hlt, hfirst⟩ := atFirst_append hcs hspaces hc next
  rw [hfirst]
  exact h hlt

/-- A value may be followed by spaces and a comma or a closing bracket. -/
theorem ends_append {spaces rest : List Char} {c : Char} (hspaces : Spaces spaces) (hc : c = ',' ∨ c = ']' ∨ c = '}') :
    Ends (spaces ++ c :: rest) := by
  cases spaces with
  | nil =>
    intro d hd
    cases hd
    exact Or.inr hc
  | cons d spaces =>
    intro e he
    cases he
    exact Or.inl (hspaces d List.mem_cons_self)

/-! ### Strings -/

/-- A digit of base 16 has its value. -/
theorem IsHexDigit.hexDigit?_eq {c : Char} {value : Nat} (h : IsHexDigit c value) : hexDigit? c = some value := by
  have hdigits : ∀ d < 16, hexDigit? (Nat.digitChar d) = some d ∧ hexDigit? (Nat.digitChar d).toUpper = some d := by decide
  obtain ⟨hlt, rfl | rfl⟩ := h
  · exact (hdigits value hlt).1
  · exact (hdigits value hlt).2

/-- Digits of base 16 have their values. -/
theorem mapM_hexDigit? {cs : List Char} {values : List Nat} (h : List.Forall₂ IsHexDigit cs values) :
    cs.mapM hexDigit? = some values := by
  induction h with
  | nil => rfl
  | cons hc _ ih => rw [List.mapM_cons, hc.hexDigit?_eq, ih]; rfl

/-- Digits of base 16, with the first one the greatest, are worth their number. -/
theorem foldl_eq_ofDigits (values : List Nat) :
    values.foldl (fun n d => 16 * n + d) 0 = Nat.ofDigits 16 values.reverse := by
  rw [Nat.ofDigits_eq_foldr, List.foldr_reverse]
  simp only [Nat.cast_id, Nat.add_comm]

/-- The four digits of a code unit are read. -/
theorem WritesUnit.gives_readHex {cs rest : List Char} {unit : Nat} (h : WritesUnit cs unit) :
    Gives rest (readHex (ε := ε) (cs ++ rest)) (.ok unit) := by
  obtain ⟨hlength, values, hvalues, rfl⟩ := h
  match cs, hlength with
  | [a, b, c, d], _ =>
    have hvalue : hexValue? [a, b, c, d] = some (Nat.ofDigits 16 values.reverse) := by
      rw [hexValue?, mapM_hexDigit? hvalues, Option.map_some, foldl_eq_ofDigits]
    simp only [List.cons_append, List.nil_append, readHex, hvalue]
    exact Gives.of_eq rfl rfl

/-- No character is a surrogate. -/
theorem isSurrogate_toNat (c : Char) : isLowSurrogate c.toNat = false ∧ isHighSurrogate c.toNat = false := by
  have hvalid : c.toNat < 0xD800 ∨ 0xDFFF < c.toNat ∧ c.toNat < 0x110000 := c.valid
  simp only [isLowSurrogate, isHighSurrogate, Bool.and_eq_false_iff, decide_eq_false_iff_not]
  omega

/-- A character beyond U+FFFF is that of its two surrogates. -/
theorem ofSurrogates_toNat {c : Char} (h : 0x10000 ≤ c.toNat) :
    isHighSurrogate (0xD800 + (c.toNat - 0x10000) / 0x400) = true ∧
    isLowSurrogate (0xD800 + (c.toNat - 0x10000) / 0x400) = false ∧
    isLowSurrogate (0xDC00 + (c.toNat - 0x10000) % 0x400) = true ∧
    ofSurrogates (0xD800 + (c.toNat - 0x10000) / 0x400) (0xDC00 + (c.toNat - 0x10000) % 0x400) = c := by
  have hvalid : c.toNat < 0xD800 ∨ 0xDFFF < c.toNat ∧ c.toNat < 0x110000 := c.valid
  have hvalue : 0x10000 + 0x400 * (0xD800 + (c.toNat - 0x10000) / 0x400 - 0xD800) +
      (0xDC00 + (c.toNat - 0x10000) % 0x400 - 0xDC00) = c.toNat := by omega
  refine ⟨?_, ?_, ?_, ?_⟩
  · simp only [isHighSurrogate, Bool.and_eq_true, decide_eq_true_eq]
    omega
  · simp only [isLowSurrogate, Bool.and_eq_false_iff, decide_eq_false_iff_not]
    omega
  · simp only [isLowSurrogate, Bool.and_eq_true, decide_eq_true_eq]
    omega
  · rw [ofSurrogates, hvalue, Char.ofNat_toNat]

/-- The letters of short escapes stand for their characters. -/
theorem escaped?_of_mem {letter c : Char} (h : (letter, c) ∈ shortEscapes) : letter ≠ 'u' ∧ escaped? letter = some c := by
  simp only [shortEscapes, List.mem_cons, Prod.mk.injEq, List.not_mem_nil, or_false] at h
  rcases h with ⟨rfl, rfl⟩ | ⟨rfl, rfl⟩ | ⟨rfl, rfl⟩ | ⟨rfl, rfl⟩ | ⟨rfl, rfl⟩ | ⟨rfl, rfl⟩ | ⟨rfl, rfl⟩ | ⟨rfl, rfl⟩ <;>
    decide

/-- The character of a code unit is read. -/
theorem WritesUnit.gives_readCodePoint {digits rest : List Char} {c : Char} (h : WritesUnit digits c.toNat) :
    Gives rest (readCodePoint (ε := ε) (digits ++ rest)) (.ok c) := by
  obtain ⟨hlow, hhigh⟩ := isSurrogate_toNat c
  refine h.gives_readHex.bind_ok fun _ => ?_
  simp only [hlow, hhigh, Bool.false_eq_true, ↓reduceIte]
  exact Gives.of_eq (Char.ofNat_toNat c) rfl

/-- The character of two surrogates is read. -/
theorem gives_readCodePoint_of_surrogates {high low : List Char} {unit unit' : Nat} (hhigh : WritesUnit high unit)
    (hlow : WritesUnit low unit') (hopens : isHighSurrogate unit = true) (hopens' : isLowSurrogate unit = false)
    (hcloses : isLowSurrogate unit' = true) (rest : List Char) :
    Gives rest (readCodePoint (ε := ε) (high ++ '\\' :: 'u' :: (low ++ rest))) (.ok (ofSurrogates unit unit')) := by
  refine hhigh.gives_readHex.bind_ok fun _ => ?_
  simp only [hopens, hopens', Bool.false_eq_true, ↓reduceIte]
  have hescape : Gives rest (readUnitEscape (ε := ε) ('\\' :: 'u' :: (low ++ rest))) (.ok unit') := by
    rw [readUnitEscape]
    exact hlow.gives_readHex.map_same fun _ => ⟨rfl, rfl⟩
  refine hescape.bind_ok fun _ => ?_
  simp only [hcloses, ↓reduceIte, Taken.andThen, Taken.map]
  exact Gives.ok _ _

/-- A character of a string stands for itself, or it is escaped and read after its backslash. -/
theorem WritesChar.plain_or_escape {cs : List Char} {c : Char} (h : WritesChar cs c) :
    (cs = [c] ∧ ' ' ≤ c ∧ c ≠ '"' ∧ c ≠ '\\') ∨
    ∃ escape, cs = '\\' :: escape ∧ ∀ rest, Gives rest (readEscape (ε := ε) (escape ++ rest)) (.ok c) := by
  cases h with
  | plain hspace hquote hbackslash => exact Or.inl ⟨rfl, hspace, hquote, hbackslash⟩
  | short hmem =>
    obtain ⟨hletter, hescaped⟩ := escaped?_of_mem hmem
    refine Or.inr ⟨_, rfl, fun rest => ?_⟩
    rw [List.singleton_append, readEscape, if_neg hletter, hescaped]
    exact Gives.of_eq rfl rfl
  | unit hunit =>
    refine Or.inr ⟨_, rfl, fun rest => ?_⟩
    rw [List.cons_append, readEscape, if_pos rfl]
    exact hunit.gives_readCodePoint.map_same fun _ => ⟨rfl, rfl⟩
  | @surrogates high low _ hbeyond hhigh hlow =>
    obtain ⟨hopens, hopens', hcloses, hchar⟩ := ofSurrogates_toNat hbeyond
    refine Or.inr ⟨'u' :: (high ++ '\\' :: 'u' :: low), rfl, fun rest => ?_⟩
    have hsplit : 'u' :: (high ++ '\\' :: 'u' :: low) ++ rest = 'u' :: (high ++ '\\' :: 'u' :: (low ++ rest)) := by simp
    have hread := gives_readCodePoint_of_surrogates (ε := ε) hhigh hlow hopens hopens' hcloses rest
    rw [hchar] at hread
    rw [hsplit, readEscape, if_pos rfl]
    exact hread.map_same fun _ => ⟨rfl, rfl⟩

/-- A string is read up to its closing quote. -/
theorem WritesChars.gives_readChars {cs chars : List Char} (h : WritesChars cs chars) (rest : List Char) :
    Gives rest (readChars (ε := ε) (cs ++ '"' :: rest)) (.ok chars) := by
  induction h with
  | nil =>
    rw [List.nil_append, readChars, if_pos rfl]
    exact Gives.of_eq rfl rfl
  | @cons cs ds chars c hc _ ih =>
    rw [List.append_assoc]
    rcases hc.plain_or_escape with ⟨rfl, hspace, hquote, hbackslash⟩ | ⟨escape, rfl, hescape⟩
    · rw [List.singleton_append, readChars, if_neg hquote, if_neg hbackslash, if_neg (Char.not_lt.mpr hspace)]
      exact ih.map fun _ => ⟨rfl, rfl⟩
    · rw [List.cons_append, readChars, if_neg (by decide), if_pos rfl]
      refine (hescape _).bind_ok fun _ => ?_
      exact ih.bind_ok fun _ => Gives.of_eq rfl rfl

/-- A string is read. -/
theorem takes_readString : Takes (readString (ε := ε)) WritesString where
  starts := by
    rintro _ string ⟨inner, -, rfl⟩
    exact ⟨'"', inner ++ ['"'], rfl, by decide, by decide⟩
  gives := by
    rintro before _ rest string hbefore ⟨inner, hinner, rfl⟩ -
    have hsplit : before ++ ('"' :: inner ++ ['"'] ++ rest) = before ++ '"' :: (inner ++ '"' :: rest) := by simp
    rw [hsplit]
    refine Gives.atFirst rfl hbefore (by decide) fun _ => ?_
    rw [if_pos rfl, ← String.ofList_toList (s := string)]
    exact (hinner.gives_readChars rest).map fun _ => ⟨rfl, rfl⟩

/-! ### Numbers -/

/-- What ends a value goes on with neither digits nor a fraction nor an exponent. -/
theorem Ends.not_number {rest : List Char} (h : Ends rest) :
    ∀ c ∈ rest.head?, c.isDigit = false ∧ c ≠ '.' ∧ ¬(c = 'e' ∨ c = 'E') := by
  intro c hc
  have hends := h c hc
  simp only [isSpace, Bool.or_eq_true, decide_eq_true_eq] at hends
  rcases hends with (((rfl | rfl) | rfl) | rfl) | rfl | rfl | rfl <;> decide

/-- Digits before something that is no digit are read as they are. -/
theorem IsDigits.gives_readDigits {digits rest : List Char} (h : IsDigits digits) (atEnd : Fault ε)
    (hrest : ∀ c ∈ rest.head?, c.isDigit = false) : Gives rest (readDigits atEnd (digits ++ rest)) (.ok digits) := by
  obtain ⟨hne, hdigits⟩ := h
  have hstop : rest.takeWhile Char.isDigit = [] ∧ rest.dropWhile Char.isDigit = rest := by
    cases rest with
    | nil => exact ⟨rfl, rfl⟩
    | cons c rest => simp [hrest c rfl]
  cases digits with
  | nil => exact absurd rfl hne
  | cons d digits =>
    obtain ⟨hd, hdigits⟩ := List.forall_mem_cons.mp hdigits
    rw [List.cons_append, readDigits, if_pos hd]
    refine Gives.of_eq ?_ ?_
    · simp only [Taken.headAnd, List.takeWhile_append_of_pos hdigits, hstop.1, List.append_nil]
    · simp only [Taken.headAnd, afterDigits, List.dropWhile_append_of_pos hdigits, hstop.2]

/-- The digits before the point are read as they are. -/
theorem IsWhole.gives_readWhole {whole rest : List Char} (h : IsWhole whole) (atEnd : Fault ε)
    (hrest : ∀ c ∈ rest.head?, c.isDigit = false) : Gives rest (readWhole atEnd (whole ++ rest)) (.ok whole) := by
  refine (h.1.gives_readDigits atEnd hrest).bind_ok fun hlt => ?_
  split
  · next hzero => exact absurd hzero (h.2 _ _)
  · exact Gives.ok _ hlt

/-- The digits after the point are read, and what follows them is left. -/
theorem WritesFraction.readFraction_eq {point fraction rest : List Char} (h : WritesFraction point fraction)
    (atEnd : Fault ε) (hrest : ∀ c ∈ rest.head?, c.isDigit = false ∧ c ≠ '.') :
    ∃ hle, readFraction atEnd (point ++ rest) = .ok (fraction, ⟨rest, hle⟩) := by
  cases h with
  | none =>
    show ∃ hle, readFraction atEnd rest = .ok ([], ⟨rest, hle⟩)
    cases rest with
    | nil => exact ⟨_, rfl⟩
    | cons c rest =>
      refine ⟨Nat.le_refl _, ?_⟩
      rw [readFraction, if_neg (hrest c rfl).2]
      rfl
  | some hdigits =>
    obtain ⟨hlt, hread⟩ := (hdigits.gives_readDigits atEnd fun c hc => (hrest c hc).1).exists_eq
    refine ⟨Nat.le_succ_of_le (Nat.le_of_lt hlt), ?_⟩
    show readFraction atEnd ('.' :: (fraction ++ rest)) = _
    rw [readFraction, if_pos rfl, hread]
    rfl

/-- The sign of an exponent is taken before its digits. -/
theorem WritesSign.takeSign_eq {sign digits : List Char} {isNegative : Bool} (h : WritesSign sign isNegative)
    (hdigits : IsDigits digits) (rest : List Char) :
    ∃ hle, takeSign (sign ++ digits ++ rest) = (isNegative, ⟨digits ++ rest, hle⟩) := by
  cases h with
  | none =>
    obtain ⟨c, ds, rfl⟩ := List.exists_cons_of_ne_nil hdigits.1
    have hsign : ¬(c = '+' ∨ c = '-') := by
      have hc := hdigits.2 c List.mem_cons_self
      rintro (rfl | rfl) <;> cases hc
    refine ⟨Nat.le_refl _, ?_⟩
    show takeSign (c :: (ds ++ rest)) = _
    rw [takeSign, if_neg hsign]
    rfl
  | plus => exact ⟨Nat.le_succ _, rfl⟩
  | minus => exact ⟨Nat.le_succ _, rfl⟩

/-- The exponent is read, and what follows it is left. -/
theorem WritesExponent.readExponent_eq {power rest : List Char} {exponent? : Option (Bool × List Char)}
    (h : WritesExponent power exponent?) (atEnd : Fault ε)
    (hrest : ∀ c ∈ rest.head?, c.isDigit = false ∧ ¬(c = 'e' ∨ c = 'E')) :
    ∃ hle, readExponent atEnd (power ++ rest) = .ok (exponent?, ⟨rest, hle⟩) := by
  cases h with
  | none =>
    show ∃ hle, readExponent atEnd rest = .ok (Option.none, ⟨rest, hle⟩)
    cases rest with
    | nil => exact ⟨_, rfl⟩
    | cons c rest =>
      refine ⟨Nat.le_refl _, ?_⟩
      rw [readExponent, if_neg (hrest c rfl).2]
      rfl
  | @some letter sign digits isNegative hletter hsign hdigits =>
    obtain ⟨hle, htake⟩ := hsign.takeSign_eq hdigits rest
    obtain ⟨hlt, hread⟩ := (hdigits.gives_readDigits atEnd fun c hc => (hrest c hc).1).exists_eq
    refine ⟨Nat.le_succ_of_le (Nat.le_trans (Nat.le_of_lt hlt) hle), ?_⟩
    show readExponent atEnd (letter :: (sign ++ digits ++ rest)) = _
    rw [readExponent, if_pos hletter]
    generalize takeSign (sign ++ digits ++ rest) = taken at htake ⊢
    subst htake
    show (readDigits atEnd (digits ++ rest)).map _ = _
    rw [hread]
    rfl

/-- What follows the whole part of a number begins with no digit, and what follows its fraction with neither a digit nor a
point. -/
theorem head?_of_writesExponent {power rest : List Char} {exponent? : Option (Bool × List Char)}
    (h : WritesExponent power exponent?) (hrest : Ends rest) :
    ∀ c ∈ (power ++ rest).head?, c.isDigit = false ∧ c ≠ '.' := by
  cases h with
  | none =>
    intro c hc
    exact ⟨(hrest.not_number c hc).1, (hrest.not_number c hc).2.1⟩
  | some hletter =>
    intro c hc
    cases hc
    rcases hletter with rfl | rfl <;> decide

/-- A number without its sign is read as it is written. -/
theorem WritesMagnitude.gives_readMagnitude {isNegative : Bool} {cs rest : List Char} {n : Numeral}
    (h : WritesMagnitude isNegative cs n) (atEnd : Fault ε) (hrest : Ends rest) :
    Gives rest (readMagnitude atEnd isNegative (cs ++ rest)) (.ok n) := by
  obtain ⟨hwhole, hfraction, hexponent⟩ := h
  rename_i whole point power fraction exponent?
  have hpower := head?_of_writesExponent hexponent hrest
  have hpoint : ∀ c ∈ (point ++ (power ++ rest)).head?, c.isDigit = false := by
    cases hfraction with
    | none => exact fun c hc => (hpower c hc).1
    | some _ =>
      intro c hc
      cases hc
      rfl
  obtain ⟨hle, hreadFraction⟩ := hfraction.readFraction_eq atEnd hpower
  obtain ⟨hle', hreadExponent⟩ := hexponent.readExponent_eq atEnd fun c hc =>
    ⟨(hrest.not_number c hc).1, (hrest.not_number c hc).2.2⟩
  have hsplit : whole ++ (point ++ power) ++ rest = whole ++ (point ++ (power ++ rest)) := by simp
  rw [hsplit]
  refine (hwhole.gives_readWhole atEnd hpoint).bind_ok fun h => ?_
  simp only [hreadFraction, bind, Except.bind, hreadExponent]
  exact Gives.of_eq rfl rfl

/-- A magnitude begins with a digit. -/
theorem WritesMagnitude.exists_eq_cons {isNegative : Bool} {cs : List Char} {n : Numeral} (h : WritesMagnitude isNegative cs n) :
    ∃ c ds, cs = c :: ds ∧ c.isDigit = true := by
  obtain ⟨⟨⟨hne, hdigits⟩, -⟩, -, -⟩ := h
  obtain ⟨c, ds, rfl⟩ := List.exists_cons_of_ne_nil hne
  exact ⟨c, _, rfl, hdigits c List.mem_cons_self⟩

/-- A number begins with a minus sign or a digit. -/
theorem WritesNumeral.starts {cs : List Char} {n : Numeral} (h : WritesNumeral cs n) :
    ∃ c ds, cs = c :: ds ∧ (c = '-' ∨ c.isDigit = true) := by
  cases h with
  | positive h =>
    obtain ⟨c, ds, hcs, hc⟩ := h.exists_eq_cons
    exact ⟨c, ds, hcs, Or.inr hc⟩
  | negative => exact ⟨_, _, rfl, Or.inl rfl⟩

/-- A number is read as it is written. -/
theorem WritesNumeral.gives_readNumeral {cs rest : List Char} {n : Numeral} (h : WritesNumeral cs n) (atEnd : Fault ε)
    (hrest : Ends rest) : Gives rest (readNumeral atEnd (cs ++ rest)) (.ok n) := by
  cases h with
  | positive h =>
    obtain ⟨c, ds, rfl, hc⟩ := h.exists_eq_cons
    have hsign : c ≠ '-' := by
      rintro rfl
      cases hc
    rw [List.cons_append, readNumeral, if_neg hsign, ← List.cons_append]
    exact h.gives_readMagnitude atEnd hrest
  | negative h =>
    rw [List.cons_append, readNumeral, if_pos rfl]
    exact (h.gives_readMagnitude atEnd hrest).map_same fun _ => ⟨rfl, rfl⟩

/-! ### Integers -/

/-- Decimal digits are one zero, or they do not begin with a zero. -/
theorem toDigits_ne_zero_cons (n : Nat) (c : Char) (cs : List Char) : Nat.toDigits 10 n ≠ '0' :: c :: cs := by
  intro h
  rcases Nat.eq_zero_or_pos n with rfl | hn
  · cases h
  · exact Text.head?_decimal hn (by rw [Text.decimal, h]; rfl)

/-- The decimal digits of a number write it as a magnitude without fraction and exponent. -/
theorem writesMagnitude_toDigits (isNegative : Bool) (n : Nat) :
    WritesMagnitude isNegative (Nat.toDigits 10 n) ⟨isNegative, Nat.toDigits 10 n, [], none⟩ := by
  have hdigits : IsDigits (Nat.toDigits 10 n) :=
    ⟨Nat.toDigits_ne_nil, fun c hc => Nat.isDigit_of_mem_toDigits (by decide) (by decide) hc⟩
  have hmagnitude : WritesMagnitude isNegative (Nat.toDigits 10 n ++ ([] ++ [])) ⟨isNegative, Nat.toDigits 10 n, [], none⟩ :=
    WritesMagnitude.mk ⟨hdigits, toDigits_ne_zero_cons n⟩ WritesFraction.none WritesExponent.none
  simpa using hmagnitude

/-- Digits after a number make it no smaller. -/
theorem le_ofDigitChars (n : Nat) (cs : List Char) : n ≤ Nat.ofDigitChars 10 cs n := by
  rw [Nat.ofDigitChars_eq_ofDigitChars_zero]
  exact Nat.le_add_right_of_le (Nat.le_mul_of_pos_left n (Nat.pow_pos (by decide)))

/-- Digits of a number that is a word are all appended. -/
theorem appendDigits_eq {n : Nat} {cs : List Char} (h : Nat.ofDigitChars 10 cs n ≤ greatestWord) :
    appendDigits n cs = (Nat.ofDigitChars 10 cs n, 0) := by
  induction cs generalizing n with
  | nil => rfl
  | cons c cs ih =>
    rw [Nat.ofDigitChars_cons] at h ⊢
    rw [appendDigits, if_pos (Nat.le_trans (le_ofDigitChars _ cs) h), ih h]

/-- A number below 2^53 is a double. -/
theorem nearestDouble_eq {n : Nat} (h : n < 2 ^ 53) : nearestDouble n = n := by
  have hlog : n.log2 < 53 := by
    rcases Nat.eq_zero_or_pos n with rfl | hn
    · decide
    · exact (Nat.log2_lt hn.ne').mpr h
  rw [nearestDouble, if_pos hlog]

/-- A number of 32 bits does not exceed the doubles. -/
theorem exceedsDoubles_toDigits (isNegative : Bool) {n : Nat} (h : n ≤ 2147483648) :
    Numeral.exceedsDoubles ⟨isNegative, Nat.toDigits 10 n, [], none⟩ = false := by
  have hvalue : Nat.ofDigitChars 10 (Nat.toDigits 10 n) 0 = n := Nat.ofDigitChars_ten_toDigits
  have happend : appendDigits 0 (Nat.toDigits 10 n) = (n, 0) := by
    rw [appendDigits_eq, hvalue]
    rw [hvalue]
    exact Nat.le_trans h (by decide)
  have hscientific : Numeral.scientific ⟨isNegative, Nat.toDigits 10 n, [], none⟩ = (n, 0) := by
    simp [Numeral.scientific, happend, appendDigits, Numeral.exponent]
  have hbound : 2147483648 < doubleBound := by decide
  have hdouble : nearestDouble n = n := nearestDouble_eq (by omega)
  have hone : nearestDouble (Nat.pow 10 (0 : Int).toNat) = 1 := nearestDouble_eq (by decide)
  unfold Numeral.exceedsDoubles
  simp only [hscientific, hdouble, hone, Nat.mul_one]
  split
  · rfl
  · rw [if_neg (by decide), decide_eq_false_iff_not]
    omega

/-- A character that an integer begins with is no space and no bracket. -/
theorem not_isSpace_of_number {c : Char} (h : c = '-' ∨ c.isDigit = true) : isSpace c = false ∧ c ≠ ']' := by
  refine ⟨?_, ?_⟩
  · rw [Bool.eq_false_iff]
    intro hspace
    simp only [isSpace, Bool.or_eq_true, decide_eq_true_eq] at hspace
    rcases hspace with ((rfl | rfl) | rfl) | rfl <;> revert h <;> decide
  · rintro rfl
    revert h
    decide

/-- An integer is written as a number that is that integer. -/
theorem WritesInt.exists_writesNumeral {cs : List Char} {n : Int} (h : WritesInt cs n) :
    ∃ isNegative, WritesNumeral cs ⟨isNegative, Nat.toDigits 10 n.natAbs, [], none⟩ ∧
      Numeral.integer? ⟨isNegative, Nat.toDigits 10 n.natAbs, [], none⟩ = some n := by
  have hvalue : ∀ m, Nat.ofDigitChars 10 (Nat.toDigits 10 m) 0 = m := fun _ => Nat.ofDigitChars_ten_toDigits
  cases h with
  | natural m => exact ⟨false, WritesNumeral.positive (writesMagnitude_toDigits false m), by simp [Numeral.integer?, hvalue]⟩
  | @negative m hm =>
    refine ⟨true, ?_, by simp [Numeral.integer?, hvalue, hm.ne']⟩
    rw [Int.natAbs_neg]
    exact WritesNumeral.negative (writesMagnitude_toDigits true m)

/-- An integer of 32 bits is read as a number that is that integer. -/
theorem WritesInt.gives_readNumber {cs rest : List Char} {n : Int} (h : WritesInt cs n) (hmin : -2147483648 ≤ n)
    (hmax : n ≤ 2147483647) (hrest : Ends rest) :
    ∃ numeral, Gives rest (readNumber (ε := ε) (cs ++ rest)) (.ok numeral) ∧ numeral.integer? = some n := by
  obtain ⟨isNegative, hnumeral, hinteger⟩ := h.exists_writesNumeral
  refine ⟨_, ?_, hinteger⟩
  refine (hnumeral.gives_readNumeral .unfinished hrest).bind_ok fun hlt => ?_
  rw [exceedsDoubles_toDigits isNegative (by omega)]
  exact Gives.ok _ hlt

/-- An integer of 32 bits is read. -/
theorem takes_readInt32 : Takes (readInt32 (ε := ε)) WritesInt32 where
  starts := by
    intro cs value h
    obtain ⟨_, hnumeral, -⟩ := WritesInt.exists_writesNumeral h
    obtain ⟨c, ds, hcs, hc⟩ := hnumeral.starts
    exact ⟨c, ds, hcs, not_isSpace_of_number hc⟩
  gives := by
    intro before cs rest value hbefore h hrest
    obtain ⟨_, hnumeral, -⟩ := WritesInt.exists_writesNumeral h
    obtain ⟨c, ds, rfl, hc⟩ := hnumeral.starts
    have hmin : -2147483648 ≤ value.toInt := value.le_toInt
    have hmax : value.toInt ≤ 2147483647 := Int.le_of_lt_add_one value.toInt_lt
    obtain ⟨numeral, hread, hinteger⟩ := WritesInt.gives_readNumber (ε := ε) h hmin hmax hrest
    have hint32 : int32? numeral = some value := by
      simp [int32?, hinteger, Option.filter, hmin, hmax]
    refine Gives.atFirst rfl hbefore (not_isSpace_of_number hc).1 fun _ => ?_
    rw [if_pos hc]
    refine hread.bind_ok fun _ => ?_
    simp only [hint32]
    exact Gives.ok _ _

end Recurrence.Json
