import Recurrence.Proofs.Expression.Rendering

/-!
# What keeps a set within bounds

The set of a field is normal whatever the text (`Expression.isNormal_values_read`), but it may reach outside the bounds of the
field. That takes a literal outside the bounds: stars, names, steps, the place of Sunday and malformed chunks stay within them
(`Chunk.Denotes.admits`). So a word whose literals are all within bounds has a set within bounds, and nothing is reported about
it (`Expression.values_read_bounds`).
-/

namespace Recurrence

/-! ## Fields -/

/-- A field admits a value between its bounds, and 7 as another Sunday in the day of the week. -/
def Field.Admits (f : Field) (n : Nat) : Prop :=
  (f.min ≤ n ∧ n ≤ f.max) ∨ (f = .dayOfWeek ∧ n = 7)

namespace Field

variable {f : Field} {a b n : Nat}

/-- A field admits its lowest value. -/
theorem admits_min (f : Field) : f.Admits f.min :=
  Or.inl ⟨Nat.le_refl _, f.min_le_max⟩

/-- A field admits its highest value. -/
theorem admits_max (f : Field) : f.Admits f.max :=
  Or.inl ⟨f.min_le_max, Nat.le_refl _⟩

/-- A field admits what is between two values that it admits. -/
theorem Admits.between (ha : f.Admits a) (hb : f.Admits b) (han : a ≤ n) (hnb : n ≤ b) : f.Admits n := by
  rcases hb with ⟨-, hb⟩ | ⟨rfl, rfl⟩
  · rcases ha with ⟨ha, -⟩ | ⟨rfl, rfl⟩
    · exact Or.inl ⟨Nat.le_trans ha han, Nat.le_trans hnb hb⟩
    · have hmax : dayOfWeek.max = 6 := rfl
      omega
  · by_cases h7 : n = 7
    · exact Or.inr ⟨rfl, h7⟩
    · have hmin : dayOfWeek.min = 0 := rfl
      have hmax : dayOfWeek.max = 6 := rfl
      exact Or.inl (by omega)

/-- A field admits the greater of two values that it admits. -/
theorem Admits.max (ha : f.Admits a) (hb : f.Admits b) : f.Admits (Max.max a b) := by
  rcases Nat.le_total a b with hle | hle
  · rwa [Nat.max_eq_right hle]
  · rwa [Nat.max_eq_left hle]

/-- An admitted value is within bounds when Sunday is written as 0. -/
theorem Admits.fold (h : f.Admits n) :
    f.min ≤ (if f = .dayOfWeek ∧ n = 7 then 0 else n) ∧ (if f = .dayOfWeek ∧ n = 7 then 0 else n) ≤ f.max := by
  split
  · next hseven =>
    rw [hseven.1]
    decide
  · next hseven => exact h.resolve_right hseven

end Field

/-! ## Chunks -/

namespace Chunk

/-- A text stands where a chunk has a value: it is the chunk itself, or one side of a dash, and a step may follow. -/
inductive ValueAt : List Char → List Char → Prop where
  | alone {cs : List Char} : ValueAt cs cs
  | left {left right : List Char} : ValueAt (left ++ '-' :: right) left
  | right {left right : List Char} : ValueAt (left ++ '-' :: right) right
  | stepped {cs part stepText : List Char} : ValueAt cs part → ValueAt (cs ++ '/' :: stepText) part

/-- A chunk has a literal as its value or as an end of its range. -/
def HasLiteral (chunk : List Char) (n : Nat) : Prop :=
  ∃ part, ValueAt chunk part ∧ Text.IsLiteral part n

variable {f : Field} {cs chunk : List Char} {first last step v n : Nat}

/-- A value is admitted unless it is a literal that is not: no field has more names than values. -/
theorem IsValue.admits (h : IsValue f cs v) (hliteral : ∀ n, Text.IsLiteral cs n → f.Admits n) : f.Admits v := by
  cases h with
  | name hname =>
    obtain ⟨hlt, -⟩ := List.getElem?_eq_some_iff.mp hname
    have hnames := f.min_add_length_valueNames_le
    exact Or.inl (by omega)
  | literal h _ => exact hliteral v h

/-- The ends of what a text spans are admitted if its literals are. -/
theorem Spans.admits {stepped : Bool} (h : Spans f stepped cs first last) (hliteral : ∀ n, HasLiteral cs n → f.Admits n) :
    f.Admits first ∧ f.Admits last := by
  cases h with
  | star => exact ⟨f.admits_min, f.admits_max⟩
  | alone hv =>
    have hadmits := hv.admits fun n hn => hliteral n ⟨_, .alone, hn⟩
    exact ⟨hadmits, hadmits⟩
  | upward hv =>
    have hadmits := hv.admits fun n hn => hliteral n ⟨_, .alone, hn⟩
    exact ⟨hadmits, f.admits_max.max hadmits⟩
  | range ha hb _ =>
    exact ⟨ha.admits fun n hn => hliteral n ⟨_, .left, hn⟩, hb.admits fun n hn => hliteral n ⟨_, .right, hn⟩⟩

/-- The ends of what a chunk means are admitted if its literals are. -/
theorem Means.admits (h : Means f chunk first last step) (hliteral : ∀ n, HasLiteral chunk n → f.Admits n) :
    f.Admits first ∧ f.Admits last := by
  cases h with
  | plain hspan => exact hspan.admits hliteral
  | stepped hspan _ =>
    refine hspan.admits fun n hn => hliteral n ?_
    obtain ⟨part, hpart, hn⟩ := hn
    exact ⟨part, .stepped hpart, hn⟩

/-- The values that a chunk denotes are admitted if its literals are, or if it is malformed. -/
theorem Denotes.admits (h : Denotes f chunk n) (hliteral : IsWellFormed f chunk → ∀ n, HasLiteral chunk n → f.Admits n) :
    f.Admits n := by
  rcases h with ⟨first, last, step, hmeans, k, rfl, hlast⟩ | ⟨-, rfl⟩
  · obtain ⟨hfirst, hlast'⟩ := hmeans.admits (hliteral ⟨first, last, step, hmeans⟩)
    exact hfirst.between hlast' (Nat.le_add_right _ _) hlast
  · exact f.admits_min

end Chunk

/-! ## Words -/

namespace Expression

variable {f : Field} {word : List Char}

/-- The set of a word is within bounds if the literals of its well-formed chunks are admitted. -/
theorem mem_bounds_of_literals
    (h : ∀ chunk ∈ chunks word, Chunk.IsWellFormed f chunk → ∀ n, Chunk.HasLiteral chunk n → f.Admits n) :
    ∀ n ∈ wordValues f word, f.min ≤ n ∧ n ≤ f.max := by
  intro n hn
  obtain ⟨chunk, hchunk, m, hm, rfl⟩ := mem_wordValues.mp hn
  exact ((mem_chunkValues.mp hm).admits (h chunk hchunk)).fold

/-- Nothing is reported about the bounds of a set that is within them. -/
theorem outOfBounds_notMem_faults {text : String} (h : ∀ n ∈ (read text).values f, f.min ≤ n ∧ n ≤ f.max)
    (lowest highest : Nat) : .outOfBounds f lowest highest ∉ faults text := by
  intro hfault
  obtain ⟨hleast, hgreatest, hout⟩ := outOfBounds_mem_faults_iff.mp hfault
  have hmin := (h lowest hleast.1).1
  have hmax := (h highest hgreatest.1).2
  omega

/-- What is known of the set of a field, whatever the text, in four parts.
1. It has a member.
2. No member is above 9999.
3. In the day of the week 7 is no member.
4. If every literal that is a value or an end of a range in a well-formed chunk of the field's word is between the bounds of the
   field, or is 7 in the day of the week, then every member is between the bounds, and no fault reports the bounds of the
   field. -/
theorem values_read_bounds (text : String) (f : Field) :
    (∃ n, n ∈ (read text).values f) ∧
    (∀ n ∈ (read text).values f, n ≤ 9999) ∧
    (f = .dayOfWeek → 7 ∉ (read text).values f) ∧
    ((∀ chunk ∈ (wordFor (wordsOf text) f).splitOn ',', Chunk.IsWellFormed f chunk → ∀ n, Chunk.HasLiteral chunk n →
        (f.min ≤ n ∧ n ≤ f.max) ∨ (f = .dayOfWeek ∧ n = 7)) →
      (∀ n ∈ (read text).values f, f.min ≤ n ∧ n ≤ f.max) ∧
        ∀ lowest highest, .outOfBounds f lowest highest ∉ faults text) := by
  have hnormal := isNormal_values_read text f
  refine ⟨hnormal.nonempty, hnormal.le_greatest, fun hf hseven => hnormal.no_seven 7 hseven ⟨hf, rfl⟩, fun hliteral => ?_⟩
  have hbounds : ∀ n ∈ (read text).values f, f.min ≤ n ∧ n ≤ f.max := by
    rw [values_read]
    exact mem_bounds_of_literals hliteral
  exact ⟨hbounds, outOfBounds_notMem_faults hbounds⟩

end Expression

end Recurrence
