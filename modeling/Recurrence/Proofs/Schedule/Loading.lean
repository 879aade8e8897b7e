import Recurrence.Json.Settings
import Recurrence.Proofs.Json.Keeping

/-!
# Schedules: loading settings

Settings are read back from every text that renders them: from an object with their members in any order, with members of other
names between them and without those that have their default, and from a list of their values, which may end early. An object
in which one of the three names comes again is refused (`ofJson_rendered`).

The members that were read are described by their names alone (`Settings.draft`), so a run over the members of an object and a
run over the items of a list have the same step.
-/

namespace Recurrence.Settings

open Json

/-! ### Texts -/

/-- The names of the members that settings have, in the order of a list of their values. -/
def keys : List String :=
  ["starts", "intervals", "offset"]

/-- The value under a name: what the settings have there, and any value under a name that is none of theirs. -/
def WritesValue (settings : Settings) (cs : List Char) (name : String) : Prop :=
  match name with
  | "starts" => WritesList WritesString cs settings.starts
  | "intervals" => WritesList WritesString cs settings.intervals
  | "offset" => WritesString cs settings.offset
  | _ => IsJson cs

/-- An object with members of given names, in their order. Each value has the form that is asked for under its name. -/
def WritesNamed (value : List Char → String → Prop) (cs : List Char) (names : List String) : Prop :=
  WritesObject (fun name cs (_ : Unit) => value cs name) cs (names.map fun name => (name, ()))

/-- Names list settings when each member of theirs comes at most once and is left out only if it has its default. -/
structure ListedBy (settings : Settings) (names : List String) : Prop where
  once : ∀ key ∈ keys, names.count key ≤ 1
  starts : "starts" ∉ names → settings.starts = ({} : Settings).starts
  intervals : "intervals" ∉ names → settings.intervals = ({} : Settings).intervals
  offset : "offset" ∉ names → settings.offset = ({} : Settings).offset

/-- The settings with defaults for all members that are not among given names. -/
def only (settings : Settings) (names : List String) : Settings :=
  let defaults : Settings := {}
  ⟨if "starts" ∈ names then settings.starts else defaults.starts,
    if "intervals" ∈ names then settings.intervals else defaults.intervals,
    if "offset" ∈ names then settings.offset else defaults.offset⟩

/-- Settings that are listed by names are those with defaults for the rest. -/
theorem ListedBy.only_eq {settings : Settings} {names : List String} (h : settings.ListedBy names) :
    settings.only names = settings := by
  have hmember : ∀ {α : Type} {key : String} {value default : α}, (key ∉ names → value = default) →
      (if key ∈ names then value else default) = value := by
    intro α key value default hdefault
    split
    · rfl
    · next hnot => exact (hdefault hnot).symm
  obtain ⟨starts, intervals, offset⟩ := settings
  simp only [only, hmember h.starts, hmember h.intervals, hmember h.offset]

/-- Settings without a member left out are themselves. -/
theorem only_keys (settings : Settings) : settings.only keys = settings :=
  rfl

/-! ### Every rendering has a text -/

/-- Every name has a value. -/
theorem exists_writesValue (settings : Settings) (name : String) : ∃ cs, settings.WritesValue cs name := by
  unfold WritesValue
  split
  · exact exists_writesList exists_writesString _
  · exact exists_writesList exists_writesString _
  · exact exists_writesString _
  · exact ⟨_, IsJson.scalar (IsScalar.name List.mem_cons_self)⟩

/-- Any names make an object of settings. -/
theorem exists_writesNamed (settings : Settings) (names : List String) :
    ∃ text, WritesText (WritesNamed settings.WritesValue) text names :=
  exists_writesText (exists_writesObject (fun name _ => exists_writesValue settings name) _)

/-! ### Drafts -/

/-- Whether the member of a name has been read. -/
def Draft.has (draft : Draft) (name : String) : Bool :=
  match name with
  | "starts" => draft.starts?.isSome
  | "intervals" => draft.intervals?.isSome
  | "offset" => draft.offset?.isSome
  | _ => false

/-- A draft with the member of a name taken from settings. -/
def Draft.filled (draft : Draft) (settings : Settings) (name : String) : Draft :=
  match name with
  | "starts" => { draft with starts? := some settings.starts }
  | "intervals" => { draft with intervals? := some settings.intervals }
  | "offset" => { draft with offset? := some settings.offset }
  | _ => draft

/-- The draft of the members of given names. -/
def draftOf (settings : Settings) (names : List String) : Draft :=
  ⟨if "starts" ∈ names then some settings.starts else none, if "intervals" ∈ names then some settings.intervals else none,
    if "offset" ∈ names then some settings.offset else none⟩

/-- A draft of some members makes the settings with defaults for the rest. -/
theorem settings_draftOf (settings : Settings) (names : List String) :
    (settings.draftOf names).settings = settings.only names := by
  have hgetD : ∀ {α : Type} (key : String) (value default : α),
      (if key ∈ names then some value else none).getD default = if key ∈ names then value else default := by
    intro α key value default
    split <;> rfl
  simp only [Draft.settings, draftOf, only, hgetD]

section Readers

variable {name : String} {reader : Draft → Reader Empty Draft}

/-- A name of a member is one of three. -/
theorem eq_of_mem_keys (h : name ∈ keys) : name = "starts" ∨ name = "intervals" ∨ name = "offset" := by
  simpa only [keys, List.mem_cons, List.not_mem_nil, or_false] using h

/-- Any other name is none of the three. -/
theorem ne_of_not_mem_keys (h : name ∉ keys) : name ≠ "starts" ∧ name ≠ "intervals" ∧ name ≠ "offset" := by
  simpa only [keys, List.mem_cons, List.not_mem_nil, or_false, not_or] using h

/-- The value of a member of another name may be any. -/
theorem writesValue_iff_of_not_mem (h : name ∉ keys) (settings : Settings) (cs : List Char) :
    settings.WritesValue cs name ↔ IsJson cs := by
  obtain ⟨hstarts, hintervals, hoffset⟩ := ne_of_not_mem_keys h
  simp only [WritesValue]

/-- A member of another name is not part of a draft. -/
theorem has_of_not_mem (h : name ∉ keys) (draft : Draft) : draft.has name = false := by
  obtain ⟨hstarts, hintervals, hoffset⟩ := ne_of_not_mem_keys h
  simp only [Draft.has]

/-- A member of another name fills nothing. -/
theorem filled_of_not_mem (h : name ∉ keys) (draft : Draft) (settings : Settings) : draft.filled settings name = draft := by
  obtain ⟨hstarts, hintervals, hoffset⟩ := ne_of_not_mem_keys h
  simp only [Draft.filled]

/-- A member has been read into the draft of given names exactly if its name is among them. -/
theorem has_draftOf (h : name ∈ keys) (settings : Settings) (names : List String) :
    (settings.draftOf names).has name = decide (name ∈ names) := by
  have hsome : ∀ {α : Type} (value : α), (if name ∈ names then some value else none).isSome = decide (name ∈ names) := by
    intro α value
    split <;> simp [*]
  rcases eq_of_mem_keys h with rfl | rfl | rfl <;> exact hsome _

/-- A draft of given names is filled by one name more. -/
theorem filled_draftOf (settings : Settings) (names : List String) (name : String) :
    (settings.draftOf names).filled settings name = settings.draftOf (names ++ [name]) := by
  by_cases h : name ∈ keys
  · rcases eq_of_mem_keys h with rfl | rfl | rfl <;> simp [Draft.filled, draftOf]
  · obtain ⟨hstarts, hintervals, hoffset⟩ := ne_of_not_mem_keys h
    simp [filled_of_not_mem h, draftOf, hstarts.symm, hintervals.symm, hoffset.symm]

/-! ### Reading a member -/

/-- The readers of the three members, by their names. -/
def readers : List (String × (Draft → Reader Empty Draft)) :=
  [("starts", Draft.readStarts), ("intervals", Draft.readIntervals), ("offset", Draft.readOffset)]

/-- The names of the readers are those of the members. -/
theorem map_fst_readers : readers.map Prod.fst = keys :=
  rfl

/-- A name of a member has a reader. -/
theorem exists_mem_readers (h : name ∈ keys) : ∃ reader, (name, reader) ∈ readers := by
  rw [← map_fst_readers, List.mem_map] at h
  obtain ⟨⟨_, reader⟩, hmem, rfl⟩ := h
  exact ⟨reader, hmem⟩

/-- The readers are those of the three names. -/
theorem eq_of_mem_readers (h : (name, reader) ∈ readers) :
    name = "starts" ∧ reader = Draft.readStarts ∨ name = "intervals" ∧ reader = Draft.readIntervals ∨
      name = "offset" ∧ reader = Draft.readOffset := by
  simpa only [readers, List.mem_cons, Prod.mk.injEq, List.not_mem_nil, or_false] using h

/-- A member is refused when one of its name has been read, and otherwise it is read by the reader of its name. -/
theorem readNamed_of_mem (h : (name, reader) ∈ readers) (draft : Draft) :
    draft.readNamed name = if draft.has name then .error .unfit else .ok (reader draft) := by
  rcases eq_of_mem_readers h with ⟨rfl, rfl⟩ | ⟨rfl, rfl⟩ | ⟨rfl, rfl⟩ <;> rfl

/-- The value of a member is read as what the settings have there. -/
theorem gives_of_mem (h : (name, reader) ∈ readers) {settings : Settings} {before cs rest : List Char}
    (hbefore : Spaces before) (hvalue : settings.WritesValue cs name) (hrest : Ends rest) (draft : Draft) :
    Gives rest (reader draft (before ++ (cs ++ rest))) (.ok (draft.filled settings name)) := by
  have hput : ∀ {α : Type} {reader : Reader Empty α} {writes : List Char → α → Prop} {a : α} (put : α → Draft),
      Takes reader writes → writes cs a → Gives rest ((reader (before ++ (cs ++ rest))).map (·.map put)) (.ok (put a)) :=
    fun put htakes hwrites => (htakes.gives hbefore hwrites hrest).map fun _ => ⟨rfl, rfl⟩
  rcases eq_of_mem_readers h with ⟨rfl, rfl⟩ | ⟨rfl, rfl⟩ | ⟨rfl, rfl⟩
  · exact hput _ takes_readString.readList hvalue
  · exact hput _ takes_readString.readList hvalue
  · exact hput _ takes_readString hvalue

/-- A member of another name is passed over. -/
theorem gives_of_not_mem (h : name ∉ keys) {before cs rest : List Char} (hbefore : Spaces before) (hvalue : IsJson cs)
    (hrest : Ends rest) (draft : Draft) :
    Gives rest (draft.readNamed name >>= fun reader => reader (before ++ (cs ++ rest))) (.ok draft) := by
  obtain ⟨hstarts, hintervals, hoffset⟩ := ne_of_not_mem_keys h
  have hreader : draft.readNamed name = .ok fun cs => (skipValue cs).map (·.map fun _ => draft) := by
    simp only [Draft.readNamed]
  rw [hreader]
  show Gives rest ((skipValue (before ++ (cs ++ rest))).map (·.map fun _ => draft)) _
  exact (hvalue.gives_skipValue hbefore hrest).map (g := fun _ => draft) fun _ => ⟨rfl, rfl⟩

/-- A value of any form under the name of a member is refused, or it is read whole and the member is then part of the draft. -/
theorem keeps_of_mem (h : (name, reader) ∈ readers) {before cs rest : List Char} (hbefore : Spaces before)
    (hvalue : IsJson cs) (hrest : Ends rest) (draft : Draft) :
    ∃ outcome, Gives rest (reader draft (before ++ (cs ++ rest))) outcome ∧
      ∀ draft', outcome = .ok draft' → ∀ key, draft'.has key = (decide (key = name) || draft.has key) := by
  have hput : ∀ {α : Type} {reader : Reader Empty α} (put : α → Draft), KeepsToValues reader →
      (∀ a key, (put a).has key = (decide (key = name) || draft.has key)) →
      ∃ outcome, Gives rest ((reader (before ++ (cs ++ rest))).map (·.map put)) outcome ∧
        ∀ draft', outcome = .ok draft' → ∀ key, draft'.has key = (decide (key = name) || draft.has key) := by
    intro α reader put hkeeps hhas
    obtain ⟨outcome, hread⟩ := hkeeps hbefore hvalue hrest
    refine ⟨outcome.map put, hread.map fun _ => ⟨rfl, rfl⟩, fun draft' houtcome => ?_⟩
    cases outcome with
    | error fault => cases houtcome
    | ok a =>
      cases houtcome
      exact hhas a
  rcases eq_of_mem_readers h with ⟨rfl, rfl⟩ | ⟨rfl, rfl⟩ | ⟨rfl, rfl⟩
  · refine hput _ keepsToValues_readString.readList fun a key => ?_
    unfold Draft.has
    split <;> simp_all
  · refine hput _ keepsToValues_readString.readList fun a key => ?_
    unfold Draft.has
    split <;> simp_all
  · refine hput _ keepsToValues_readString fun a key => ?_
    unfold Draft.has
    split <;> simp_all

end Readers

/-! ### Reading the members of an object -/

/-- A member with a value of the settings is read into the draft, unless one of its name has been read. -/
def Filling (settings : Settings) (draft : Draft) (m : String × Unit) (outcome : Except (Fault Empty) Draft) : Prop :=
  draft.has m.1 = false → outcome = .ok (draft.filled settings m.1)

/-- A member with a value of any form is refused when one of its name has been read. If it is read, only the member of its name
is new to the draft. -/
def Adding (draft : Draft) (m : String × Unit) (outcome : Except (Fault Empty) Draft) : Prop :=
  ∀ draft', outcome = .ok draft' → (m.1 ∈ keys → draft.has m.1 = false) ∧
    ∀ key ∈ keys, draft'.has key = (decide (key = m.1) || draft.has key)

/-- The members of an object of settings are read by filling a draft. -/
theorem takesMembers_filling (settings : Settings) :
    TakesMembers Draft.readNamed (fun name cs (_ : Unit) => settings.WritesValue cs name) settings.Filling := by
  intro draft name _ before cs rest hbefore hvalue hrest
  by_cases h : name ∈ keys
  · obtain ⟨reader, hmem⟩ := exists_mem_readers h
    rw [readNamed_of_mem hmem]
    cases hhas : draft.has name with
    | true => exact ⟨_, Gives.error .unfit, fun hnot => by cases hhas.symm.trans hnot⟩
    | false => exact ⟨_, gives_of_mem hmem hbefore hvalue hrest draft, fun _ => rfl⟩
  · have hany : IsJson cs := (writesValue_iff_of_not_mem h settings cs).mp hvalue
    refine ⟨.ok draft, gives_of_not_mem h hbefore hany hrest draft, fun _ => ?_⟩
    rw [filled_of_not_mem h]

/-- The members of any object are read by adding them to a draft. -/
theorem takesMembers_adding : TakesMembers Draft.readNamed (fun _ cs (_ : Unit) => IsJson cs) Adding := by
  intro draft name _ before cs rest hbefore hvalue hrest
  by_cases h : name ∈ keys
  · obtain ⟨reader, hmem⟩ := exists_mem_readers h
    rw [readNamed_of_mem hmem]
    cases hhas : draft.has name with
    | true => exact ⟨_, Gives.error .unfit, fun _ houtcome => by cases houtcome⟩
    | false =>
      obtain ⟨outcome, hread, hadded⟩ := keeps_of_mem hmem hbefore hvalue hrest draft
      exact ⟨outcome, hread, fun draft' houtcome => ⟨fun _ => hhas, fun key _ => hadded draft' houtcome key⟩⟩
  · refine ⟨.ok draft, gives_of_not_mem h hbefore hvalue hrest draft, fun draft' houtcome => ?_⟩
    cases houtcome
    refine ⟨fun hkey => absurd hkey h, fun key hkey => ?_⟩
    have hne : key ≠ name := fun heq => h (heq ▸ hkey)
    rw [decide_eq_false hne, Bool.false_or]

/-- Members that come at most once are all read. The names read before are kept apart from those to come, so that a name is not
among them when its turn comes. -/
theorem steps_filling {settings : Settings} {before names : List String} {outcome : Except (Fault Empty) Draft}
    (h : Steps settings.Filling (settings.draftOf before) (names.map fun name => (name, ())) outcome)
    (honce : ∀ key ∈ keys, (before ++ names).count key ≤ 1) : outcome = .ok (settings.draftOf (before ++ names)) := by
  induction names generalizing before with
  | nil =>
    cases h
    rw [List.append_nil]
  | cons name names ih =>
    have hhas : (settings.draftOf before).has name = false := by
      by_cases hkey : name ∈ keys
      · have hcount := honce name hkey
        rw [List.count_append, List.count_cons_self] at hcount
        have hnot : name ∉ before := List.count_eq_zero.mp (by omega)
        rw [has_draftOf hkey, decide_eq_false hnot]
      · exact has_of_not_mem hkey _
    have hassoc : before ++ name :: names = before ++ [name] ++ names := by simp
    rw [hassoc] at honce ⊢
    cases h with
    | stop hstep => cases hstep hhas
    | next hstep hsteps =>
      cases hstep hhas
      rw [filled_draftOf] at hsteps
      exact ih hsteps honce

/-- Members that are all read come at most once, and not again when they were in the draft before. -/
theorem count_le_one_of_steps {draft draft' : Draft} {names : List String}
    (h : Steps Adding draft (names.map fun name => (name, ())) (.ok draft')) {key : String} (hkey : key ∈ keys) :
    names.count key ≤ 1 ∧ (draft.has key = true → key ∉ names) := by
  induction names generalizing draft with
  | nil => exact ⟨Nat.zero_le 1, fun _ => List.not_mem_nil⟩
  | cons name names ih =>
    cases h with
    | next hstep hsteps =>
      obtain ⟨hnew, hadded⟩ := hstep _ rfl
      obtain ⟨hcount, hnot⟩ := ih hsteps
      rw [hadded key hkey] at hnot
      by_cases hname : key = name
      · subst hname
        have hnames : key ∉ names := hnot (by simp)
        refine ⟨?_, fun hhas => ?_⟩
        · rw [List.count_cons_self, List.count_eq_zero.mpr hnames]
        · cases hhas.symm.trans (hnew hkey)
      · refine ⟨?_, fun hhas => ?_⟩
        · rw [List.count_cons_of_ne (Ne.symm hname)]
          exact hcount
        · rw [List.mem_cons, not_or]
          exact ⟨hname, hnot (by simp [hhas])⟩

/-! ### Reading a whole text -/

/-- An object is read by steps over its members. -/
theorem ofJson_of_writesNamed {value : List Char → String → Prop}
    {step : Draft → String × Unit → Except (Fault Empty) Draft → Prop}
    (htakes : TakesMembers Draft.readNamed (fun name cs (_ : Unit) => value cs name) step) {text : String}
    {names : List String} (h : WritesText (WritesNamed value) text names) :
    ∃ outcome, Steps step {} (names.map fun name => (name, ())) outcome ∧ ofJson text = outcome.map Draft.settings := by
  obtain ⟨before, _, after, hbefore, ⟨inner, hinner, rfl⟩, hafter, htext⟩ := h
  obtain ⟨outcome, hread, hsteps⟩ := htakes.gives_readObject hinner after {}
  refine ⟨outcome, hsteps, ?_⟩
  have hsplit : text.toList = before ++ '{' :: (inner ++ '}' :: after) := by simp [htext]
  have hdocument : readDocument Draft.reader text = outcome := by
    refine readDocument_eq hafter ?_
    rw [hsplit]
    refine Gives.atFirst rfl hbefore (by decide) fun _ => ?_
    rw [if_pos rfl]
    exact hread.map_same fun _ => ⟨rfl, rfl⟩
  rw [ofJson, hdocument]

/-- The first values of a list fill the first readers. -/
theorem fills_readers (settings : Settings) {slots : List (String × (Draft → Reader Empty Draft))}
    (hslots : ∀ slot ∈ slots, slot ∈ readers) (k : Nat) (before : List String) :
    Fills settings.WritesValue (slots.map Prod.snd) ((slots.map Prod.fst).take k) (settings.draftOf before)
      (settings.draftOf (before ++ (slots.map Prod.fst).take k)) := by
  induction slots generalizing k before with
  | nil =>
    rw [List.map_nil, List.map_nil, List.take_nil, List.append_nil]
    exact Fills.nil
  | cons slot slots ih =>
    obtain ⟨hslot, hslots⟩ := List.forall_mem_cons.mp hslots
    cases k with
    | zero =>
      rw [List.take_zero, List.append_nil]
      exact Fills.nil
    | succ k =>
      have hassoc : before ++ slot.1 :: (slots.map Prod.fst).take k = before ++ [slot.1] ++ (slots.map Prod.fst).take k := by
        simp
      rw [List.map_cons, List.map_cons, List.take_succ_cons, hassoc]
      refine Fills.cons (fun hbefore hvalue hrest => ?_) (ih hslots k (before ++ [slot.1]))
      rw [← filled_draftOf]
      exact gives_of_mem hslot hbefore hvalue hrest _

/-- A value begins with neither a space nor a closing bracket. -/
theorem WritesValue.starts {settings : Settings} {cs : List Char} {name : String} (h : settings.WritesValue cs name) :
    ∃ c ds, cs = c :: ds ∧ isSpace c = false ∧ c ≠ ']' := by
  unfold WritesValue at h
  split at h
  · exact (takes_readString (ε := Empty)).readList.starts h
  · exact (takes_readString (ε := Empty)).readList.starts h
  · exact (takes_readString (ε := Empty)).starts h
  · exact h.starts

/-- A list of the first values of settings is read as settings with defaults for the rest. -/
theorem ofJson_of_writesList {settings : Settings} {k : Nat} {text : String}
    (h : WritesText (WritesList settings.WritesValue) text (keys.take k)) :
    ofJson text = .ok (settings.only (keys.take k)) := by
  obtain ⟨before, _, after, hbefore, ⟨inner, hinner, rfl⟩, hafter, htext⟩ := h
  have hfills := fills_readers settings (fun _ => id) k []
  have hread := Fills.gives_readSlots WritesValue.starts hinner hfills after
  have hsplit : text.toList = before ++ '[' :: (inner ++ ']' :: after) := by simp [htext]
  have hdocument : readDocument Draft.reader text = .ok (settings.draftOf (keys.take k)) := by
    refine readDocument_eq hafter ?_
    rw [hsplit]
    refine Gives.atFirst rfl hbefore (by decide) fun _ => ?_
    rw [if_neg (by decide), if_pos rfl]
    exact hread.map_same fun _ => ⟨rfl, rfl⟩
  rw [ofJson, hdocument, ← settings_draftOf]
  rfl

/-- Reading settings undoes writing them.

1. An object that lists settings is read as these settings, in any order of the members and with any members of other names
   between them. There is such an object for all names that list the settings.
2. A list of the three values is read as the settings, and a list that ends early as the settings with defaults for the rest.
3. An object in which one of the three names comes again is refused, whatever values it has. -/
theorem ofJson_rendered (settings : Settings) :
    (∀ names, settings.ListedBy names →
      (∃ text, WritesText (WritesNamed settings.WritesValue) text names) ∧
      ∀ text, WritesText (WritesNamed settings.WritesValue) text names → ofJson text = .ok settings) ∧
    (∀ text, WritesText (WritesList settings.WritesValue) text keys → ofJson text = .ok settings) ∧
    (∀ k text, WritesText (WritesList settings.WritesValue) text (keys.take k) →
      ofJson text = .ok (settings.only (keys.take k))) ∧
    ∀ text names, WritesText (WritesNamed fun cs _ => IsJson cs) text names → (∃ key ∈ keys, 2 ≤ names.count key) →
      ∃ fault, ofJson text = .error fault := by
  refine ⟨fun names hlisted => ⟨exists_writesNamed settings names, fun text htext => ?_⟩, fun text htext => ?_,
    fun k text htext => ofJson_of_writesList htext, fun text names htext hagain => ?_⟩
  · obtain ⟨outcome, hsteps, hjson⟩ := ofJson_of_writesNamed (takesMembers_filling settings) htext
    have houtcome : outcome = .ok (settings.draftOf ([] ++ names)) := steps_filling hsteps hlisted.once
    have hsettings : (settings.draftOf names).settings = settings := by rw [settings_draftOf, hlisted.only_eq]
    rw [hjson, houtcome, List.nil_append]
    exact congrArg Except.ok hsettings
  · have hall : ofJson text = .ok (settings.only keys) := ofJson_of_writesList (k := 3) htext
    rw [hall, only_keys]
  · obtain ⟨outcome, hsteps, hjson⟩ := ofJson_of_writesNamed takesMembers_adding htext
    obtain ⟨key, hkey, hcount⟩ := hagain
    cases outcome with
    | error fault => exact ⟨fault, hjson⟩
    | ok draft =>
      have hle := (count_le_one_of_steps hsteps hkey).1
      omega

/-- An offset that is written with an escape is read back behind a list that is passed over, and the lists that are left out have
their defaults. -/
theorem ofJson_rendered_escaped :
    WritesText (WritesNamed (WritesValue { offset := "a" })) "\x7b\"x\":[null],\n\"offset\":\"\\u0061\"\x7d" ["x", "offset"] ∧
    ofJson "\x7b\"x\":[null],\n\"offset\":\"\\u0061\"\x7d" = .ok { offset := "a" } := by
  have hlist : IsJson "[null]".toList := by
    have hnull : IsJson ['n', 'u', 'l', 'l'] := IsJson.scalar (IsScalar.name List.mem_cons_self)
    have hitem : IsPart .list ['n', 'u', 'l', 'l'] ['n', 'u', 'l', 'l'] := IsPart.item
    exact IsJson.nested (Parts.some (Separated.last spaces_nil hitem spaces_nil)) (List.forall_mem_singleton.mpr hnull)
  have hoffset : WritesString "\"\\u0061\"".toList "a" := by
    have hunit : WritesUnit ['0', '0', '6', '1'] 'a'.toNat := ⟨rfl, [0, 0, 6, 1], by simp [IsHexDigit], rfl⟩
    exact ⟨_, WritesChars.cons (WritesChar.unit hunit) WritesChars.nil, rfl⟩
  have hname : ∀ chars : List Char, (∀ c ∈ chars, ' ' ≤ c ∧ c ≠ '"' ∧ c ≠ '\\') →
      WritesString ('"' :: chars ++ ['"']) (String.ofList chars) := by
    intro chars hchars
    exact ⟨chars, by rw [String.toList_ofList]; exact writesChars_of_plain hchars, rfl⟩
  have hnewline : Spaces ['\n'] := List.all_eq_true.mp (by decide)
  have htext : WritesText (WritesNamed (WritesValue { offset := "a" }))
      "\x7b\"x\":[null],\n\"offset\":\"\\u0061\"\x7d" ["x", "offset"] := by
    have hfirst : WritesMember (fun name cs (_ : Unit) => WritesValue { offset := "a" } cs name) "\"x\":[null]".toList ("x", ()) :=
      WritesMember.mk (hname ['x'] (by simp)) spaces_nil spaces_nil hlist
    have hsecond : WritesMember (fun name cs (_ : Unit) => WritesValue { offset := "a" } cs name) "\"offset\":\"\\u0061\"".toList
        ("offset", ()) :=
      WritesMember.mk (hname "offset".toList (by simp)) spaces_nil spaces_nil hoffset
    exact ⟨[], _, [], spaces_nil, ⟨_, Parts.some (Separated.more spaces_nil hfirst spaces_nil
      (Separated.last hnewline hsecond spaces_nil)), rfl⟩, spaces_nil, rfl⟩
  have hlisted : ListedBy { offset := "a" } ["x", "offset"] :=
    ⟨by decide, fun _ => rfl, fun _ => rfl, fun hnot => absurd (by decide) hnot⟩
  exact ⟨htext, ((ofJson_rendered { offset := "a" }).1 _ hlisted).2 _ htext⟩

end Recurrence.Settings
