import Recurrence.Json.Skipped
import Recurrence.Json.Value
import Recurrence.Schedule.Settings

/-!
# JSON: settings of a schedule

Settings are an object with the members `starts`, `intervals` and `offset`, in any order, each at most once; members of
other names are passed over. They may also be a list of the three values in this order, which may end early. What is left
out has its default.
-/

namespace Recurrence.Settings

open Json

/-- The settings read so far. -/
structure Draft where
  starts? : Option (List String) := none
  intervals? : Option (List String) := none
  offset? : Option String := none
  deriving DecidableEq, Repr

namespace Draft

/-- The settings of a draft, with defaults for what it leaves out. -/
def settings (draft : Draft) : Settings :=
  let defaults : Settings := {}
  ⟨draft.starts?.getD defaults.starts, draft.intervals?.getD defaults.intervals, draft.offset?.getD defaults.offset⟩

/-- The draft with the expressions read. -/
def readStarts (draft : Draft) : Reader Empty Draft := fun cs =>
  (readList readString cs).map (·.map fun starts => { draft with starts? := some starts })

/-- The draft with the cycle lengths read. -/
def readIntervals (draft : Draft) : Reader Empty Draft := fun cs =>
  (readList readString cs).map (·.map fun intervals => { draft with intervals? := some intervals })

/-- The draft with the offset read. -/
def readOffset (draft : Draft) : Reader Empty Draft := fun cs =>
  (readString cs).map (·.map fun offset => { draft with offset? := some offset })

/-- The reader of a member by its name. A name that comes a second time is refused. -/
def readNamed (draft : Draft) (name : String) : Except (Fault Empty) (Reader Empty Draft) :=
  match name with
  | "starts" => if draft.starts?.isSome then .error .unfit else .ok draft.readStarts
  | "intervals" => if draft.intervals?.isSome then .error .unfit else .ok draft.readIntervals
  | "offset" => if draft.offset?.isSome then .error .unfit else .ok draft.readOffset
  | _ => .ok fun cs => (skipValue cs).map (·.map fun _ => draft)

/-- A draft, from an object or a list. -/
def reader : Reader Empty Draft := fun cs =>
  atFirst cs fun c rest h =>
    if c = '{' then (readObject readNamed {} rest).map (·.within h)
    else if c = '[' then (readSlots [readStarts, readIntervals, readOffset] true {} rest).map (·.within h)
    else .error (otherForm c rest)

end Draft

/-- The settings that a JSON text holds. -/
def ofJson (text : String) : Except (Fault Empty) Settings :=
  (readDocument Draft.reader text).map Draft.settings

end Recurrence.Settings
