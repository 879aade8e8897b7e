import Recurrence.Saturating
import Recurrence.Search.Occurrence

/-!
# Schedule: selecting a candidate

A candidate is an expression together with the length of the cycle that begins at each of its occurrences. Of several
candidates the one that occurred last is selected, the first of them on a tie, and what is left of its cycle is the answer.
-/

namespace Recurrence

/-- An expression, and the seconds from each of its occurrences to the end of the cycle. -/
structure Candidate where
  expression : Expression
  cycle : UInt64
  deriving DecidableEq

/-- The seconds left, and the index of the candidate that they are counted for. -/
structure Selection where
  remaining : UInt64
  index : Nat
  deriving DecidableEq, Repr

namespace Selection

/-- A candidate that has occurred: its index, and the milliseconds since then. -/
structure Occurred where
  index : Nat
  cycle : UInt64
  elapsed : UInt64
  deriving DecidableEq, Repr

/-- The candidates that have occurred by an instant, in order. -/
def occurred (candidates : List Candidate) (now : Int64) : List Occurred :=
  candidates.zipIdx.filterMap fun (candidate, index) =>
    (candidate.expression.elapsed? now).map (Occurred.mk index candidate.cycle)

/-- The candidate that occurred last, and the first of them on a tie. -/
def latest? (candidates : List Candidate) (now : Int64) : Option Occurred :=
  (occurred candidates now).minOn? Occurred.elapsed

/-- Milliseconds to the nearest second, and a half to the next one. -/
def roundToSeconds (millis : UInt64) : UInt64 :=
  (millis + 500) / 1000

/-- What is left of the cycle of the candidate that occurred last. When none has occurred, the first has its full cycle. -/
def ofCandidates (candidates : List Candidate) (now : Int64) : Selection :=
  match latest? candidates now, candidates with
  | some last, _ => ⟨monus last.cycle (roundToSeconds last.elapsed), last.index⟩
  | none, first :: _ => ⟨first.cycle, 0⟩
  | none, [] => ⟨0, 0⟩

end Selection

end Recurrence
