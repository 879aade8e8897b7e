import Recurrence.Expression.Reader
import Recurrence.Json.Catalog
import Recurrence.Json.Number
import Recurrence.Json.Settings
import Recurrence.Json.Skipped
import Recurrence.Json.Text
import Recurrence.Json.Value
import Recurrence.Proofs.Countdown.Clock
import Recurrence.Proofs.Countdown.Left
import Recurrence.Proofs.Countdown.Shown
import Recurrence.Proofs.CycleLength.Cursor
import Recurrence.Proofs.CycleLength.Places
import Recurrence.Proofs.CycleLength.Progress
import Recurrence.Proofs.CycleLength.Reading
import Recurrence.Proofs.CycleLength.Stopping
import Recurrence.Proofs.Expression.Alignment
import Recurrence.Proofs.Expression.Alternatives
import Recurrence.Proofs.Expression.Bounds
import Recurrence.Proofs.Expression.Malformed
import Recurrence.Proofs.Expression.Rendering
import Recurrence.Proofs.Expression.Report
import Recurrence.Proofs.Expression.Strict
import Recurrence.Proofs.Expression.Word
import Recurrence.Proofs.Json.Keeping
import Recurrence.Proofs.Json.Reading
import Recurrence.Proofs.Json.Skipping
import Recurrence.Proofs.Json.Written
import Recurrence.Proofs.Messages
import Recurrence.Proofs.Offset.Coverage
import Recurrence.Proofs.Offset.History
import Recurrence.Proofs.Offset.Loading
import Recurrence.Proofs.Schedule.Exact
import Recurrence.Proofs.Schedule.Kept
import Recurrence.Proofs.Schedule.Loading
import Recurrence.Proofs.Schedule.Pairing
import Recurrence.Proofs.Schedule.Periods
import Recurrence.Proofs.Search.BoundedTime
import Recurrence.Proofs.Search.CheckedDate
import Recurrence.Proofs.Search.Run
import Recurrence.Proofs.Selection
import Recurrence.Saturating
import Recurrence.Schedule.Settings
import Recurrence.Search.Occurrence
import Recurrence.Text.Placed
import Recurrence.Text.Quoted
