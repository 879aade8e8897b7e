import Recurrence.Saturating

/-!
# Countdown: the trusted clock

A trusted time, usually that of a server, is known at one reading of the local clock. From then on trusted time goes on
as the local clock does, and it never falls behind the time it was anchored at.
-/

namespace Recurrence

/-- A trusted time and the local reading it was known at, in milliseconds. -/
structure TrustedClock where
  trustedAnchor : Int64
  localAnchor : Int64
  fromServer : Bool
  deriving DecidableEq, Repr

namespace TrustedClock

/-- The clock of a server whose time was `server` when the local clock read `reading`. -/
def ofServer (server reading : Int64) : TrustedClock :=
  ⟨server, reading, true⟩

/-- The local clock, trusted because there is no other. -/
def ofLocal (reading : Int64) : TrustedClock :=
  ⟨reading, reading, false⟩

/-- How far the trusted time was ahead of the local reading when it was anchored. -/
def drift (clock : TrustedClock) : Int64 :=
  clock.trustedAnchor - clock.localAnchor

/-- The trusted time at a local reading. -/
def now (clock : TrustedClock) (reading : Int64) : Int64 :=
  satAdd clock.trustedAnchor (since clock.localAnchor reading)

end TrustedClock

end Recurrence
