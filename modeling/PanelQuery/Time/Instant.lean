import PanelQuery.Time.Civil

/-! # Instants

Points in time, to the nanosecond, on the UTC clock.

* **`Instant`** — nanoseconds since 1970-01-01T00:00:00Z;
* **`Day.midnight`, `Instant.day`** — the first instant of a day, and the day of an instant;
* **`Instant.isNamed`, `Instant.later`** — the instants that can be named, and steps between them;
* **`distinctSorted`** — instants in order, each once. -/

namespace PanelQuery

/-- Nanoseconds since the start of 1970-01-01, UTC. -/
abbrev Instant := Int

/-- The nanoseconds of a second. -/
def nanosPerSecond : Int := 1000000000

/-- The nanoseconds of a day. -/
def nanosPerDay : Int := 86400 * nanosPerSecond

namespace Instant

/-- `ofSeconds seconds nanos`: the instant some seconds and nanoseconds after the start of 1970. -/
def ofSeconds (seconds nanos : Int) : Instant := seconds * nanosPerSecond + nanos

/-- The whole seconds since the start of 1970. -/
def seconds (t : Instant) : Int := t / nanosPerSecond

/-- The nanoseconds after the whole second. -/
def subsecond (t : Instant) : Int := t % nanosPerSecond

/-- The day of an instant. -/
def day (t : Instant) : Day := t / nanosPerDay

/-- The nanoseconds since the start of the day. -/
def timeOfDay (t : Instant) : Int := t % nanosPerDay

/-- The origin that event windows are moved to. -/
def epoch : Instant := 0

/-- The start of time: the first instant of the year −262143. -/
def earliest : Instant := ofSeconds (-8334601228800) 0

/-- The end of time: the last instant of the year 262142. -/
def latest : Instant := ofSeconds 8210266876799 999999999

/-- Whether an instant can be named: `earliest ≤ t ∧ t ≤ latest`. -/
def isNamed (t : Instant) : Bool := decide (earliest ≤ t ∧ t ≤ latest)

end Instant

/-- Why there is no result of a computation with instants. -/
inductive TimeError where
  /-- It would be an instant that cannot be named. -/
  | outOfRange
  deriving DecidableEq, Repr

namespace Instant

/-- The instant `t + span`, if it can be named. -/
def later (t : Instant) (span : Int) : Except TimeError Instant :=
  if isNamed (t + span) then .ok (t + span) else .error .outOfRange

/-- `laterDays t days`: the instant some days later at the same time of day, if it can be named. -/
def laterDays (t : Instant) (days : Int) : Except TimeError Instant :=
  t.later (days * nanosPerDay)

end Instant

/-- The first instant of a day. -/
def Day.midnight (d : Day) : Instant := d * nanosPerDay

/-! ### Sorted instants -/

/-- A sorted list without its repetitions. -/
def dropRepeats : List Instant → List Instant
  | s :: t :: rest => if s = t then dropRepeats (t :: rest) else s :: dropRepeats (t :: rest)
  | ts => ts

/-- The instants in increasing order, each once. -/
def distinctSorted (ts : List Instant) : List Instant :=
  dropRepeats (ts.mergeSort fun s t => decide (s ≤ t))

end PanelQuery
