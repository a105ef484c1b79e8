import PanelQuery.Panel

/-! # Time windows

The stretch of time that a query is about. Relative windows end at the latest observation of the
panel.

* **`TimeWindow`** — the windows;
* **`TimeWindow.contains`** — which times belong to one;
* **`Panel.clip`** — the panel within a window. -/

namespace PanelQuery

/-- A stretch of time. -/
inductive TimeWindow where
  /-- Some months up to the latest observation. -/
  | lastMonths (n : Nat)
  /-- From the start of the year of the latest observation up to it. -/
  | yearToDate
  /-- Between two times, both included. -/
  | between (first last : Instant)
  /-- All of it. -/
  | allTime
  deriving DecidableEq, Repr

/-- `Instant.monthsBefore? t months`: the same time of day some months earlier, unless that is
before the first time that dates can name. -/
def Instant.monthsBefore? (t : Instant) (months : Nat) : Option Instant :=
  let earlier := Day.midnight (Day.monthsBefore (Instant.day t) months) + Instant.timeOfDay t
  if Instant.earliest ≤ earlier then some earlier else none

/-- The start of the year of an instant. -/
def Instant.yearStart (t : Instant) : Instant :=
  Day.midnight (Month.firstDay (Month.ofYear (Day.civil (Instant.day t)).year 1))

/-- `TimeWindow.contains w anchor t`: whether a time belongs to a window that is anchored on the
latest observation. The window of some months begins after the time that many months earlier, and
has no beginning when there is no such time; all others include both ends. -/
def TimeWindow.contains (w : TimeWindow) (anchor t : Instant) : Bool :=
  match w with
  | lastMonths n =>
      (anchor.monthsBefore? n).all (fun begins => decide (begins < t)) && decide (t ≤ anchor)
  | yearToDate => decide (anchor.yearStart ≤ t) && decide (t ≤ anchor)
  | between first last => decide (first ≤ t) && decide (t ≤ last)
  | allTime => true

/-- `Panel.clip p w`: the panel within a window; weights are cut like all other series. -/
def Panel.clip {α : Type} (p : Panel α) (w : TimeWindow) : Panel α :=
  match p.span? with
  | none => p
  | some (_, anchor) => p.mapSeries fun s => s.keep fun q => w.contains anchor q.time

end PanelQuery
