import PanelQuery.Alignment
import PanelQuery.Panel

/-! # Panels on calendars

What a calendar does to a whole panel. The calendar runs from the first to the last observation of
all series.

* **`Panel.alignTo`** — every series on the dates of the calendar;
* **`Panel.resampleTo`** — every period folded onto its last date, where the entity counts;
* **`Panel.rebalance`** — weights held from one date to the next. -/

namespace PanelQuery

variable {α : Type} [Scalar α]

/-- `Panel.calendar? p f`: the calendar of a panel, unless it has no observation. -/
def Panel.calendar? (p : Panel α) (f : Frequency) : Option Schedule :=
  p.span?.map fun (low, high) => Schedule.spanning f low high

/-- `Panel.alignTo f p`: the panel with every series on the dates of its calendar. -/
def Panel.alignTo (f : Frequency) (p : Panel α) : Panel α :=
  match p.calendar? f with
  | none => p
  | some calendar => p.mapSeries fun s => s.align calendar.dates

/-- `Entity.resampleOn calendar e`: an entity with its series folded onto the dates of a schedule;
its fields have no points on dates on which its weight is zero. -/
def Entity.resampleOn (calendar : Schedule) (e : Entity α) : Entity α :=
  { e with series := e.series.map fun s =>
      calendar.applySeries s (if s.isWeight then none else e.weight?) }

/-- `Panel.resampleTo f p`: the panel with every period of its calendar folded onto the period's
last date. -/
def Panel.resampleTo (f : Frequency) (p : Panel α) : Panel α :=
  match p.calendar? f with
  | none => p
  | some calendar => { p with entities := p.entities.map (Entity.resampleOn calendar) }

/-- `rebalanceDates f first last`: the dates on which a weight between two times is taken over. The
last date of a period that is cut short is none. -/
def rebalanceDates (f : Frequency) (first last : Instant) : List Instant :=
  let calendar := Schedule.spanning f first last
  if calendar.endIncomplete then calendar.dates.dropLast else calendar.dates

/-- `Series.rebalance f w`: a weight that keeps at each time the value it had on the last date
before; until there is such a date, its first value. -/
def Series.rebalance (f : Frequency) (w : Series α) : Series α :=
  match w.points.head?, w.points.getLast? with
  | some first, some last =>
      let dates := rebalanceDates f first.time last.time
      let held := fun (t : Instant) =>
        match (dates.takeWhile fun d => decide (d ≤ t)).getLast? with
        | none => first.value
        | some d => (w.points.carried? d).getD first.value
      w.withPoints (w.points.map fun p => ⟨p.time, held p.time⟩)
  | _, _ => w

/-- `Panel.rebalance f p`: the panel with the weight of each entity held between the dates of the
weight's own calendar. -/
def Panel.rebalance (f : Frequency) (p : Panel α) : Panel α :=
  { p with entities := p.entities.map fun e => e.mapWeight (Series.rebalance f) }

end PanelQuery
