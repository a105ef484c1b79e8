import PanelQuery.Text.Blank
import PanelQuery.Text.Quoted
import PanelQuery.Time.Instant

/-! # Calendars

The dates of a span at which one period ends and the next begins.

* **`Frequency`** — the periods: days, weeks, months, quarters, years;
* **`Schedule`** — dates, and whether the first and the last period are cut short;
* **`Month.firstDay?`, `Month.lastDay?`** — the days of a month at either end, by dates that there
  are;
* **`Schedule.periodEnds`** — the ends of periods, one after the other;
* **`Schedule.spanning`** — the period ends between two instants, and the last day. -/

namespace PanelQuery

/-- How often a calendar has a date. -/
inductive Frequency where
  | daily
  | weekly
  | monthly
  | quarterly
  | yearly
  deriving DecidableEq, Repr

namespace Frequency

/-- The name of a frequency. -/
def name : Frequency → String
  | daily => "Daily"
  | weekly => "Weekly"
  | monthly => "Monthly"
  | quarterly => "Quarterly"
  | yearly => "Yearly"

/-- All frequencies. -/
def all : List Frequency := [daily, weekly, monthly, quarterly, yearly]

/-- The frequency with a name, in either case of letters and with blanks around it. -/
def ofName? (s : String) : Option Frequency :=
  all.find? fun f => Text.asciiLower f.name == Text.asciiLower (Text.trim s)

end Frequency

/-- Output dates, and whether the periods at either end are incomplete. -/
structure Schedule where
  /-- The dates. -/
  dates : List Instant
  /-- Whether the span starts after the first day of its period. -/
  beginIncomplete : Bool
  /-- Whether the span ends before the last day of its period. -/
  endIncomplete : Bool
  deriving DecidableEq, Repr

/-- The last day that dates can name: the end of the year 262142. -/
def Day.latest : Day := Month.lastDay (Month.ofYear 262142 12)

/-- The first month that dates cannot name. -/
def Month.afterLatest : Month := Month.ofYear 262143 1

/-- The first day of a month, if dates can name it. Only months are asked for that come after some
day that they can name. -/
def Month.firstDay? (m : Month) : Option Day :=
  if m < Month.afterLatest then some (Month.firstDay m) else none

/-- The last day of a month: the day before the first one of the next month, if dates can name
that. So the last month of all has none. -/
def Month.lastDay? (m : Month) : Option Day := (Month.firstDay? (m + 1)).map fun d => d - 1

/-- A month whose last day is told comes before those that dates cannot name:
`m < Month.afterLatest`. -/
theorem Month.lt_afterLatest_of_lastDay?_eq_some {m : Month} {d : Day}
    (h : Month.lastDay? m = some d) : m < Month.afterLatest := by
  unfold lastDay? firstDay? at h
  split at h
  · exact Int.lt_trans (Int.lt_succ m) ‹_›
  · cases h

/-- The days from `first` to `last`, both included, before the last day of all. -/
def daysBetween (first last : Day) : List Day :=
  (List.range (min last (Day.latest - 1) - first + 1).toNat).map fun (n : Nat) => first + (n : Int)

namespace Schedule

/-- No dates. -/
def empty : Schedule := ⟨[], false, false⟩

/-- `daily first last`: all days but Saturdays and Sundays. -/
def daily (first last : Day) : Schedule :=
  ⟨((daysBetween first last).filter fun d => !Day.isWeekend d).map Day.midnight, false, false⟩

/-- `weekly first last`: the Fridays, and the last day. A week runs from Saturday to Friday. -/
def weekly (first last : Day) : Schedule :=
  let fridays := (daysBetween first last).filter fun d => Day.weekday d == 4
  let cut := Day.weekday last != 4
  ⟨(if cut then fridays ++ [last] else fridays).map Day.midnight, Day.weekday first != 5, cut⟩

/-- The ends of periods of `months` months, from the one that ends with the month
`start + offset` on, up to the first that does not come before the last day, in whose place this
stands. Whether it stands in place of a later day is told as well. Both are cut off where the end of
a period cannot be told. -/
def periodEnds (months : Nat) (hmonths : 0 < months) (start : Month) (last : Day) (offset : Nat) :
    List Day × Bool :=
  match _hend : Month.lastDay? (start + offset) with
  | none => ([], false)
  | some e =>
      if last ≤ e then ([last], decide (last < e))
      else
        let (later, cut) := periodEnds months hmonths start last (offset + months)
        (e :: later, cut)
termination_by (Month.afterLatest - (start + offset)).toNat
decreasing_by
  have hbefore := Month.lt_afterLatest_of_lastDay?_eq_some _hend
  lia

/-- `periodStart months d`: the month with which the period of a day begins, when periods of some
months are counted from January on. -/
def periodStart (months : Nat) (d : Day) : Month :=
  let c := Day.civil d
  Month.ofYear c.year ((c.month - 1) / months * months + 1)

/-- `periods months first last`: the ends of the periods of some months, and the last day, unless it
is in the last period of all. -/
def periods (months : Nat) (hmonths : 0 < months) (first last : Day) : Schedule :=
  let start := periodStart months first
  let (ends, cut) := periodEnds months hmonths start last (months - 1)
  -- the month `start` is not after that of `first`, so dates can name its first day
  ⟨ends.map Day.midnight, Month.firstDay start != first, cut⟩

/-- A quarter has months: `0 < 3`. -/
theorem quarter_pos : 0 < 3 := by decide

/-- A year has months: `0 < 12`. -/
theorem year_pos : 0 < 12 := by decide

/-- The calendar of the days from that of `low` to that of `high`. -/
def spanning (f : Frequency) (low high : Instant) : Schedule :=
  let first := Instant.day low
  let last := Instant.day high
  if last < first then empty
  else
    match f with
    | .daily => daily first last
    | .weekly => weekly first last
    | .monthly => periods 1 Nat.one_pos first last
    | .quarterly => periods 3 quarter_pos first last
    | .yearly => periods 12 year_pos first last

end Schedule

end PanelQuery
