/-! # Civil dates

Days of the proleptic Gregorian calendar, counted from 1970-01-01, and the months they fall in.

Months are counted through all years, so that month `12 · y + m` is the one with number `m`
(from zero) in year `y`. Inside, a year starts in March: then the leap day is its last day, and the
days before a month follow one straight line.

* **`Day`, `Month`** — counts of days and of months;
* **`Month.firstDay`, `Day.month`** — the first day of a month, and the month of a day;
* **`CivilDate`** — year, month and day of the month;
* **`Day.weekday`** — days since Monday. -/

namespace PanelQuery

/-- Days since 1970-01-01. -/
abbrev Day := Int

/-- Months since January of the year zero. -/
abbrev Month := Int

/-- The days from the start of March of year zero to 1970-01-01. -/
def epochOffset : Int := 719468

/-- The days before a year that starts in March, from March of year zero on. -/
def marchYearStart (year : Int) : Int := 365 * year + year / 4 - year / 100 + year / 400

/-- The days of a year, from March on, before its month number `month`. -/
def marchMonthStart (month : Int) : Int := (153 * month + 2) / 5

/-- The first day of a month. -/
def Month.firstDay (m : Month) : Day :=
  let fromMarch := m - 2
  marchYearStart (fromMarch / 12) + marchMonthStart (fromMarch % 12) - epochOffset

/-- The last day of a month. -/
def Month.lastDay (m : Month) : Day := Month.firstDay (m + 1) - 1

/-- The month that a day falls in. Four hundred years have 146097 days; within them, the year is the
day's number less the leap days before it, over 365. -/
def Day.month (d : Day) : Month :=
  let fromMarch := d + epochOffset
  let era := fromMarch / 146097
  let dayOfEra := fromMarch % 146097
  let yearOfEra := (dayOfEra - dayOfEra / 1460 + dayOfEra / 36524 - dayOfEra / 146096) / 365
  let dayOfYear := dayOfEra - (365 * yearOfEra + yearOfEra / 4 - yearOfEra / 100)
  12 * (400 * era + yearOfEra) + (5 * dayOfYear + 2) / 153 + 2

/-- A day by year, month and day of the month, the latter two from one. -/
structure CivilDate where
  /-- The year. -/
  year : Int
  /-- The month, from 1 to 12. -/
  month : Int
  /-- The day of the month, from 1. -/
  day : Int
  deriving DecidableEq, Repr

/-- Year, month and day of the month. -/
def Day.civil (d : Day) : CivilDate :=
  let m := Day.month d
  ⟨m / 12, m % 12 + 1, d - Month.firstDay m + 1⟩

/-- `Month.ofYear year month`: the count of months of a year's month, from 1. -/
def Month.ofYear (year month : Int) : Month := 12 * year + (month - 1)

/-- The day of a civil date, when its month has such a day. -/
def CivilDate.day? (c : CivilDate) : Option Day :=
  let m := Month.ofYear c.year c.month
  let d := Month.firstDay m + c.day - 1
  if 1 ≤ c.month ∧ c.month ≤ 12 ∧ 1 ≤ c.day ∧ d ≤ Month.lastDay m then some d else none

/-- The days since Monday, from 0 to 6. The first day of the count was a Thursday. -/
def Day.weekday (d : Day) : Int := (d + 3) % 7

/-- Whether a day is a Saturday or a Sunday. -/
def Day.isWeekend (d : Day) : Bool := decide (5 ≤ Day.weekday d)

/-- `Day.monthsBefore d months`: the same day of the month some months earlier, or the last day of a
shorter month. -/
def Day.monthsBefore (d : Day) (months : Nat) : Day :=
  let m := Day.month d
  let target : Month := m - months
  min (Month.firstDay target + (d - Month.firstDay m)) (Month.lastDay target)

end PanelQuery
