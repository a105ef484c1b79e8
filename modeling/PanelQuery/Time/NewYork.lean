import PanelQuery.Time.Instant

/-! # Market days in New York

Events count for the New York day on which the market can first react to them.

* **`newYorkOffset`** — the hours that New York is behind UTC, by the daylight rules of 1967 to 2037;
* **`Zone`, `newYork`** — clocks as such, and those of New York by these rules;
* **`marketBucket`, `hasMarketBucket`** — the day that an event counts for, if it can be named;
* **`snapToMarket?`** — the first market date from that day on. -/

namespace PanelQuery

/-! ### Daylight time -/

/-- The Sunday at or after a day. -/
def sundayFrom (d : Day) : Day := d + (6 - Day.weekday d)

/-- The Sunday at or before a day. -/
def sundayUpTo (d : Day) : Day := d - (Day.weekday d + 1) % 7

/-- The day of a year on which daylight time begins. -/
def daylightBegins (year : Int) : Day :=
  if 2007 ≤ year then sundayFrom (Month.firstDay (Month.ofYear year 3) + 7)
  else if 1987 ≤ year then sundayFrom (Month.firstDay (Month.ofYear year 4))
  else if year = 1974 then Month.firstDay (Month.ofYear year 1) + 5
  else if year = 1975 then sundayUpTo (Month.lastDay (Month.ofYear year 2))
  else sundayUpTo (Month.lastDay (Month.ofYear year 4))

/-- The day of a year on which daylight time ends. -/
def daylightEnds (year : Int) : Day :=
  if 2007 ≤ year then sundayFrom (Month.firstDay (Month.ofYear year 11))
  else sundayUpTo (Month.lastDay (Month.ofYear year 10))

/-- An hour in nanoseconds. -/
def nanosPerHour : Int := 3600 * nanosPerSecond

/-- The hours that New York is behind UTC: four in daylight time, else five. Both switches are at
two o'clock of the clock before them. These are the rules of the years 1967 to 2037; before, other
hours were kept at times. -/
def newYorkOffset (t : Instant) : Int :=
  let year := (Day.civil (Instant.day t)).year
  let begins := Day.midnight (daylightBegins year) + 7 * nanosPerHour
  let ends := Day.midnight (daylightEnds year) + 6 * nanosPerHour
  if begins ≤ t ∧ t < ends then 4 else 5

/-- The nanoseconds that the clocks of a place are behind UTC, at each instant. -/
abbrev Zone := Instant → Int

/-- The clocks of New York by the rules of 1967 to 2037. -/
def newYork : Zone := fun t => newYorkOffset t * nanosPerHour

/-! ### Market days -/

/-- The hour at which the market closes in New York. -/
def marketCloseHour : Int := 16

/-- The day that an event counts for, at midnight: the New York day, or the next one after the
close. An instant at midnight already stands for its day. -/
def marketBucket (t : Instant) (zone : Zone := newYork) : Instant :=
  if Instant.timeOfDay t = 0 then t
  else
    let clock := t - zone t
    let today := Instant.day clock
    if Instant.timeOfDay clock < marketCloseHour * nanosPerHour then Day.midnight today
    else Day.midnight (today + 1)

/-- Whether the day that an event counts for can be named, and the time on New York clocks on the
way to it. -/
def hasMarketBucket (t : Instant) (zone : Zone := newYork) : Bool :=
  decide (Instant.timeOfDay t = 0) ||
    (Instant.isNamed (t - zone t) && Instant.isNamed (marketBucket t zone))

/-- `snapToMarket? t dates`: the first of the sorted dates from the event's day on. There is none
when that day lies before all dates or after them. -/
def snapToMarket? (t : Instant) (dates : List Instant) (zone : Zone := newYork) : Option Instant :=
  let bucket := marketBucket t zone
  match dates.head? with
  | none => none
  | some first => if bucket < first then none else dates.find? fun d => decide (bucket ≤ d)

end PanelQuery
