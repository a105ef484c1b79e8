import PanelQuery.Resampling

/-! # Alignment

Series moved onto dates without folding periods: a date takes the observation of that very time, and
otherwise is filled by the upsampling policy.

* **`Points.alignFrom`, `Points.align`** — points on given dates, from the first observation on;
* **`Series.alignCommon`** — several series on the dates of the first, with values carried
  forward. -/

namespace PanelQuery

variable {α : Type} [Scalar α]

namespace Points

/-- Points on the given dates, one after the other: points before a date are passed for good, and
the last of them fills later gaps. -/
def alignFrom (h : Header) (before : Option α) (points : Points α) : List Instant → Points α
  | [] => []
  | d :: dates =>
      let passed := points.takeWhile fun p => decide (p.time < d)
      let rest := points.dropWhile fun p => decide (p.time < d)
      let before := (passed.getLast?.map Point.value).or before
      let later := alignFrom h before rest dates
      let value := match rest.head? with
        | some p => if p.time = d then some p.value else h.upsample.fill? before
        | none => h.upsample.fill? before
      match value with
      | some v => ⟨d, v⟩ :: later
      | none => later

/-- `align dates h points`: points on the given dates from the first observation on. -/
def align (dates : List Instant) (h : Header) (points : Points α) : Points α :=
  match points.head? with
  | none => []
  | some first => alignFrom h none points (dates.filter fun d => decide (first.time ≤ d))

end Points

namespace Series

/-- `align dates s`: a series on the given dates. -/
def align (dates : List Instant) (s : Series α) : Series α :=
  s.withPoints (s.points.align dates s.header)

/-- The series on the first one's dates, from the date on at which each has a value, with values
carried forward. -/
def alignCommon (all : List (Series α)) : List (Series α) :=
  match all with
  | [] => []
  | driver :: _ =>
      let dates := driver.points.times.dropWhile fun d =>
        !all.all fun s => (s.points.carried? d).isSome
      all.map fun s => s.withPoints (dates.filterMap fun d =>
        (s.points.carried? d).map fun v => ⟨d, v⟩)

end Series

end PanelQuery
