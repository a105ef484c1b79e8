import PanelQuery.Series
import PanelQuery.Time.Calendar

/-! # Resampling

Series moved onto the dates of a schedule. Each date stands for the time after the date before it
up to itself, the first date for all time up to itself.

* **`Policy.fold?`** — the observations of a period as one value;
* **`Schedule.resample`** — points on the dates, by the policies of a header;
* **`Schedule.apply`** — the same, without the dates on which a weight is zero. -/

namespace PanelQuery

variable {α : Type} [Scalar α]

/-- `Policy.fold? p period`: the observations of a period as one value. -/
def Policy.fold? (p : Policy) (period : Points α) : Option α :=
  match p with
  | lastValue => period.getLast?.map Point.value
  | arithmetic => some (Scalar.sumLeft period.values)
  | geometric => some (Scalar.productLeft (period.values.map (1 + ·)) - 1)
  | drop | zero => none

/-- `Policy.fill? p before`: the value of a date without observations, given the last value before
it. -/
def Policy.fill? (p : Policy) (before : Option α) : Option α :=
  match p with
  | lastValue => before
  | zero => some 0
  | _ => none

/-- The value of one date: that of its period, or of the gap. A period that is incomplete has no
value when the policy folds whole periods. -/
def Header.valueOn? (h : Header) (incomplete : Bool) (before : Option α) (period : Points α) :
    Option α :=
  if period.isEmpty then h.upsample.fill? before
  else if h.downsample.isAggregating && incomplete then none
  else h.downsample.fold? period

namespace Schedule

/-- `ofDates dates beginIncomplete endIncomplete`: the schedule of the given dates, in order and
each once. -/
def ofDates (dates : List Instant) (beginIncomplete endIncomplete : Bool) : Schedule :=
  ⟨distinctSorted dates, beginIncomplete, endIncomplete⟩

/-- Points on the dates from some date on, given the value before them. `incomplete` tells whether
the period of the first of these dates is. -/
def resampleFrom (h : Header) (endIncomplete : Bool) (incomplete : Bool) (before : Option α)
    (points : Points α) : List Instant → Points α
  | [] => []
  | d :: dates =>
      let period := points.takeWhile fun p => decide (p.time ≤ d)
      let rest := points.dropWhile fun p => decide (p.time ≤ d)
      let cut := incomplete || (dates.isEmpty && endIncomplete)
      let later := resampleFrom h endIncomplete false
        ((period.getLast?.map Point.value).or before) rest dates
      match h.valueOn? cut before period with
      | some v => ⟨d, v⟩ :: later
      | none => later

/-- `resample s h points`: points on the dates of the schedule, by the policies of a header. -/
def resample (s : Schedule) (h : Header) (points : Points α) : Points α :=
  resampleFrom h s.endIncomplete s.beginIncomplete none points s.dates

/-- `apply s h points weight`: points on the dates, without those on which the weight, moved onto
the same dates, is zero. -/
def apply (s : Schedule) (h : Header) (points : Points α) (weight : Option (Series α)) :
    Points α :=
  let out := s.resample h points
  match weight with
  | none => out
  | some w =>
      let mask := s.resample w.header w.points
      out.filter fun p => match mask.valueAt? p.time with
        | some v => !(v == 0)
        | none => true

/-- `applySeries s series weight`: a series on the dates. -/
def applySeries (s : Schedule) (series : Series α) (weight : Option (Series α)) : Series α :=
  series.withPoints (s.apply series.header series.points weight)

end Schedule

end PanelQuery
