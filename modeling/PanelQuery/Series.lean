import PanelQuery.Number.Scalar
import PanelQuery.Time.Instant

/-! # Series

Observations of one quantity over time, each instant at most once and in increasing order.

* **`Policy`, `Header`** — how a series moves onto other dates, and what describes it;
* **`Points`** — observations; `Points.ofWrites`, `insert` and the selections keep them sorted;
* **`Points.valueAt?`, `Points.asOf?`, `Points.between`** — the lookups of a finite map;
* **`Series`** — points with their header; a weight series tells when an entity counts. -/

namespace PanelQuery

/-! ### Description -/

/-- How a gap is filled, or how the observations of a period become one, on other dates. -/
inductive Policy where
  /-- Neither: the date is left out. -/
  | drop
  /-- The last observation. -/
  | lastValue
  /-- Zero in a gap; a period is left out. -/
  | zero
  /-- The sum of a period; a gap is left out. -/
  | arithmetic
  /-- The compounded growth of a period; a gap is left out. -/
  | geometric
  deriving DecidableEq, Repr

/-- Whether a policy folds a whole period into one value. -/
def Policy.isAggregating : Policy → Bool
  | arithmetic | geometric => true
  | _ => false

/-- `Policy.agree p q`: the policy that both series have, or else none. -/
def Policy.agree (p q : Policy) : Policy := if p = q then p else drop

/-- What describes a series. Without other word it is a level: a gap keeps the last value, and so
does a period. -/
structure Header where
  label : String := ""
  units : String := ""
  source : String := ""
  vendorCode : String := ""
  /-- How a gap is filled. -/
  upsample : Policy := .lastValue
  /-- How the observations of a period become one. -/
  downsample : Policy := .lastValue
  /-- Whether the values were computed. -/
  transformed : Bool := false
  deriving DecidableEq, Repr

namespace Header

/-- The header with a label and nothing else. -/
def labelled (label : String) : Header := { label := label }

/-- The header of a series computed from two: the first one's texts, and the policies on which both
agree. -/
def combine (a b : Header) : Header :=
  { a with
    upsample := a.upsample.agree b.upsample
    downsample := a.downsample.agree b.downsample
    transformed := true }

end Header

/-! ### Points -/

/-- An observation. -/
structure Point (α : Type) where
  time : Instant
  value : α
  deriving BEq, DecidableEq, Repr

/-- Observations. All functions here keep them in strictly increasing order of time. -/
abbrev Points (α : Type) := List (Point α)

namespace Points

variable {α : Type}

/-- The times of observations. -/
def times (ps : Points α) : List Instant := ps.map Point.time

/-- The values of observations. -/
def values (ps : Points α) : List α := ps.map Point.value

/-- Observations sorted by time, of which those of one time follow each other, with only the last of
each time kept. -/
def keepLast : Points α → Points α
  | p :: q :: rest => if p.time = q.time then keepLast (q :: rest) else p :: keepLast (q :: rest)
  | ps => ps

/-- The points that a list of writes leaves: the last write to each time, in order of time. -/
def ofWrites (ps : Points α) : Points α :=
  keepLast (ps.mergeSort fun p q => decide (p.time ≤ q.time))

/-- The points with one more write. -/
def insert (p : Point α) : Points α → Points α
  | [] => [p]
  | q :: rest =>
      if p.time < q.time then p :: q :: rest
      else if p.time = q.time then p :: rest
      else q :: insert p rest

/-- `valueAt? ps t`: the value observed at a time. -/
def valueAt? (ps : Points α) (t : Instant) : Option α :=
  (ps.find? fun p => p.time == t).map Point.value

/-- `upTo ps t`: the points at or before a time. -/
def upTo (ps : Points α) (t : Instant) : Points α := ps.takeWhile fun p => decide (p.time ≤ t)

/-- `asOf? ps t`: the last point at or before a time. -/
def asOf? (ps : Points α) (t : Instant) : Option (Point α) := (ps.upTo t).getLast?

/-- `carried? ps t`: the value carried forward to a time. -/
def carried? (ps : Points α) (t : Instant) : Option α := (ps.asOf? t).map Point.value

/-- `between ps low high`: the points from one time to another, both included. -/
def between (ps : Points α) (low high : Instant) : Points α :=
  ps.filter fun p => decide (low ≤ p.time) && decide (p.time ≤ high)

/-- `mapValues f ps`: the points with their values changed. -/
def mapValues (f : α → α) (ps : Points α) : Points α := ps.map fun p => ⟨p.time, f p.value⟩

end Points

/-! ### Series -/

/-- A described series. -/
structure Series (α : Type) where
  header : Header
  points : Points α
  /-- Whether it is an entity's weight. -/
  isWeight : Bool := false
  deriving BEq, DecidableEq, Repr

namespace Series

variable {α : Type}

/-- `ofWrites header writes`: the series that a list of writes leaves. -/
def ofWrites (header : Header) (writes : Points α) : Series α := ⟨header, .ofWrites writes, false⟩

/-- The label of a series. -/
def label (s : Series α) : String := s.header.label

/-- A weight series. -/
def weight (writes : Points α) : Series α := ⟨.labelled "Weight", .ofWrites writes, true⟩

/-- `withPoints s writes`: the same description for other points. -/
def withPoints (s : Series α) (writes : Points α) : Series α :=
  { s with points := .ofWrites writes }

/-- `keep s test`: the points that pass a test. -/
def keep (s : Series α) (test : Point α → Bool) : Series α :=
  { s with points := s.points.filter test }

/-- `insert s p`: the series with one more write. -/
def insert (s : Series α) (p : Point α) : Series α := { s with points := s.points.insert p }

/-- `truncate s low high`: the points from one time to another. -/
def truncate (s : Series α) (low high : Instant) : Series α :=
  { s with points := s.points.between low high }

end Series

end PanelQuery
