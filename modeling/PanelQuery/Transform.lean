import PanelQuery.Panel
import PanelQuery.Statistics
import PanelQuery.Statistics.Sliding

/-! # Transforms

New values for the fields of a panel, each from the field's own values up to its time.

* **`Transform`** — the kinds of transform;
* **`Points.changes`, `Points.growth`, `Points.trailing`, …** — what they do to points;
* **`Transform.header`** — what describes the new values;
* **`Panel.transform`** — a transform of all fields. -/

namespace PanelQuery

/-- A way to compute new values from those up to a time. -/
inductive Transform where
  | change
  | percentageChange
  | cumulativeReturn
  | movingAverage
  | rollingStddev
  | lag
  deriving DecidableEq, Repr

/-- What readers call a transform. -/
def Transform.label : Transform → String
  | change => "Change"
  | percentageChange => "Percentage Change"
  | cumulativeReturn => "Cumulative Return"
  | movingAverage => "Moving Average"
  | rollingStddev => "Rolling Standard Deviation"
  | lag => "Lag"

/-- All transforms. -/
def Transform.all : List Transform :=
  [change, percentageChange, cumulativeReturn, movingAverage, rollingStddev, lag]

/-! ### Points -/

namespace Points

variable {α : Type} [Scalar α]

/-- The differences from one value to the next. -/
def changes (ps : Points α) : Points α :=
  List.zipWith (fun p q => ⟨q.time, q.value - p.value⟩) ps ps.tail

/-- The growth from one value to the next, as a fraction of the former; from zero there is none. -/
def growth (ps : Points α) : Points α :=
  (ps.zip ps.tail).filterMap fun (p, q) =>
    if p.value == 0 then none else some ⟨q.time, q.value / p.value - 1⟩

/-- The compounded growth of all returns so far, given the product before them. -/
def compoundFrom (product : α) : Points α → Points α
  | [] => []
  | p :: rest =>
      let product := product * (1 + p.value)
      ⟨p.time, product - 1⟩ :: compoundFrom product rest

/-- A figure of the last `size` values at each time that has so many. -/
def trailing (size : Nat) (figure : List α → Option α) (ps : Points α) : Points α :=
  (Statistics.sliding size ps).filterMap fun window => do
    let last ← window.getLast?
    let v ← figure (Points.values window)
    return ⟨last.time, v⟩

/-- The values of `periods` observations before. -/
def lagged (periods : Nat) (ps : Points α) : Points α :=
  List.zipWith (fun now before => ⟨now.time, before.value⟩) (ps.drop periods) ps

end Points

/-! ### Series and panels -/

/-- `Transform.points kind window ps`: the points of a transform over a window of observations. -/
def Transform.points {α : Type} [Analytic α] (kind : Transform) (window : Nat) (ps : Points α) :
    Points α :=
  match kind with
  | change => ps.changes
  | percentageChange => ps.growth
  | cumulativeReturn => ps.compoundFrom 1
  | movingAverage => ps.trailing window Statistics.mean
  | rollingStddev => ps.trailing window Statistics.stddev
  | lag => ps.lagged window

/-- `Transform.header kind h`: the header of transformed values. A change is a flow: it is zero
where nothing is observed, and over a period it adds up or, as a fraction, compounds. -/
def Transform.header (kind : Transform) (h : Header) : Header :=
  match kind with
  | change => { h with transformed := true, upsample := .zero, downsample := .arithmetic }
  | percentageChange => { h with transformed := true, upsample := .zero, downsample := .geometric }
  | _ => { h with transformed := true }

/-- `Series.transform kind window s`: a transformed series. -/
def Series.transform {α : Type} [Analytic α] (kind : Transform) (window : Nat) (s : Series α) :
    Series α :=
  { s.withPoints (kind.points window s.points) with header := kind.header s.header }

/-- `Panel.transform kind window p`: the panel with its fields transformed. -/
def Panel.transform {α : Type} [Analytic α] (kind : Transform) (window : Nat) (p : Panel α) :
    Panel α :=
  { p with entities := p.entities.map fun e => e.mapFields (Series.transform kind window) }

end PanelQuery
