import PanelQuery.Time.Instant

/-! # Categories

The category of an entity as a step function of time: each point starts a category that lasts until
the next point. Points refer to a table of labels, and a point is only kept where the category
changes.

* **`Category`** — points and table; `set` writes, `labelAt?` reads;
* **`Category.labels`** — the labels in use. -/

namespace PanelQuery

/-- The start of a category. -/
structure CategoryPoint where
  time : Instant
  /-- The place of the label in the table. -/
  slot : Nat
  deriving DecidableEq, Repr

/-- A step function from time to labels. -/
structure Category where
  points : List CategoryPoint := []
  /-- The labels, of which some may have gone out of use. -/
  table : List String := []
  deriving DecidableEq, Repr

/-- The category of what has none. -/
def defaultCategory : String := "All"

namespace Category

/-- No category at any time. -/
def empty : Category := {}

/-- Points of which each differs from the one before. -/
def dropSame : List CategoryPoint → List CategoryPoint
  | [] => []
  | p :: rest =>
      match dropSame rest with
      | [] => [p]
      | q :: more => if p.slot = q.slot then p :: more else p :: q :: more

/-- Points in order of time with one more, which replaces a point of the same time. -/
def insertPoint (p : CategoryPoint) : List CategoryPoint → List CategoryPoint
  | [] => [p]
  | q :: rest =>
      if p.time < q.time then p :: q :: rest
      else if p.time = q.time then p :: rest
      else q :: insertPoint p rest

/-- The points once label `slot` starts at `time`. After the last point, a label that is active
already needs none; at the last point it replaces it; before, it goes to its place in time. -/
def startAt (points : List CategoryPoint) (time : Instant) (slot : Nat) : List CategoryPoint :=
  match points.getLast? with
  | none => [⟨time, slot⟩]
  | some last =>
      if last.time = time then
        let before := points.dropLast
        if (before.getLast?.map CategoryPoint.slot) = some slot then before
        else before ++ [⟨time, slot⟩]
      else if last.slot = slot then points
      else if time < last.time then dropSame (insertPoint ⟨time, slot⟩ points)
      else points ++ [⟨time, slot⟩]

/-- `set c time label`: makes a label active from a time on. -/
def set (c : Category) (time : Instant) (label : String) : Category :=
  match c.table.idxOf? label with
  | some slot => { c with points := startAt c.points time slot }
  | none => ⟨startAt c.points time c.table.length, c.table ++ [label]⟩

/-- One label from the start of time. -/
def constant (label : String) : Category := empty.set Instant.earliest label

/-- The category that writes leave, one after the other. -/
def ofWrites (writes : List (Instant × String)) : Category :=
  writes.foldl (fun c w => c.set w.1 w.2) empty

/-- Whether there is no point. -/
def isEmpty (c : Category) : Bool := c.points.isEmpty

/-- `label? c slot`: the label of a slot. -/
def label? (c : Category) (slot : Nat) : Option String := c.table[slot]?

/-- `labelAt? c t`: the label that is active at a time. -/
def labelAt? (c : Category) (t : Instant) : Option String :=
  (c.points.takeWhile fun p => decide (p.time ≤ t)).getLast?.bind fun p => c.label? p.slot

/-- The labels in use, in order of their first point. -/
def labels (c : Category) : List String :=
  (c.points.filterMap fun p => c.label? p.slot).eraseDups

end Category

end PanelQuery
