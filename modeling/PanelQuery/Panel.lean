import PanelQuery.Entity

/-! # Panels

The collection of entities that flows from node to node of a query.

* **`Panel`** — entities, a title, the trail of problems and a hint for display;
* **`Panel.fieldLabels`, `Panel.categoryLabels`** — the labels in use;
* **`Panel.span?`, `Panel.allDates`** — the times of all series. -/

namespace PanelQuery

/-- How a panel is best shown. -/
inductive Hint where
  | line
  | column
  | table
  | boxPlot
  deriving DecidableEq, Repr

/-- A collection of entities. -/
structure Panel (α : Type) where
  entities : List (Entity α)
  title : String := ""
  /-- The problems that did not stop the query, the oldest first. -/
  errors : List String := []
  hint : Hint := .line
  deriving BEq, DecidableEq, Repr

namespace Panel

variable {α : Type}

/-- No entities. -/
def empty : Panel α := { entities := [] }

/-- `recordError p message`: the panel with one more problem. -/
def recordError (p : Panel α) (message : String) : Panel α :=
  { p with errors := p.errors ++ [message] }

/-- The problems as one text. -/
def error? (p : Panel α) : Option String :=
  if p.errors.isEmpty then none else some ("; ".intercalate p.errors)

/-- `find? p key`: the first entity with a key. -/
def find? (p : Panel α) (key : String) : Option (Entity α) :=
  p.entities.find? fun e => e.identity.key == key

/-- `rename p key name`: the panel with another name for the first entity with a key, and whether
there is one. -/
def rename (p : Panel α) (key name : String) : Panel α × Bool :=
  match p.entities.findIdx? fun e => e.identity.key == key with
  | none => (p, false)
  | some n =>
      let entities := p.entities.modify n fun e => { e with identity := { e.identity with name } }
      ({ p with entities }, true)

/-- `mapSeries p f`: the panel with each series changed in place. -/
def mapSeries (p : Panel α) (f : Series α → Series α) : Panel α :=
  { p with entities := p.entities.map fun e => { e with series := e.series.map f } }

/-- The labels of fields, in order of their first use. -/
def fieldLabels (p : Panel α) : List String :=
  (p.entities.flatMap fun e => e.fields.map Series.label).eraseDups

/-- The labels of categories, in order of their first use; an entity with times in the default
category has it first. -/
def categoryLabels (p : Panel α) : List String :=
  (p.entities.flatMap fun e =>
    if e.hasDefaultTimes then defaultCategory :: e.category.labels else e.category.labels).eraseDups

/-- The first and the last time of any series. -/
def span? (p : Panel α) : Option (Instant × Instant) := do
  let spans := p.entities.filterMap Entity.span?
  let first ← (spans.map Prod.fst).min?
  let last ← (spans.map Prod.snd).max?
  return (first, last)

/-- The times of all series, in order. -/
def allDates (p : Panel α) : List Instant :=
  distinctSorted (p.entities.flatMap fun e => e.series.flatMap fun s => s.points.times)

end Panel

end PanelQuery
