import PanelQuery.Panel
import PanelQuery.Resampling

/-! # Cross sections

One field of one category over all entities, date by date.

* **`Row`, `DateRows`** — an entity's observation on a date, and all of them;
* **`CrossSection`** — the dates of a field and a category, with their rows;
* **`Panel.crossSection?`** — the cross section of a panel, when some entity is in it. -/

namespace PanelQuery

/-- An entity's observation on a date. -/
structure Row (α : Type) where
  /-- The place of the entity in its panel. -/
  entity : Nat
  point : Point α
  weight : α

/-- All rows of a date. -/
structure DateRows (α : Type) where
  time : Instant
  rows : List (Row α)

/-- The values of a date. -/
def DateRows.values {α : Type} (d : DateRows α) : List α := d.rows.map fun r => r.point.value

/-- An entity that has the field and is sometimes in the category, with its series on the dates of
the cross section. -/
structure Member (α : Type) where
  /-- The place of the entity in its panel. -/
  entity : Nat
  field : Series α
  weight : Option (Series α)

/-- One field of one category. -/
structure CrossSection (α : Type) where
  field : String
  category : String
  /-- The header of the first member's field. -/
  header : Header
  dates : List Instant
  byDate : List (DateRows α)
  members : List (Member α)

variable {α : Type} [Scalar α]

/-- `Entity.isEverIn e category`: whether an entity is sometimes in a category. -/
def Entity.isEverIn (e : Entity α) (category : String) : Bool :=
  e.category.labels.contains category || (category == defaultCategory && e.hasDefaultTimes)

namespace Panel

/-- `candidates p field category`: the entities that are sometimes in a category and have a field,
by their place. -/
def candidates (p : Panel α) (field category : String) : List (Nat × Entity α × Series α) :=
  p.entities.zipIdx.filterMap fun (e, n) =>
    if e.isEverIn category then (e.field? field).map fun s => (n, e, s) else none

/-- The rows of a date: the members that are in the category on that date and have a value. A member
without weight on the date has weight one. -/
def rowsOn (p : Panel α) (category : String) (members : List (Member α)) (t : Instant) :
    List (Row α) :=
  members.filterMap fun m => do
    let e ← p.entities[m.entity]?
    if e.categoryAt t != category then failure
    let v ← m.field.points.valueAt? t
    let w := (m.weight.bind fun s => s.points.valueAt? t).getD 1
    return ⟨m.entity, ⟨t, v⟩, w⟩

/-- `crossSection? p field category`: the cross section of a field and a category, on all dates that
one of the entities in it has. -/
def crossSection? (p : Panel α) (field category : String) : Option (CrossSection α) :=
  match p.candidates field category with
  | [] => none
  | (n, e, s) :: rest =>
      let all := (n, e, s) :: rest
      let schedule := Schedule.ofDates (all.flatMap fun c => c.2.2.points.times) false false
      let members : List (Member α) := all.map fun (n, e, s) =>
        ⟨n, schedule.applySeries s e.weight?,
          e.weight?.map fun w => schedule.applySeries w none⟩
      let byDate := schedule.dates.map fun t => ⟨t, p.rowsOn category members t⟩
      some ⟨field, category, s.header, schedule.dates, byDate, members⟩

/-- The cross sections of all fields and categories, field by field. -/
def crossSections (p : Panel α) : List (CrossSection α) :=
  p.fieldLabels.flatMap fun field => p.categoryLabels.filterMap fun category =>
    p.crossSection? field category

end Panel

end PanelQuery
