import PanelQuery.Category
import PanelQuery.Series

/-! # Entities

One thing that is observed: who it is, its series and its category over time.

* **`Identity`** — name and key;
* **`Entity`** — the series of one entity, at most one of which should be its weight;
* **`Entity.isMemberAt`** — when an entity counts, by its weight. -/

namespace PanelQuery

/-- Who an entity is. Entities of different collections are the same when their keys are equal. -/
structure Identity where
  name : String
  key : String
  /-- Whether the entity was made by a query. -/
  custom : Bool := false
  deriving DecidableEq, Repr

/-- An entity with its series and its category. -/
structure Entity (α : Type) where
  identity : Identity
  series : List (Series α) := []
  category : Category := {}
  deriving BEq, DecidableEq, Repr

namespace Entity

variable {α : Type}

/-! ### Weight and fields -/

/-- The weight series. -/
def weight? (e : Entity α) : Option (Series α) := e.series.find? Series.isWeight

/-- The series that are no weight. -/
def fields (e : Entity α) : List (Series α) := e.series.filter fun s => !s.isWeight

/-- The weight series that there are. -/
def weights (e : Entity α) : List (Series α) := e.series.filter Series.isWeight

/-- `field? e label`: the first field with a label. -/
def field? (e : Entity α) (label : String) : Option (Series α) :=
  e.fields.find? fun s => s.label == label

/-- `setWeight e s`: the entity with a series as its only weight. -/
def setWeight (e : Entity α) (s : Series α) : Entity α :=
  { e with series := e.fields ++ [{ s with isWeight := true }] }

/-- The entity without weight. -/
def clearWeight (e : Entity α) : Entity α := { e with series := e.fields }

/-- `pushField e s`: the entity with one more field. -/
def pushField (e : Entity α) (s : Series α) : Entity α :=
  { e with series := e.series ++ [{ s with isWeight := false }] }

/-- `replaceFields e fields`: the entity with other fields. -/
def replaceFields (e : Entity α) (fields : List (Series α)) : Entity α :=
  { e with series := e.weights ++ fields }

/-- `mapFields e f`: the entity with its fields changed in place. -/
def mapFields (e : Entity α) (f : Series α → Series α) : Entity α :=
  { e with series := e.series.map fun s => if s.isWeight then s else f s }

/-- The series with the first weight among them changed. -/
def mapFirstWeight (f : Series α → Series α) : List (Series α) → List (Series α)
  | [] => []
  | s :: rest => if s.isWeight then f s :: rest else s :: mapFirstWeight f rest

/-- `mapWeight e f`: the entity with its weight changed in place. -/
def mapWeight (e : Entity α) (f : Series α → Series α) : Entity α :=
  { e with series := mapFirstWeight f e.series }

/-- Whether an entity with a certain weight counts at a time: the weight was last written as other
than zero, or there is none. -/
def countsAt [Scalar α] (weight : Option (Series α)) (t : Instant) : Bool :=
  match weight with
  | none => true
  | some w => match w.points.carried? t with
    | some x => !(x == 0)
    | none => false

/-- `isMemberAt e t`: whether an entity counts at a time. -/
def isMemberAt [Scalar α] (e : Entity α) (t : Instant) : Bool := countsAt e.weight? t

/-- Whether an entity counts at any time. -/
def isEverMember [Scalar α] (e : Entity α) : Bool :=
  match e.weight? with
  | none => true
  | some w => w.points.any fun p => !(p.value == 0)

/-! ### Time and category -/

/-- The first and the last time of any series. -/
def span? (e : Entity α) : Option (Instant × Instant) := do
  let first ← (e.series.filterMap fun s => s.points.head?.map Point.time).min?
  let last ← (e.series.filterMap fun s => s.points.getLast?.map Point.time).max?
  return (first, last)

/-- `categoryAt e t`: the category at a time. -/
def categoryAt (e : Entity α) (t : Instant) : String :=
  (e.category.labelAt? t).getD defaultCategory

/-- Whether the entity has times in the default category: it has no category point, or data before
the first one. -/
def hasDefaultTimes (e : Entity α) : Bool :=
  match e.category.points.head?, e.span? with
  | none, _ => true
  | some first, some (begins, _) => decide (begins < first.time)
  | some _, none => false

end Entity

end PanelQuery
