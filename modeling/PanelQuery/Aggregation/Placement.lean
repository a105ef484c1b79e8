import PanelQuery.Aggregation.CrossSection
import PanelQuery.Aggregation.Quantile

/-! # Placements

Reducers that keep the entities of a panel place each of them, cross section by cross section, and
then merge what an entity got, date by date.

* **`Placement`** — one entity's share in one cross section;
* **`CrossSection.rank`** — the heaviest or lightest rows of each date;
* **`CrossSection.classify`** — every row with the bucket of its value;
* **`Placement.merge`** — the shares of one entity as an entity. -/

namespace PanelQuery

/-- One entity's share in one cross section, on the dates it is in the category. -/
structure Placement (α : Type) where
  /-- The place of the entity in its panel. -/
  entity : Nat
  field : Series α
  weight : Option (Series α)
  /-- The labels that the entity gets on its dates. -/
  labels : Points String

variable {α : Type} [Scalar α]

/-! ### Ranking -/

/-- `DateRows.byWeight d descending`: the rows of a date from the heaviest, or from the lightest;
equal weights keep their places. -/
def DateRows.byWeight (d : DateRows α) (descending : Bool) : List (Row α) :=
  d.rows.mergeSort fun a b =>
    if descending then Scalar.sortKeyLe b.weight a.weight else Scalar.sortKeyLe a.weight b.weight

/-- The new weight of each entity on a date: the first `n` keep theirs, the others get zero. -/
def DateRows.rankedWeights (d : DateRows α) (n : Nat) (descending : Bool) : List (Nat × Point α) :=
  (d.byWeight descending).zipIdx.map fun (row, place) =>
    (row.entity, ⟨d.time, if place < n then row.weight else 0⟩)

/-- The first `n` rows of each date; the others get weight zero and lose their value. -/
def CrossSection.rank (x : CrossSection α) (n : Nat) (descending : Bool) : List (Placement α) :=
  let ranked := x.byDate.flatMap fun d => d.rankedWeights n descending
  x.members.map fun m =>
    let weight := Series.weight (ranked.filterMap fun (entity, p) =>
      if entity = m.entity then some p else none)
    let field := m.field.keep fun p => match weight.points.valueAt? p.time with
      | some v => !(v == 0)
      | none => false
    ⟨m.entity, field, some weight, []⟩

/-! ### Classification -/

/-- The label of each entity on a date: the bucket of its value. -/
def DateRows.bucketLabels (d : DateRows α) (n : Nat) : List (Nat × Point String) :=
  let cuts := cutPoints n d.values
  d.rows.map fun row => (row.entity, ⟨d.time, bucketLabel (bucketOf row.point.value cuts) n⟩)

/-- Every row with the bucket of its value among `n` as its label. -/
def CrossSection.classify (x : CrossSection α) (n : Nat) : List (Placement α) :=
  let labelled := x.byDate.flatMap fun d => d.bucketLabels (max n 1)
  x.members.map fun m =>
    let labels : Points String := labelled.filterMap fun (entity, p) =>
      if entity = m.entity then some p else none
    let placed := fun (p : Point α) => labels.times.contains p.time
    ⟨m.entity, m.field.keep placed, m.weight.map fun w => w.keep placed, labels⟩

/-! ### Merging -/

/-- `Series.overwrite s points`: points overwritten by others. -/
def Series.overwrite (s : Series α) (points : Points α) : Series α :=
  points.foldl (fun s p => s.insert p) s

/-- Fields with one more, which overwrites one of the same label. -/
def mergeField (field : Series α) : List (Series α) → List (Series α)
  | [] => [field]
  | s :: rest =>
      if s.label = field.label then s.overwrite field.points :: rest
      else s :: mergeField field rest

/-- `mergeWeight weight other`: a weight overwritten by another, where there are two. -/
def mergeWeight (weight other : Option (Series α)) : Option (Series α) :=
  match weight, other with
  | some w, some v => some (w.overwrite v.points)
  | some w, none => some w
  | none, other => other

/-- `mergeLabels labels other`: labels with others for the dates that have none. -/
def mergeLabels (labels other : Points String) : Points String :=
  other.foldl (fun ls p => if (ls.valueAt? p.time).isSome then ls else ls.insert p) labels

/-- The shares of one entity as an entity: fields and weights of later shares overwrite, labels of
earlier ones stand. Without labels the category stays. -/
def Placement.merge (source : Entity α) (shares : List (Placement α)) : Entity α :=
  let fields := shares.foldl (fun fs x => mergeField x.field fs) []
  let weight := shares.foldl (fun w x => mergeWeight w x.weight) none
  let labels := shares.foldl (fun ls x => mergeLabels ls x.labels) []
  let series := fields.map fun s => { s with isWeight := false }
  let entity : Entity α :=
    { identity := source.identity
      series := series
      category := if labels.isEmpty then source.category
        else .ofWrites (labels.map fun p => (p.time, p.value)) }
  match weight with
  | some w => entity.setWeight w
  | none => entity

/-- `Panel.placed p shares`: the entities of a panel that have a share, each with all its shares. -/
def Panel.placed (p : Panel α) (shares : List (Placement α)) : List (Entity α) :=
  p.entities.zipIdx.filterMap fun (e, n) =>
    match shares.filter fun x => x.entity == n with
    | [] => none
    | own => some (Placement.merge e own)

end PanelQuery
