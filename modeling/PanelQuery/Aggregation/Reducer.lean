import PanelQuery.Aggregation.Placement
import PanelQuery.Roster

/-! # Reducers

What becomes of the cross sections of a panel: one entity per category with a figure for each date,
or the entities themselves, ranked or put into buckets.

* **`Reducer`** — the ways to reduce;
* **`CrossSection.reduce`** — the figures of one cross section;
* **`Panel.aggregate`** — all cross sections of a panel. -/

namespace PanelQuery

/-- A way to reduce cross sections. -/
inductive Reducer where
  | sum
  | average
  | count
  | percentPositive
  | median
  | boxplot
  /-- The heaviest entities. -/
  | top (n : Nat)
  /-- The lightest entities. -/
  | bottom (n : Nat)
  /-- Buckets by value. -/
  | quantile (n : Nat)
  deriving DecidableEq, Repr

variable {α : Type} [Scalar α]

/-! ### Figures -/

/-- The mean of a date's values by weight; where the weights add up to zero, their plain mean. -/
def DateRows.weightedMean (d : DateRows α) : Option α :=
  let total := Scalar.sumLeft (d.rows.map Row.weight)
  if total == 0 then Statistics.mean d.values
  else some (Scalar.sumLeft (d.rows.map fun r => r.weight * r.point.value) / total)

/-- The share of positive values of a date, in percent. -/
def DateRows.percentPositive (d : DateRows α) : α :=
  let positive := d.rows.countP fun r => decide (0 < r.point.value)
  Scalar.ofNat 100 * Scalar.ofNat positive / Scalar.ofNat d.rows.length

/-- `DateRows.quartile d k`: the quantile of a date's values at so many quarters. -/
def DateRows.quartile (d : DateRows α) (k : Nat) : Option α :=
  Statistics.quantileSorted (Scalar.sorted d.values) (Scalar.ofNat k / Scalar.ofNat 4)

/-- The names of the five figures of a box plot. -/
def boxRows : List String := ["Min", "Q1", "Median", "Q3", "Max"]

/-- `Reducer.figures r category`: the named figures that a reducer draws from the rows of a date. -/
def Reducer.figures (r : Reducer) (category : String) : List (String × (DateRows α → Option α)) :=
  match r with
  | sum => [(category, fun d => some (Statistics.sum d.values))]
  | average => [(category, DateRows.weightedMean)]
  | count => [(category, fun d => some (Scalar.ofNat d.rows.length))]
  | percentPositive => [(category, fun d => some d.percentPositive)]
  | median => [(category, fun d => Statistics.median d.values)]
  | boxplot => boxRows.zipIdx.map fun (row, k) => (category ++ " " ++ row, fun d => d.quartile k)
  | top _ | bottom _ | quantile _ => []

/-- `CrossSection.figureEntity x name figure`: the entity of one figure, with a point on each date
that has rows. -/
def CrossSection.figureEntity (x : CrossSection α) (name : String)
    (figure : DateRows α → Option α) : Entity α :=
  let points := x.byDate.filterMap fun d =>
    if d.rows.isEmpty then none else (figure d).map fun v => ⟨d.time, v⟩
  { identity := ⟨name, name, true⟩
    series := [.ofWrites { x.header with transformed := true } points]
    category := .constant x.category }

/-- `CrossSection.reduce x r`: the entities of all figures of a cross section. -/
def CrossSection.reduce (x : CrossSection α) (r : Reducer) : List (Entity α) :=
  (r.figures x.category).map fun (name, figure) => x.figureEntity name figure

/-! ### Panels -/

/-- The shares that a reducer gives to the entities of a cross section. -/
def CrossSection.place (x : CrossSection α) : Reducer → List (Placement α)
  | .top n => x.rank n true
  | .bottom n => x.rank n false
  | .quantile n => x.classify n
  | _ => []

/-- Whether a reducer keeps the entities. -/
def Reducer.keepsEntities : Reducer → Bool
  | top _ | bottom _ | quantile _ => true
  | _ => false

/-- `Panel.aggregate p r`: the panel reduced, cross section by cross section. -/
def Panel.aggregate (p : Panel α) (r : Reducer) : Panel α :=
  let sections := p.crossSections
  let entities :=
    if r.keepsEntities then p.placed (sections.flatMap fun x => x.place r)
    else ((Roster.empty .key).addAll (sections.flatMap fun x => x.reduce r) none).entities
  { p with entities }

end PanelQuery
