import PanelQuery.Panel
import PanelQuery.Statistics.LeastSquares
import PanelQuery.Statistics.Sliding

/-! # Regressions

Straight lines fitted through the first fields of entities on two sides.

* **`Regression`** — over all observations, or over a window that moves with time;
* **`Pairs`** — the observations that two fields have at the same time;
* **`Panel.regress`** — the figures of each left entity against its match on the right. -/

namespace PanelQuery

/-- A kind of regression. -/
inductive Regression where
  /-- One line through all observations. -/
  | static
  /-- The slopes of lines through the last observations. -/
  | rollingBeta
  /-- The distances from lines through the observations before. -/
  | rollingAlpha
  deriving DecidableEq, Repr

/-- What readers call a regression. -/
def Regression.label : Regression → String
  | static => "Beta"
  | rollingBeta => "Rolling Beta"
  | rollingAlpha => "Rolling Alpha"

/-- All kinds. -/
def Regression.all : List Regression := [static, rollingBeta, rollingAlpha]

variable {α : Type} [Scalar α]

/-! ### Figures -/

/-- Two values of the same time. -/
structure Pair (α : Type) where
  time : Instant
  x : α
  y : α

/-- `pairsOf x y`: the values that two fields have at the same times. -/
def pairsOf (x y : Points α) : List (Pair α) :=
  y.filterMap fun p => (x.valueAt? p.time).map fun v => ⟨p.time, v, p.value⟩

/-- The line through pairs. -/
def lineThrough (pairs : List (Pair α)) : Option (Statistics.Line α) :=
  Statistics.Line.fit (pairs.map Pair.x) (pairs.map Pair.y)

/-- `figureSeries label points`: a computed field. -/
def figureSeries (label : String) (points : Points α) : Series α :=
  .ofWrites { Header.labelled label with transformed := true } points

/-- The line through all pairs, at the last of their times. -/
def staticFigures (pairs : List (Pair α)) : List (Series α) :=
  match lineThrough pairs, pairs.getLast? with
  | some line, some last =>
      [figureSeries "Alpha" [⟨last.time, line.intercept⟩],
        figureSeries "Beta" [⟨last.time, line.slope⟩],
        figureSeries "R Squared" [⟨last.time, line.explained⟩]]
  | _, _ => []

/-- The lines through the last `size` pairs, at each time that has so many and one line through
them. -/
def rollingLines (size : Nat) (pairs : List (Pair α)) : List (Instant × Statistics.Line α) :=
  (Statistics.sliding size pairs).filterMap fun window => do
    let last ← window.getLast?
    let line ← lineThrough window
    return (last.time, line)

/-- `rollingBetaFigures size pairs`: the slopes of these lines, and how much they explain. -/
def rollingBetaFigures (size : Nat) (pairs : List (Pair α)) : List (Series α) :=
  let lines := rollingLines size pairs
  [figureSeries "Beta" (lines.map fun (t, line) => ⟨t, line.slope⟩),
    figureSeries "R Squared" (lines.map fun (t, line) => ⟨t, line.explained⟩)]

/-- The distance of each pair from the line through the `size` pairs before it. -/
def residuals (size : Nat) (pairs : List (Pair α)) : Points α :=
  (Statistics.sliding (size + 1) pairs).filterMap fun window => do
    let last ← window.getLast?
    let line ← lineThrough window.dropLast
    return ⟨last.time, last.y - line.predict last.x⟩

/-- `rollingAlphaFigures size pairs`: these distances as a field. -/
def rollingAlphaFigures (size : Nat) (pairs : List (Pair α)) : List (Series α) :=
  [figureSeries "Alpha" (residuals size pairs)]

/-- `Regression.figures kind window pairs`: the fields of a regression over a window of
observations. -/
def Regression.figures (kind : Regression) (window : Nat) (pairs : List (Pair α)) :
    List (Series α) :=
  match kind with
  | static => staticFigures pairs
  | rollingBeta => rollingBetaFigures window pairs
  | rollingAlpha => rollingAlphaFigures window pairs

/-! ### Panels -/

/-- The field of the right side that an entity is regressed against: that of the entity with its
key, or else of the first one. -/
def Panel.regressor? (right : Panel α) (key : String) : Option (Series α) :=
  ((right.find? key).or right.entities.head?).bind fun r => r.fields.head?

/-- `Entity.regress kind window right l`: the figures of one entity, or why there are none. -/
def Entity.regress (kind : Regression) (window : Nat) (right : Panel α) (l : Entity α) :
    Except String (Entity α) :=
  match l.fields.head? with
  | none => .error (l.identity.name ++ ": nothing to regress")
  | some y =>
      match right.regressor? l.identity.key with
      | none => .error (l.identity.name ++ ": no series to regress against")
      | some x =>
          let fields := kind.figures window (pairsOf x.points y.points)
          if fields.all fun s => s.points.isEmpty then
            .error (l.identity.name ++ ": not enough overlapping observations for " ++ kind.label)
          else .ok { identity := l.identity, series := fields, category := l.category }

/-- What an attempt gave. -/
def attempted? {ε β : Type} : Except ε β → Option β
  | .ok b => some b
  | .error _ => none

/-- Why an attempt failed. -/
def failure? {ε β : Type} : Except ε β → Option ε
  | .ok _ => none
  | .error e => some e

/-- `Panel.regress kind window left right`: the panel of the figures of all left entities. -/
def Panel.regress (kind : Regression) (window : Nat) (left right : Panel α) : Panel α :=
  let attempts := left.entities.map (Entity.regress kind window right)
  { entities := attempts.filterMap attempted?
    errors := left.errors ++ right.errors ++ attempts.filterMap failure?
    hint := if kind = .static then .table else .line }

end PanelQuery
