import PanelQuery.Statistics

/-! # Least squares

The straight line through pairs of observations whose squared distances to them are least in sum.

* **`Line`** — intercept, slope and the share of variation explained;
* **`Line.fit`** — the line of a list of pairs, when there is exactly one;
* **`Line.predict`** — a point of the line. -/

namespace PanelQuery.Statistics

variable {α : Type} [Scalar α]

/-- A fitted line `intercept + slope · x`. -/
structure Line (α : Type) where
  /-- The value at `x = 0`. -/
  intercept : α
  /-- The change of the value with `x`. -/
  slope : α
  /-- The share of the variation of `y` that the line explains. -/
  explained : α

namespace Line

/-- The value of the line at `x`. -/
def predict (line : Line α) (x : α) : α := line.intercept + line.slope * x

/-- Sums of squares and of products of the distances to the two means. -/
structure Spread (α : Type) where
  /-- The squared distances of `x`. -/
  xx : α
  /-- The products of the distances of `x` and `y`. -/
  xy : α
  /-- The squared distances of `y`. -/
  yy : α

/-- `Spread.about mx my pairs`: the sums over all pairs, from left to right. -/
def Spread.about (mx my : α) (pairs : List (α × α)) : Spread α :=
  pairs.foldl (fun s p =>
    let dx := p.1 - mx
    let dy := p.2 - my
    ⟨s.xx + dx * dx, s.xy + dx * dy, s.yy + dy * dy⟩) ⟨0, 0, 0⟩

/-- The line of least squares through the pairs `(x, y)`, as far as both lists reach. It needs two
pairs and two different `x`. -/
def fit (xs ys : List α) : Option (Line α) :=
  let pairs := xs.zip ys
  if pairs.length < 2 then none
  else
    let mx := sum (pairs.map Prod.fst) / Scalar.ofNat pairs.length
    let my := sum (pairs.map Prod.snd) / Scalar.ofNat pairs.length
    let s := Spread.about mx my pairs
    if s.xx == 0 then none
    else
      let slope := s.xy / s.xx
      let explained := if s.yy == 0 then 1 else s.xy * s.xy / (s.xx * s.yy)
      some ⟨my - slope * mx, slope, explained⟩

end Line

end PanelQuery.Statistics
