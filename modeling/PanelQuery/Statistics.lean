import PanelQuery.Number.Scalar

/-! # Statistics of a list of numbers

The figures that formulas, reducers and transforms draw from a list of observations. A figure that
the list is too short for is `none`.

* **`sum`, `sumProduct`** — sums dealt over four running totals;
* **`mean`, `variance`, `stddev`, `median`, `quantileSorted`** — centre, spread and position;
* **`compound`, `annualGrowth`** — growth of returns and of levels;
* **`masked`** — the observations a mask lets through. -/

namespace PanelQuery.Statistics

variable {α : Type} [Scalar α]

/-! ### Sums -/

/-- Four running totals. -/
structure Lanes (α : Type) where
  /-- The total of the first, fifth, ninth number and so on. -/
  first : α
  /-- The total of the numbers one place later. -/
  second : α
  /-- The total of the numbers two places later. -/
  third : α
  /-- The total of the numbers three places later. -/
  fourth : α

/-- Deals numbers to the four totals while four are left, and gives the rest back. -/
def Lanes.deal (acc : Lanes α) : List α → Lanes α × List α
  | a :: b :: c :: d :: rest =>
      Lanes.deal ⟨acc.first + a, acc.second + b, acc.third + c, acc.fourth + d⟩ rest
  | rest => (acc, rest)

/-- The sum of all numbers: the four totals from left to right, then the sum of the one to three
numbers that fill no round. -/
def sum (xs : List α) : α :=
  let (lanes, rest) := Lanes.deal ⟨0, 0, 0, 0⟩ xs
  Scalar.sumLeft [lanes.first, lanes.second, lanes.third, lanes.fourth] + Scalar.sumLeft rest

/-- Deals the products of numbers at equal places to the four totals while both lists have four
left, and gives the rests of both back. -/
def Lanes.dealProducts (acc : Lanes α) : List α → List α → Lanes α × List α × List α
  | a :: b :: c :: d :: xs, a' :: b' :: c' :: d' :: ys =>
      Lanes.dealProducts ⟨acc.first + a * a', acc.second + b * b', acc.third + c * c',
        acc.fourth + d * d'⟩ xs ys
  | xs, ys => (acc, xs, ys)

/-- The sum of products of the numbers at equal places, as far as both lists reach: the four totals
from left to right, then the sum of the products that fill no round. -/
def sumProduct (xs ys : List α) : α :=
  let n := min xs.length ys.length
  let (lanes, restX, restY) := Lanes.dealProducts ⟨0, 0, 0, 0⟩ (xs.take n) (ys.take n)
  Scalar.sumLeft [lanes.first, lanes.second, lanes.third, lanes.fourth]
    + Scalar.sumLeft (List.zipWith (· * ·) restX restY)

/-! ### Centre and spread -/

/-- The arithmetic mean. -/
def mean (xs : List α) : Option α :=
  if xs.isEmpty then none else some (sum xs / Scalar.ofNat xs.length)

/-- The sample variance, with one less than the count as its denominator. -/
def variance (xs : List α) : Option α :=
  if xs.length < 2 then none
  else (mean xs).map fun m =>
    Scalar.sumLeft (xs.map fun x => (x - m) * (x - m)) / Scalar.ofNat (xs.length - 1)

/-- The square root of the sample variance. -/
def stddev {β : Type} [Analytic β] (xs : List β) : Option β := (variance xs).map Analytic.sqrt

/-- The middle number in sorted order, or the mean of the two middle ones. -/
def median (xs : List α) : Option α :=
  let ys := Scalar.sorted xs
  let mid := ys.length / 2
  if ys.length % 2 == 1 then ys[mid]?
  else do
    let below ← ys[mid - 1]?
    let above ← ys[mid]?
    return (below + above) / Scalar.ofNat 2

/-- The smallest number; the ones that differ from themselves count only when all do. -/
def minimum : List α → Option α
  | [] => none
  | x :: xs => some (xs.foldl Scalar.minimum x)

/-- The largest number; the ones that differ from themselves count only when all do. -/
def maximum : List α → Option α
  | [] => none
  | x :: xs => some (xs.foldl Scalar.maximum x)

/-- The quantile of sorted numbers at a fraction `q` of the way from first to last, on the straight
line between the two neighbouring ranks. A fraction outside `[0, 1]` counts as the nearer end. -/
def quantileSorted (ys : List α) (q : α) : Option α :=
  if ys.isEmpty then none
  else
    let rank := Scalar.clamp 0 1 q * Scalar.ofNat (ys.length - 1)
    let lo := Scalar.floor rank
    do
      let below ← ys[lo]?
      let above ← ys[Scalar.ceil rank]?
      return below + (above - below) * (rank - Scalar.ofNat lo)

/-! ### Growth -/

/-- The product of all numbers. -/
def product (xs : List α) : Option α :=
  if xs.isEmpty then none else some (Scalar.productLeft xs)

/-- The growth of returns one after the other, less one. -/
def compound (xs : List α) : Option α :=
  if xs.isEmpty then none else some (Scalar.productLeft (xs.map (1 + ·)) - 1)

/-- The yearly growth rate from the first to the last level over a number of days, with 365.25
days a year. There is none over no time or from level zero. -/
def annualGrowth {β : Type} [Analytic β] (xs : List β) (days : β) : Option β := do
  let first ← xs.head?
  let last ← xs.getLast?
  if days ≤ 0 ∨ (first == 0) = true then none
  else
    let daysPerYear := Scalar.ofNat 1461 / Scalar.ofNat 4
    return Analytic.pow (last / first) (daysPerYear / days) - 1

/-! ### Selection -/

/-- `masked xs mask`: the numbers whose mask entry is not zero, as far as the mask reaches. -/
def masked (xs mask : List α) : List α :=
  ((xs.zip mask).filter fun p => !(p.2 == 0)).map Prod.fst

end PanelQuery.Statistics
