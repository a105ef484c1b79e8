import PanelQuery.Number.Power

/-! # Scalars

Statistics, resampling and aggregation are written once, over any type of numbers that can be
added, multiplied, divided and ordered:

* **`Scalar α`** — the operations and the two orders those computations use;
* **`Analytic α`** — a scalar with square roots and real powers as well;
* **`Scalar.maximum`, `Scalar.minimum`** — the extremes of two numbers, which skip a number that
  differs from itself.

Panels hold binary64 floats. Exact rationals are a second reading of the same formulas, for which
the laws of arithmetic hold without rounding. -/

namespace PanelQuery

/-- Numbers that can be computed with and put in order.

`<`, `≤` and `==` compare values; `sortKeyLe` is the total order that sorting uses, which also
places the numbers that `<` cannot compare. -/
class Scalar (α : Type) extends Add α, Sub α, Mul α, Div α, Neg α, Zero α, One α, BEq α, LT α,
    LE α where
  /-- The number of a count. -/
  ofNat : Nat → α
  /-- What a running sum starts from: adding it changes no number. -/
  sumStart : α
  /-- Whether one number is less than another can be decided. -/
  decLt (a b : α) : Decidable (a < b)
  /-- Whether one number is at most another can be decided. -/
  decLe (a b : α) : Decidable (a ≤ b)
  /-- The total order of sorting. -/
  sortKeyLe : α → α → Bool
  /-- The greatest count at or below a number; zero when there is none. -/
  floor : α → Nat
  /-- The least count at or above a number; zero when there is none. -/
  ceil : α → Nat

/-- A scalar with square roots and real powers. -/
class Analytic (α : Type) extends Scalar α where
  /-- The square root. -/
  sqrt : α → α
  /-- A number to the power of another. -/
  pow : α → α → α

namespace Scalar

variable {α : Type} [Scalar α]

instance (a b : α) : Decidable (a < b) := decLt a b

instance (a b : α) : Decidable (a ≤ b) := decLe a b

/-- `minimum a b`: the smaller of two numbers. Of two equal ones it is the first, and a first
operand that differs from itself gives way to the second. -/
def minimum (a b : α) : α := if b < a then b else if a == a then a else b

/-- `maximum a b`: the larger of two numbers. Of two equal ones it is the first, and a first operand
that differs from itself gives way to the second. -/
def maximum (a b : α) : α := if a < b then b else if a == a then a else b

/-- `x` held within `lo` and `hi`; a number that compares with neither stays as it is. -/
def clamp (lo hi x : α) : α := if x < lo then lo else if hi < x then hi else x

/-- The sum from left to right. -/
def sumLeft (xs : List α) : α := xs.foldl (· + ·) sumStart

/-- The product from left to right. -/
def productLeft (xs : List α) : α := xs.foldl (· * ·) 1

/-- The numbers in the order of sorting; equal keys keep their places. -/
def sorted (xs : List α) : List α := xs.mergeSort sortKeyLe

end Scalar

/-! ### Exact rationals -/

instance : Scalar Rat where
  zero := 0
  one := 1
  ofNat n := (n : Rat)
  sumStart := 0
  decLt a b := inferInstanceAs (Decidable (a < b))
  decLe a b := inferInstanceAs (Decidable (a ≤ b))
  sortKeyLe a b := decide (a ≤ b)
  floor x := x.floor.toNat
  ceil x := x.ceil.toNat

/-! ### Binary64 floats -/

/-- `floatSortKey x` is the place of `x` in the total order of floats: `x.toBits` where the sign is
positive, and from `-1` down where it is negative. So there are negative numbers from the largest
magnitude up, `-0.0`, `0.0`, positive numbers, and the float that is no number, which comes last: in
`Float` it is one, with a positive sign. Words that tell several of them apart have some with a
negative sign, which that order puts before all numbers. -/
def floatSortKey (x : Float) : Int :=
  let bits := x.toBits.toNat
  if bits < twoPow 63 then bits else (twoPow 63 : Int) - bits - 1

instance : Analytic Float where
  zero := 0.0
  one := 1.0
  ofNat := Float.ofNat
  sumStart := -0.0
  decLt a b := inferInstanceAs (Decidable (a < b))
  decLe a b := inferInstanceAs (Decidable (a ≤ b))
  sortKeyLe a b := decide (floatSortKey a ≤ floatSortKey b)
  floor x := x.floor.toUInt64.toNat
  ceil x := x.ceil.toUInt64.toNat
  sqrt := Float.sqrt
  pow := Float.pow

end PanelQuery
