import PanelQuery.Number.Power

/-! # Floats as dyadic numbers

Every finite binary64 float is a whole number times a power of two. Read that way, its remainder
and its integer value are exact computations on whole numbers.

* **`Dyadic.ofFloat?`** — the reading; none for infinities and for what is no number;
* **`remainder`** — the exact remainder of a division that truncates toward zero;
* **`wholeCount?`** — the count that a float without a fraction stands for. -/

namespace PanelQuery

/-- The number `± mantissa · 2 ^ exponent`. -/
structure Dyadic where
  /-- Whether the sign is minus, also that of zero. -/
  negative : Bool
  /-- The whole number that is scaled. -/
  mantissa : Nat
  /-- The power of two that scales it. -/
  exponent : Int
  deriving DecidableEq, Repr

namespace Dyadic

/-- A finite float as a dyadic number. Normal floats have 53 significant bits, the ones below them
keep the least exponent. -/
def ofFloat? (x : Float) : Option Dyadic :=
  let bits := x.toBits.toNat
  let fraction : Nat := bits % twoPow 52
  let biased : Nat := bits / twoPow 52 % twoPow 11
  let negative := decide (twoPow 63 ≤ bits)
  if biased = 2047 then none
  else if biased = 0 then some ⟨negative, fraction, -1074⟩
  else some ⟨negative, fraction + twoPow 52, (biased : Int) - 1075⟩

/-- A dyadic number of at most 53 significant bits as a float. -/
def toFloat (d : Dyadic) : Float :=
  let magnitude := Float.scaleB (Float.ofNat d.mantissa) d.exponent
  if d.negative then -magnitude else magnitude

/-- The mantissa once the exponent is lowered to `e`. -/
def mantissaAt (d : Dyadic) (e : Int) : Nat := d.mantissa * twoPow (d.exponent - e).toNat

end Dyadic

/-- The remainder of `a` divided by `b`, of less magnitude than `b` and with the sign of `a`. An
infinite divisor leaves `a` as it is; nothing divides an infinity. -/
def remainder (a b : Float) : Float :=
  match Dyadic.ofFloat? a, Dyadic.ofFloat? b with
  | some x, some y =>
      if y.mantissa = 0 then 0.0 / 0.0
      else
        let e := min x.exponent y.exponent
        Dyadic.toFloat ⟨x.negative, x.mantissaAt e % y.mantissaAt e, e⟩
  | some _, none => if b.isNaN then b else a
  | none, _ => 0.0 / 0.0

/-- The count that a float without sign and fraction stands for. -/
def wholeCount? (x : Float) : Option Nat :=
  match Dyadic.ofFloat? x with
  | some ⟨_, mantissa, exponent⟩ =>
      if 0 ≤ exponent then some (mantissa * twoPow exponent.toNat)
      else
        let unit := twoPow exponent.natAbs
        if mantissa % unit = 0 then some (mantissa / unit) else none
  | none => none

end PanelQuery
