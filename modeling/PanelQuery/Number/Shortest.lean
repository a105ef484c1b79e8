import PanelQuery.Number.Dyadic
import PanelQuery.Number.Power

/-! # The shortest decimal text of a float

A float is written with the fewest decimal digits that read back as the same float, and with the
digits nearest to it among those.

* **`shortestDigits`** — the digits and the power of ten that scales them;
* **`FloatStyle`** — where a format keeps positional notation, which way it breaks a tie and whether
  it signs every exponent;
* **`FloatStyle.render`** — the text. -/

namespace PanelQuery

/-! ### Digits -/

/-- The reals that round to a float, between two fractions over one denominator. -/
structure RoundingInterval where
  /-- The numerator of the lower end. -/
  lower : Nat
  /-- The numerator of the float. -/
  centre : Nat
  /-- The numerator of the upper end. -/
  upper : Nat
  /-- The denominator of all three. -/
  denominator : Nat
  /-- Whether the ends round to the float as well. -/
  closed : Bool

/-- The rounding interval of a nonzero dyadic number: half a unit of its last place to either side,
and half of that below a power of two. -/
def Dyadic.roundingInterval (d : Dyadic) : RoundingInterval :=
  let scale := twoPow (d.exponent - 2).toNat
  let below := if d.mantissa = twoPow 52 ∧ -1074 < d.exponent then 1 else 2
  { lower := (4 * d.mantissa - below) * scale
    centre := 4 * d.mantissa * scale
    upper := (4 * d.mantissa + 2) * scale
    denominator := twoPow (2 - d.exponent).toNat
    closed := d.mantissa % 2 == 0 }

/-- Whether `n / m` lies in the interval. -/
def RoundingInterval.holds (r : RoundingInterval) (n m : Nat) : Bool :=
  let x := n * r.denominator
  if r.closed then decide (r.lower * m ≤ x ∧ x ≤ r.upper * m)
  else decide (r.lower * m < x ∧ x < r.upper * m)

/-- The number of decimal digits of a count. -/
def digitCount (n : Nat) : Nat := (Nat.toDigits 10 n).length

/-- The power of ten at or below the positive fraction `num / den`. -/
def leadingPower (num den : Nat) : Int :=
  if den ≤ num then (digitCount (num / den) : Int) - 1
  else
    let parts := (den + num - 1) / num
    Int.negOfNat (digitCount (parts - 1))

/-- The float on the grid of decimals with step `10 ^ power`: of the two grid points around it, the
ones that round to it, and of two such the nearer. -/
def RoundingInterval.onGrid? (r : RoundingInterval) (tieToEven : Bool) (power : Int) :
    Option Nat :=
  let up := tenPow power.toNat
  let down := tenPow (-power).toNat
  let num := r.centre * down
  let den := r.denominator * up
  let low := num / den
  let inside := fun d => r.holds (d * up) down
  match inside low, inside (low + 1) with
  | true, false => some low
  | false, true => some (low + 1)
  | true, true =>
      let twice := 2 * (num % den)
      if twice < den then some low
      else if den < twice then some (low + 1)
      else if tieToEven && low % 2 == 0 then some low
      else some (low + 1)
  | false, false => none

/-- A number without its trailing decimal zeros, and the power of ten they make up. At most `fuel`
zeros are taken. -/
def dropZeros : Nat → Nat → Int → Nat × Int
  | 0, digits, power => (digits, power)
  | fuel + 1, digits, power =>
      if digits % 10 = 0 ∧ digits ≠ 0 then dropZeros fuel (digits / 10) (power + 1)
      else (digits, power)

/-- `shortestDigits tieToEven d`: the shortest digits of a nonzero dyadic number and the power of
ten that scales them. Seventeen digits tell any two floats apart. -/
def shortestDigits (tieToEven : Bool) (d : Dyadic) : Nat × Int :=
  let r := d.roundingInterval
  let leading := leadingPower r.centre r.denominator
  let grid := fun (n : Nat) =>
    let power := leading - (n : Int)
    (r.onGrid? tieToEven power).map fun digits => (digits, power)
  match (List.range 17).findSome? grid with
  | some (digits, power) => dropZeros 17 digits power
  | none => (0, 0)

/-! ### Layout -/

/-- How a format lays out the digits of a float. -/
structure FloatStyle where
  /-- The least power of ten of a leading digit that is written without exponent. -/
  leastPositional : Int
  /-- The greatest power of ten of a leading digit that is written without exponent. -/
  greatestPositional : Int
  /-- Whether the even digit wins where two digits are equally near; else the larger does. -/
  tieToEven : Bool
  /-- Whether an exponent that is not negative has a plus sign. -/
  plusSign : Bool

/-- `FloatStyle.layout style digits power`: the digits with a point and, far from one, an exponent.
Positional text has at least one digit on either side of the point. -/
def FloatStyle.layout (style : FloatStyle) (digits : Nat) (power : Int) : String :=
  let text := Nat.toDigits 10 digits
  let leading := power + text.length - 1
  if style.leastPositional ≤ leading ∧ leading ≤ style.greatestPositional then
    if 0 ≤ power then
      String.ofList (text ++ List.replicate power.toNat '0' ++ ['.', '0'])
    else if 0 ≤ leading then
      let whole := (leading + 1).toNat
      String.ofList (text.take whole ++ '.' :: text.drop whole)
    else
      String.ofList ('0' :: '.' :: List.replicate (-leading - 1).toNat '0' ++ text)
  else
    let sign := if leading < 0 then "-" else if style.plusSign then "+" else ""
    let exponent := "e" ++ sign ++ toString leading.natAbs
    match text with
    | first :: second :: rest => String.ofList (first :: '.' :: second :: rest) ++ exponent
    | _ => String.ofList text ++ exponent

/-- `FloatStyle.render style x`: the text of a float. -/
def FloatStyle.render (style : FloatStyle) (x : Float) : String :=
  match Dyadic.ofFloat? x with
  | none => if x.isNaN then "NaN" else if x < 0.0 then "-inf" else "inf"
  | some d =>
      let sign := if d.negative then "-" else ""
      if d.mantissa = 0 then sign ++ "0.0"
      else
        let (digits, power) := shortestDigits style.tieToEven d
        sign ++ style.layout digits power

end PanelQuery
