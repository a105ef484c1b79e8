import PanelQuery.Number.Power
import PanelQuery.Number.Shortest

/-! # Reading numbers

Decimal text as numbers.

* **`Decimal.toFloat`** — the float nearest to a decimal number;
* **`readFloat?`** — a float with an optional sign, fraction and exponent, or a named value;
* **`readInteger?`, `readCount?`** — an integer or a count that fits 64 bits. -/

namespace PanelQuery

/-- The number `mantissa · 10 ^ exponent`. -/
structure Decimal where
  /-- The digits, read without a point. -/
  mantissa : Nat
  /-- The power of ten that scales them. -/
  exponent : Int
  deriving DecidableEq, Repr

/-- The float nearest to a decimal number; beyond the range of floats, zero or infinity. -/
def Decimal.toFloat (d : Decimal) : Float :=
  let magnitude := d.exponent + digitCount d.mantissa
  if d.mantissa = 0 then 0.0
  else if magnitude < -330 then 0.0
  else if 310 < magnitude then 1.0 / 0.0
  else Float.ofScientific d.mantissa (decide (d.exponent < 0)) d.exponent.natAbs

/-- Whether a character is an ASCII decimal digit. -/
def isDigit (c : Char) : Bool := decide ('0' ≤ c) && decide (c ≤ '9')

/-- The value of decimal digits, read on from `acc`. -/
def digitsValue (acc : Nat) (digits : List Char) : Nat :=
  digits.foldl (fun n c => 10 * n + (c.toNat - '0'.toNat)) acc

/-- A sign in front of the rest: whether it is minus. -/
def splitSign : List Char → Bool × List Char
  | '-' :: rest => (true, rest)
  | '+' :: rest => (false, rest)
  | cs => (false, cs)

/-- An exponent with its mark, which ends the text; no text is exponent zero. -/
def readExponent? : List Char → Option Int
  | [] => some 0
  | mark :: rest =>
      if mark = 'e' ∨ mark = 'E' then
        let (negative, digits) := splitSign rest
        if digits.isEmpty || !digits.all isDigit then none
        else
          let value : Int := digitsValue 0 digits
          some (if negative then -value else value)
      else none

/-- A decimal number without sign: digits with at most one point among or beside them, then an
optional exponent. -/
def readDecimal? (cs : List Char) : Option Decimal :=
  let whole := cs.takeWhile isDigit
  let rest := cs.dropWhile isDigit
  let (fraction, rest) := match rest with
    | '.' :: more => (more.takeWhile isDigit, more.dropWhile isDigit)
    | _ => ([], rest)
  if whole.isEmpty && fraction.isEmpty then none
  else (readExponent? rest).map fun exponent =>
    ⟨digitsValue (digitsValue 0 whole) fraction, exponent - fraction.length⟩

/-- A float: a decimal number, an infinity or the value that is no number, after an optional sign.
The names may be written in either case. -/
def readFloat? (text : String) : Option Float :=
  let (negative, cs) := splitSign text.toList
  let magnitude : Option Float :=
    match String.ofList (cs.map Char.toLower) with
    | "inf" | "infinity" => some (1.0 / 0.0)
    | "nan" => some (0.0 / 0.0)
    | _ => (readDecimal? cs).map Decimal.toFloat
  magnitude.map fun x => if negative then -x else x

/-- An integer: decimal digits after an optional sign, within 64 bits. -/
def readInteger? (text : String) : Option Int :=
  let (negative, digits) := splitSign text.toList
  if digits.isEmpty || !digits.all isDigit then none
  else
    let size : Int := digitsValue 0 digits
    let n := if negative then -size else size
    if -(twoPow 63) ≤ n ∧ n < twoPow 63 then some n else none

/-- A count: decimal digits after an optional plus, less than `2 ^ 64`. -/
def readCount? (text : String) : Option Nat :=
  let digits := match text.toList with
    | '+' :: rest => rest
    | cs => cs
  if digits.isEmpty || !digits.all isDigit then none
  else
    let n := digitsValue 0 digits
    if n < twoPow 64 then some n else none

end PanelQuery
