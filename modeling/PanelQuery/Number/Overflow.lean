/-! # Sums of 64 bits

The sum and the difference of two 64-bit numbers may need more bits. Which of two things happens
then depends on how the program is built: in one build the result is taken modulo `2 ^ 64`, in the
other nothing more is computed.

* **`Overflow`** — the two builds;
* **`isWord`** — `-2 ^ 63 ≤ n ∧ n < 2 ^ 63`;
* **`Overflow.settle?`** — the number that a build makes of a sum or a difference. -/

namespace PanelQuery

/-- What a build does with sums and differences that have no 64 bits. -/
inductive Overflow where
  /-- The result is the one modulo `2 ^ 64` that has 64 bits. -/
  | wraps
  /-- Nothing more is computed. -/
  | stops
  deriving DecidableEq, Repr

/-- Whether a number has 64 bits: `-2 ^ 63 ≤ n ∧ n < 2 ^ 63`. -/
def isWord (n : Int) : Bool := decide (-9223372036854775808 ≤ n ∧ n < 9223372036854775808)

/-- The number that a build makes of the sum or difference `n`: `n` itself when it has 64 bits. -/
def Overflow.settle? (o : Overflow) (n : Int) : Option Int :=
  if isWord n then some n
  else match o with
    | wraps => some (n.bmod 18446744073709551616)
    | stops => none

end PanelQuery
