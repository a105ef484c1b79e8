/-! # Powers

The powers of two that bound words and scale floats, and the powers of ten that scale decimals.

* **`twoPow`, `tenPow`** — powers of two and of ten. -/

namespace PanelQuery

/-- Two to the power of `n`. -/
def twoPow (n : Nat) : Nat := Nat.pow 2 n

/-- Ten to the power of `n`. -/
def tenPow (n : Nat) : Nat := Nat.pow 10 n

end PanelQuery
