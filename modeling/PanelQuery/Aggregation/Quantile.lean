import PanelQuery.Statistics

/-! # Quantile buckets

Values put into numbered buckets by the quantiles of all values of their date.

* **`cutPoints`, `bucketOf`** — the upper ends of the buckets, and the bucket of a value;
* **`ordinal`, `bucketLabel`** — the names of buckets. -/

namespace PanelQuery

variable {α : Type} [Scalar α]

/-- The upper ends of `n` buckets of the given values. -/
def cutPoints (n : Nat) (values : List α) : List α :=
  let ys := Scalar.sorted values
  (List.range n).filterMap fun k =>
    Statistics.quantileSorted ys (Scalar.ofNat (k + 1) / Scalar.ofNat n)

/-- The bucket of a value, from one: the first whose upper end the value does not exceed, or the
last. -/
def bucketOf (value : α) (cuts : List α) : Nat :=
  match cuts.findIdx? fun c => decide (value ≤ c) with
  | some n => n + 1
  | none => cuts.length

/-- A number with the ending of its rank. -/
def ordinal (k : Nat) : String :=
  let ending :=
    if 11 ≤ k % 100 ∧ k % 100 ≤ 13 then "th"
    else match k % 10 with
      | 1 => "st"
      | 2 => "nd"
      | 3 => "rd"
      | _ => "th"
  toString k ++ ending

/-- The name of one of `n` buckets. -/
def bucketLabel (k n : Nat) : String :=
  let name := match n with
    | 4 => "Quartile"
    | 5 => "Quintile"
    | 10 => "Decile"
    | _ => "Quantile"
  ordinal k ++ " " ++ name

end PanelQuery
