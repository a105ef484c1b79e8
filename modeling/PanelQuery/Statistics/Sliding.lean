/-! # Sliding windows

The stretches of a fixed number of neighbours in a list, which rolling figures are computed over.

* **`sliding`** — all stretches, in order. -/

namespace PanelQuery.Statistics

/-- All stretches of `size` neighbours, in order; none when the list is shorter. Of size zero there
is an empty one at each place of the list. -/
def sliding {β : Type} (size : Nat) : List β → List (List β)
  | [] => []
  | x :: rest =>
      if size ≤ rest.length + 1 then (x :: rest).take size :: sliding size rest else []

end PanelQuery.Statistics
