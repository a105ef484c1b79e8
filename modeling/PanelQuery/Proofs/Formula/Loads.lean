import PanelQuery.Formula.Machine
import PanelQuery.Proofs.Meets

/-! # Loads

What loads give, and what they fail with, as far as their indices can be resolved. A stretch goes
from a place of a series to the same or a later one, so it always has a value.

* **`EvalError.isOfLoad`** — the errors of loads;
* **`Context.pointAt_meets`, `Context.categoryAt_meets`** — loads of one value;
* **`Context.cutBetween_meets`** — loads of stretches, which are never empty. -/

namespace PanelQuery.Formula

/-- Whether an error is one of a load: a place that is not in a series, or a series or an output
value that is not there. -/
def EvalError.isOfLoad : EvalError → Bool
  | .outOfBounds .. | .invalidRange .. | .missingField _ | .missingBroadcast | .missingOutput _ =>
      true
  | _ => false

namespace Context

section Loads

variable (ctx : Context) (reference : Reference) {fault : EvalError → Prop}
  (hload : ∀ e : EvalError, e.isOfLoad = true → fault e)

include hload

/-- `Meets (checked index length) (fun n => n < length ∧ (n : Int) = index) fault`: an index within
a length stays what it is. -/
theorem checked_meets (index : Int) (length : Nat) :
    Meets (checked index length) (fun n => n < length ∧ (n : Int) = index) fault := by
  unfold checked
  split
  · exact hload _ rfl
  · rw [Meets.ok_iff]
    omega

/-- The points of a series: `Meets (ctx.points reference) (fun _ => True) fault`. -/
theorem points_meets : Meets (ctx.points reference) (fun _ => True) fault := by
  unfold points
  split
  · split
    · trivial
    · exact hload _ rfl
  · split
    · trivial
    · exact hload _ rfl
  · trivial

/-- The length of a series: `Meets (ctx.length reference) (fun _ => True) fault`. -/
theorem length_meets : Meets (ctx.length reference) (fun _ => True) fault := by
  unfold length
  split
  · trivial
  · exact (ctx.points_meets reference hload).map fun _ _ => trivial

/-- The value at a place: `Meets (ctx.valueAt reference n) (fun _ => True) fault`. -/
theorem valueAt_meets (n : Nat) : Meets (ctx.valueAt reference n) (fun _ => True) fault := by
  unfold valueAt
  split
  · split
    · trivial
    · exact hload _ rfl
  · refine (ctx.points_meets reference hload).bind fun ps _ => ?_
    split
    · trivial
    · exact hload _ rfl

/-- The value at an index that can be resolved:
`Meets (ctx.pointAt reference resolve) (fun _ => True) fault`. -/
theorem pointAt_meets {resolve : Nat → Except EvalError Int}
    (h : ∀ length, Meets (resolve length) (fun _ => True) fault) :
    Meets (ctx.pointAt reference resolve) (fun _ => True) fault := by
  unfold pointAt
  refine (ctx.length_meets reference hload).bind fun length _ => ?_
  refine (h length).bind fun index _ => ?_
  exact (checked_meets hload index length).bind fun n _ => ctx.valueAt_meets reference hload n

/-- The category at an index that can be resolved:
`Meets (ctx.categoryAt resolve) (fun _ => True) fault`. -/
theorem categoryAt_meets {resolve : Nat → Except EvalError Int}
    (h : ∀ length, Meets (resolve length) (fun _ => True) fault) :
    Meets (ctx.categoryAt resolve) (fun _ => True) fault := by
  unfold categoryAt
  refine (h ctx.driver.length).bind fun index _ => ?_
  refine (checked_meets hload index _).bind fun n _ => ?_
  split
  · trivial
  · exact hload _ rfl

/-- **A stretch whose ends can be resolved has a value**:
`Meets (ctx.cutBetween reference resolve) (fun c => c.values ≠ []) fault`. -/
theorem cutBetween_meets {resolve : Nat → Except EvalError (Int × Int)}
    (h : ∀ length, Meets (resolve length) (fun _ => True) fault) :
    Meets (ctx.cutBetween reference resolve) (fun c => c.values ≠ []) fault := by
  unfold cutBetween
  refine (ctx.length_meets reference hload).bind fun length _ => ?_
  refine (h length).bind fun ends _ => ?_
  obtain ⟨first, last⟩ := ends
  dsimp only
  split
  · exact hload _ rfl
  rename_i horder
  refine (checked_meets hload first length).bind fun low ⟨_, hlow⟩ => ?_
  refine (checked_meets hload last length).bind fun high ⟨_, hhigh⟩ => ?_
  -- there is a value for each place from the first to the last, which does not come before it
  refine (Meets.mapM (fun n => ctx.valueAt_meets reference hload n) _).bind fun values hvalues => ?_
  have hlength : values.length = high + 1 - low := by
    rw [← hvalues.length_eq, List.length_range']
  refine (ctx.points_meets reference hload).bind fun ps _ => ?_
  show values ≠ []
  exact List.ne_nil_of_length_pos (by omega)

end Loads

end Context

end PanelQuery.Formula
