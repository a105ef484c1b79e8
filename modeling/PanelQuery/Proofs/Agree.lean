/-! # Results that agree

Two computations that may fail are compared: they return the same value, or end with faults that are
related in some way. Unlike equality, this holds of two runs that are at fault for different
reasons.

* **`Agree rel r r'`** — `r` and `r'` return the same value, or faults that `rel` relates;
* **`Agree.bind`** — the rule for one computation after another. -/

namespace PanelQuery

variable {ε β γ : Type}

/-- `Agree rel r r'`: the same value, or related faults. -/
def Agree (rel : ε → ε → Prop) (r r' : Except ε β) : Prop :=
  match r, r' with
  | .ok b, .ok b' => b = b'
  | .error e, .error e' => rel e e'
  | _, _ => False

namespace Agree

variable {rel : ε → ε → Prop}

/-- A result agrees with itself: `Agree rel r r`. -/
theorem refl (hrel : ∀ e, rel e e) (r : Except ε β) : Agree rel r r := by
  cases r with
  | ok b => exact rfl
  | error e => exact hrel e

/-- Equal results agree: `Agree rel r r'`. -/
theorem of_eq (hrel : ∀ e, rel e e) {r r' : Except ε β} (h : r = r') : Agree rel r r' :=
  h ▸ refl hrel r

/-- **One computation after another**: the second ones have to agree on every value that the first
ones both return. `Agree rel (r >>= f) (r' >>= f')`. -/
theorem bind {r r' : Except ε β} {f f' : β → Except ε γ} (h : Agree rel r r')
    (hf : ∀ b, r = .ok b → r' = .ok b → Agree rel (f b) (f' b)) :
    Agree rel (r >>= f) (r' >>= f') := by
  cases r with
  | ok b =>
    cases r' with
    | ok b' =>
      obtain rfl : b = b' := h
      exact hf b rfl rfl
    | error e' => exact h.elim
  | error e =>
    cases r' with
    | ok b' => exact h.elim
    | error e' => exact h

/-- `r = r'`: results agree up to equal faults when they are equal. -/
theorem eq {r r' : Except ε β} (h : Agree Eq r r') : r = r' := by
  cases r with
  | ok b =>
    cases r' with
    | ok b' => exact congrArg Except.ok h
    | error e' => exact h.elim
  | error e =>
    cases r' with
    | ok b' => exact h.elim
    | error e' => exact congrArg Except.error h

end Agree

end PanelQuery
