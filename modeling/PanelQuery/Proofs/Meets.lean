import Mathlib.Data.List.Forall2

/-! # Results that meet a condition

A computation that may fail is judged by two conditions at once: one on what it returns and one on
the faults it may end with.

* **`Meets r post fault`** — `r` returns something that satisfies `post`, or ends with a fault that
  satisfies `fault`;
* **`Meets.bind`** — the rule for one computation after another;
* **`Meets.mapM`, `Meets.foldlM`** — the rules for a computation for each element of a list. -/

namespace PanelQuery

variable {ε β γ : Type}

/-- A result that satisfies `post`, or a fault that satisfies `fault`. -/
def Meets (r : Except ε β) (post : β → Prop) (fault : ε → Prop) : Prop :=
  match r with
  | .ok b => post b
  | .error e => fault e

namespace Meets

variable {post post' : β → Prop} {fault fault' : ε → Prop}

/-- `Meets (.ok b : Except ε β) post fault ↔ post b`: a returned value meets the condition on
values. -/
@[simp] theorem ok_iff (b : β) : Meets (.ok b : Except ε β) post fault ↔ post b := Iff.rfl

/-- `Meets (.error e : Except ε β) post fault ↔ fault e`: a fault meets the condition on faults. -/
@[simp] theorem error_iff (e : ε) : Meets (.error e : Except ε β) post fault ↔ fault e := Iff.rfl

/-- `pure` returns its value. -/
@[simp] theorem pure_iff (b : β) : Meets (pure b : Except ε β) post fault ↔ post b := Iff.rfl

/-- `throw` ends with its fault. -/
@[simp] theorem throw_iff (e : ε) : Meets (throw e : Except ε β) post fault ↔ fault e := Iff.rfl

/-- **One computation after another**: the second has to meet the conditions after every value that
the first may return. `Meets (r >>= f) goal fault`. -/
theorem bind {r : Except ε β} {f : β → Except ε γ} {goal : γ → Prop} (h : Meets r post fault)
    (hf : ∀ b, post b → Meets (f b) goal fault) : Meets (r >>= f) goal fault := by
  cases r with
  | ok b => exact hf b h
  | error e => exact h

/-- The value of a computation changed by a function: `Meets (r.map f) goal fault`. -/
theorem map {r : Except ε β} {f : β → γ} {goal : γ → Prop} (h : Meets r post fault)
    (hf : ∀ b, post b → goal (f b)) : Meets (r.map f) goal fault := by
  cases r with
  | ok b => exact hf b h
  | error e => exact h

/-- Both conditions may be weakened: `Meets r post' fault'`. -/
theorem mono {r : Except ε β} (h : Meets r post fault) (hp : ∀ b, post b → post' b)
    (hf : ∀ e, fault e → fault' e) : Meets r post' fault' := by
  cases r with
  | ok b => exact hp b h
  | error e => exact hf e h

/-- **A computation for each element of a list**: the results are related to the elements as each
single one is. `Meets (bs.mapM f) (List.Forall₂ rel bs) fault`. -/
theorem mapM {f : β → Except ε γ} {rel : β → γ → Prop} (hf : ∀ b, Meets (f b) (rel b) fault)
    (bs : List β) : Meets (bs.mapM f) (List.Forall₂ rel bs) fault := by
  induction bs with
  | nil => exact .nil
  | cons b bs ih =>
    rw [List.mapM_cons]
    exact (hf b).bind fun c hc => ih.bind fun cs hcs => .cons hc hcs

/-- A computation for each element of a list, of which each meets the same condition:
`Meets (bs.mapM f) (fun cs => ∀ c ∈ cs, goal c) fault`. -/
theorem mapM_forall {f : β → Except ε γ} {goal : γ → Prop} (hf : ∀ b, Meets (f b) goal fault)
    (bs : List β) : Meets (bs.mapM f) (fun cs => ∀ c ∈ cs, goal c) fault := by
  refine (mapM hf bs).mono (fun cs hcs => ?_) fun e he => he
  induction hcs with
  | nil => exact List.forall_mem_nil _
  | cons hc _ ih => exact List.forall_mem_cons.2 ⟨hc, ih⟩

/-- **A computation for one element after the other**, of which each keeps an invariant:
`Meets (bs.foldlM f c) inv fault`. -/
theorem foldlM {f : γ → β → Except ε γ} (inv : γ → Prop)
    (hf : ∀ c b, inv c → Meets (f c b) inv fault) {c : γ} (hc : inv c) (bs : List β) :
    Meets (bs.foldlM f c) inv fault := by
  induction bs generalizing c with
  | nil => exact hc
  | cons b bs ih =>
    rw [List.foldlM_cons]
    exact (hf c b hc).bind fun c' hc' => ih hc'

/-- Every result meets the conditions that ask for nothing:
`Meets r (fun _ => True) (fun _ => True)`. -/
theorem any (r : Except ε β) : Meets r (fun _ => True) (fun _ => True) := by
  cases r <;> trivial

/-- A computation that has returned a value has returned one that meets the condition: `post b`. -/
theorem of_ok {r : Except ε β} {b : β} (h : Meets r post fault) (hr : r = .ok b) : post b := by
  rw [hr] at h
  exact h

/-- A computation that has failed has failed with a fault that meets the condition: `fault e`. -/
theorem of_error {r : Except ε β} {e : ε} (h : Meets r post fault) (hr : r = .error e) :
    fault e := by
  rw [hr] at h
  exact h

end Meets

/-! ## Computations that have returned -/

/-- A computation with a value has returned it: `∃ b, r = .ok b`. -/
theorem exists_ok_of_isSome {r : Except ε β} (h : r.toOption.isSome = true) :
    ∃ b, r = .ok b := by
  cases r with
  | ok b => exact ⟨b, rfl⟩
  | error e => cases h

/-- `r >>= f = .ok c ↔ ∃ b, r = .ok b ∧ f b = .ok c`: one computation after another has returned
just what the second one makes of what the first one has returned. -/
theorem bind_eq_ok {r : Except ε β} {f : β → Except ε γ} {c : γ} :
    r >>= f = .ok c ↔ ∃ b, r = .ok b ∧ f b = .ok c := by
  cases r with
  | ok b =>
    constructor
    · intro h
      exact ⟨b, rfl, h⟩
    · rintro ⟨b', hb, hc⟩
      rw [Except.ok.inj hb]
      exact hc
  | error e =>
    constructor
    · intro h
      cases h
    · rintro ⟨b, hb, -⟩
      cases hb

/-- `r.map f = .ok c ↔ ∃ b, r = .ok b ∧ f b = c`: a changed value has been returned just when a
value was that is changed to it. -/
theorem map_eq_ok {r : Except ε β} {f : β → γ} {c : γ} :
    r.map f = .ok c ↔ ∃ b, r = .ok b ∧ f b = c := by
  cases r with
  | ok b =>
    constructor
    · intro h
      exact ⟨b, rfl, Except.ok.inj h⟩
    · rintro ⟨b', hb, rfl⟩
      rw [Except.ok.inj hb]
      rfl
  | error e =>
    constructor
    · intro h
      cases h
    · rintro ⟨b, hb, -⟩
      cases hb

end PanelQuery
