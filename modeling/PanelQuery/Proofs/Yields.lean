import PanelQuery.Proofs.Meets

/-! # Results on a condition

A computation that has a result just when some condition holds is told by that condition and by the
result.

* **`Yields r p b`** — `r = .ok c ↔ p ∧ b = c` for every `c`;
* **`Yields.bind`** — one computation after another, where the conditions add up;
* **`Yields.mapM`, `Yields.foldlM`** — a computation for each element of a list. -/

namespace PanelQuery

variable {ε β γ : Type}

/-- `r` returns `b` when `p` holds, and fails otherwise: `r = .ok c ↔ p ∧ b = c`. -/
def Yields (r : Except ε β) (p : Prop) (b : β) : Prop := ∀ c, r = .ok c ↔ p ∧ b = c

namespace Yields

variable {r : Except ε β} {p q : Prop} {b : β} {c : γ}

/-- `Yields (.ok b) True b`: a value that is there. -/
theorem ok (b : β) : Yields (.ok b : Except ε β) True b := fun c => by simp

/-- `Yields (if p then .ok b else .error e) p b`: a value on a condition. -/
theorem ite [Decidable p] (b : β) (e : ε) :
    Yields (if p then .ok b else .error e : Except ε β) p b := by
  intro c
  by_cases hp : p
  · simp [hp]
  · simp [hp]

/-- There is a result just when the condition holds: `(∃ c, r = .ok c) ↔ p`. -/
theorem exists_iff (h : Yields r p b) : (∃ c, r = .ok c) ↔ p := by simp [h _]

/-- Another way to say the condition: `Yields r q b`. -/
theorem congr (h : Yields r p b) (hiff : p ↔ q) : Yields r q b := fun c => by rw [h c, hiff]

/-- **One computation after another**: `r >>= f` needs both conditions. -/
theorem bind {f : β → Except ε γ} (h : Yields r p b) (hf : Yields (f b) q c) :
    Yields (r >>= f) (p ∧ q) c := by
  intro c'
  rw [bind_eq_ok]
  constructor
  · rintro ⟨b', hr, hc⟩
    obtain ⟨hp, rfl⟩ := (h b').1 hr
    obtain ⟨hq, rfl⟩ := (hf c').1 hc
    exact ⟨⟨hp, hq⟩, rfl⟩
  · rintro ⟨⟨hp, hq⟩, rfl⟩
    exact ⟨b, (h b).2 ⟨hp, rfl⟩, (hf c).2 ⟨hq, rfl⟩⟩

/-- A result that is passed on changed: `r >>= fun b => pure (f b)` needs no other condition. -/
theorem map (h : Yields r p b) (f : β → γ) : Yields (r >>= fun b => pure (f b)) p (f b) :=
  (h.bind (ok (f b))).congr (and_iff_left trivial)

/-- **A computation for each element**: `bs.mapM f` needs the condition on each of them. -/
theorem mapM {f : β → Except ε γ} {p : β → Prop} {g : β → γ}
    (hf : ∀ b, Yields (f b) (p b) (g b)) (bs : List β) :
    Yields (bs.mapM f) (∀ b ∈ bs, p b) (bs.map g) := by
  induction bs with
  | nil => exact (ok []).congr (by simp)
  | cons b bs ih =>
    rw [List.mapM_cons]
    exact ((hf b).bind (ih.map _)).congr List.forall_mem_cons.symm

/-- **A computation for one element after the other** that goes on from a value: `bs.foldlM f c`
needs the condition on each of them. -/
theorem foldlM {f : γ → β → Except ε γ} {p : β → Prop} {g : γ → β → γ}
    (hf : ∀ c b, Yields (f c b) (p b) (g c b)) (c : γ) (bs : List β) :
    Yields (bs.foldlM f c) (∀ b ∈ bs, p b) (bs.foldl g c) := by
  induction bs generalizing c with
  | nil => exact (ok c).congr (by simp)
  | cons b bs ih =>
    rw [List.foldlM_cons]
    exact ((hf c b).bind (ih _)).congr List.forall_mem_cons.symm

end Yields

end PanelQuery
