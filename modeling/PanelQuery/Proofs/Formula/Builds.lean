import PanelQuery.Formula.Application

/-! # Two builds of one machine

Sums in indices overflow in two ways: in one build they are taken modulo `2 ^ 64`, and the other one
stops. The build that stops computes nothing that the other one does not: `Program.evaluate` with
`overflow := .stops` is `.error .indexOverflow`, or it is what it is with `overflow := .wraps`.

* **`StopsOr r r'`** — `r = .error .indexOverflow ∨ r = r'`, which goes through `bind`;
* **`IndexCode.eval_stopsOr`, `Op.step_stopsOr`** — indices and single operations;
* **`Program.evaluate_stopsOr`, `outputs_stopsOr`** — whole programs, and all fields they make;
* **`Panel.outputs_of_not_stopsOn`** — where `Panel.stopsOn` is false, both builds make the same
  fields. -/

namespace PanelQuery.Formula

/-! ## (1) Results that stop -/

section Results

variable {β γ : Type} {r r' : Except EvalError β}

/-- The first result is an overflow, or both are the same: `r = .error .indexOverflow ∨ r = r'`. -/
def StopsOr (r r' : Except EvalError β) : Prop := r = .error .indexOverflow ∨ r = r'

/-- `StopsOr r r`: the same result twice. -/
theorem StopsOr.refl (r : Except EvalError β) : StopsOr r r := .inr rfl

/-- `StopsOr (r >>= f) (r' >>= f')`: what goes on from a result stops when the result does. -/
theorem StopsOr.bind {f f' : β → Except EvalError γ} (h : StopsOr r r')
    (hf : ∀ b, StopsOr (f b) (f' b)) : StopsOr (r >>= f) (r' >>= f') := by
  obtain rfl | rfl := h
  · exact .inl rfl
  · cases r with
    | ok b => exact hf b
    | error e => exact .refl _

/-- `StopsOr (r.map f) (r'.map f)`: the same function of both results. -/
theorem StopsOr.map (h : StopsOr r r') (f : β → γ) : StopsOr (r.map f) (r'.map f) := by
  obtain rfl | rfl := h
  · exact .inl rfl
  · exact .refl _

/-- `StopsOr (bs.foldlM f b) (bs.foldlM f' b)`: one computation after the other. -/
theorem StopsOr.foldlM {f f' : β → γ → Except EvalError β} (hf : ∀ b c, StopsOr (f b c) (f' b c))
    (cs : List γ) (b : β) : StopsOr (cs.foldlM f b) (cs.foldlM f' b) := by
  induction cs generalizing b with
  | nil => exact .refl _
  | cons c cs ih =>
    rw [List.foldlM_cons, List.foldlM_cons]
    exact (hf b c).bind ih

/-- `StopsOr (bs.mapM f) (bs.mapM f')`: a computation for each element. -/
theorem StopsOr.mapM {f f' : β → Except EvalError γ} (hf : ∀ b, StopsOr (f b) (f' b))
    (bs : List β) : StopsOr (bs.mapM f) (bs.mapM f') := by
  induction bs with
  | nil => exact .refl _
  | cons b bs ih =>
    rw [List.mapM_cons, List.mapM_cons]
    exact (hf b).bind fun c => ih.bind fun cs => .refl _

end Results

/-! ## (2) Indices -/

/-- `indexSum .stops n` is an overflow or `indexSum .wraps n`: a sum that has 64 bits is itself in
both builds. -/
theorem indexSum_stopsOr (n : Int) : StopsOr (indexSum .stops n) (indexSum .wraps n) := by
  unfold indexSum Overflow.settle?
  by_cases hword : isWord n
  · rw [if_pos hword, if_pos hword]
    exact .refl _
  · rw [if_neg hword]
    exact .inl rfl

/-- The two positions on top of a stack:
`StopsOr (joinPositions .stops f stack) (joinPositions .wraps f stack)`. -/
theorem joinPositions_stopsOr (f : Int → Int → Int) (stack : List Int) :
    StopsOr (joinPositions .stops f stack) (joinPositions .wraps f stack) := by
  unfold joinPositions
  split
  · exact (indexSum_stopsOr _).bind fun _ => .refl _
  · exact .refl _

/-- One operation on a stack of positions:
`StopsOr (op.step .stops length position stack) (op.step .wraps length position stack)`. -/
theorem IndexOp.step_stopsOr (length position : Nat) (op : IndexOp) (stack : List Int) :
    StopsOr (op.step .stops length position stack) (op.step .wraps length position stack) := by
  cases op with
  | add | sub => exact joinPositions_stopsOr _ stack
  | _ => exact .refl _

/-- **A position** is an overflow, or the same in both builds:
`StopsOr (code.eval .stops length position) (code.eval .wraps length position)`. -/
theorem IndexCode.eval_stopsOr (length position : Nat) (code : IndexCode) :
    StopsOr (code.eval .stops length position) (code.eval .wraps length position) :=
  (StopsOr.foldlM (fun stack op => op.step_stopsOr length position stack) code []).bind
    fun _ => .refl _

namespace IndexSpec

variable (spec : IndexSpec) (position length : Nat)

/-- The one position that a load asks for:
`StopsOr (spec.point? .stops position length) (spec.point? .wraps position length)`. -/
theorem point?_stopsOr :
    StopsOr (spec.point? .stops position length) (spec.point? .wraps position length) := by
  cases spec with
  | point code => exact code.eval_stopsOr length position
  | range low high => exact .refl _

/-- The two ends of the range that a load asks for:
`StopsOr (spec.ends .stops position length) (spec.ends .wraps position length)`. -/
theorem ends_stopsOr :
    StopsOr (spec.ends .stops position length) (spec.ends .wraps position length) := by
  cases spec with
  | point code => exact (code.eval_stopsOr length position).map _
  | range low high =>
    exact (low.eval_stopsOr length position).bind fun _ =>
      (high.eval_stopsOr length position).bind fun _ => .refl _

end IndexSpec

/-! ## (3) Programs -/

variable (p : Program) (ctx : Context)

/-- **One operation**: `StopsOr (op.step p { ctx with overflow := .stops } st) (op.step p { ctx with
overflow := .wraps } st)`. Only loads compute indices. -/
theorem Op.step_stopsOr (op : Op) (st : Stacks) :
    StopsOr (op.step p { ctx with overflow := .stops } st)
      (op.step p { ctx with overflow := .wraps } st) := by
  cases op with
  | load reference slot =>
    refine (StopsOr.refl (p.index slot)).bind fun spec => StopsOr.bind ?_ fun x => .refl _
    exact (StopsOr.refl (ctx.length reference)).bind fun length =>
      (spec.point?_stopsOr ctx.position length).bind fun n => .refl _
  | loadStretch reference slot =>
    refine (StopsOr.refl (p.index slot)).bind fun spec => StopsOr.bind ?_ fun c => .refl _
    exact (StopsOr.refl (ctx.length reference)).bind fun length =>
      (spec.ends_stopsOr ctx.position length).bind fun ends => .refl _
  | loadCategory slot =>
    refine (StopsOr.refl (p.index slot)).bind fun spec => StopsOr.bind ?_ fun s => .refl _
    exact (spec.point?_stopsOr ctx.position ctx.driver.length).bind fun n => .refl _
  | _ => exact .refl _

/-- A run from any place and any stacks: `StopsOr (p.run { ctx with overflow := .stops } fuel pc st)
(p.run { ctx with overflow := .wraps } fuel pc st)`. -/
theorem Program.run_stopsOr (fuel pc : Nat) (st : Stacks) :
    StopsOr (p.run { ctx with overflow := .stops } fuel pc st)
      (p.run { ctx with overflow := .wraps } fuel pc st) := by
  induction fuel generalizing pc st with
  | zero =>
    rw [run, run]
    exact .refl _
  | succ fuel ih =>
    rw [run, run]
    cases p.ops[pc]? with
    | none => exact .refl _
    | some op => exact (op.step_stopsOr p ctx st).bind fun ⟨st, target⟩ => ih _ st

/-- **A program** stops, or computes what it does in the other build: `StopsOr (p.evaluate { ctx
with overflow := .stops }) (p.evaluate { ctx with overflow := .wraps })`. -/
theorem Program.evaluate_stopsOr :
    StopsOr (p.evaluate { ctx with overflow := .stops })
      (p.evaluate { ctx with overflow := .wraps }) :=
  p.run_stopsOr ctx p.budget 0 {}

/-! ## (4) Fields -/

/-- `settle` does not hide an overflow, which is no fault of a position. -/
theorem StopsOr.settle {r r' : Except EvalError Float} (h : StopsOr r r') :
    StopsOr (settle r) (settle r') := by
  obtain rfl | rfl := h
  · exact .inl rfl
  · exact .refl _

/-- The output at given positions: `StopsOr (runAt p { x with overflow := .stops } ledger places)
(runAt p { x with overflow := .wraps } ledger places)`. -/
theorem runAt_stopsOr (x : Inputs) (ledger : Ledger) (places : List (Nat × Instant)) :
    StopsOr (runAt p { x with overflow := .stops } ledger places)
      (runAt p { x with overflow := .wraps } ledger places) := by
  induction places generalizing ledger with
  | nil => exact .refl _
  | cons place places ih =>
    rw [runAt, runAt]
    exact (p.evaluate_stopsOr (x.context place.1 ledger)).settle.bind fun value =>
      (ih (ledger ++ [value])).bind fun later => .refl _

/-- The output over a driver: `StopsOr (runOver p r e fields driver isBroadcast .stops) (runOver p r
e fields driver isBroadcast .wraps)`. -/
theorem runOver_stopsOr (r : Report) (e : Entity Float) (fields : List (Series Float))
    (driver : Series Float) (isBroadcast : Bool) :
    StopsOr (runOver p r e fields driver isBroadcast .stops)
      (runOver p r e fields driver isBroadcast .wraps) :=
  runAt_stopsOr p ⟨_, _, _, _, .wraps⟩ [] _

/-- **All fields that a formula makes** of an entity: both builds make the same, or one stops.
`StopsOr (outputs p r e .stops) (outputs p r e .wraps)`. -/
theorem outputs_stopsOr (r : Report) (e : Entity Float) :
    StopsOr (outputs p r e .stops) (outputs p r e .wraps) := by
  have hmake : ∀ fields, StopsOr (outputs.make p r e .stops fields)
      (outputs.make p r e .wraps fields) := by
    intro fields
    unfold outputs.make
    split
    · exact .mapM (fun s => (runOver_stopsOr p r e fields s true).bind fun ps => .refl _) fields
    · split
      · exact .refl _
      · exact (runOver_stopsOr p r e fields _ false).bind fun ps => .refl _
  -- a field that is missing is missing in both builds
  unfold outputs
  dsimp only
  split
  · split
    · exact .refl _
    · exact hmake _
  · exact hmake _

end PanelQuery.Formula

namespace PanelQuery

open Formula

/-- **Where no index overflows** both builds make the same fields of each entity:
`outputs p (.of p) e .stops = outputs p (.of p) e .wraps`. -/
theorem Panel.outputs_of_not_stopsOn {panel : Panel Float} {p : Program}
    (h : panel.stopsOn p = false) :
    ∀ e ∈ panel.entities, outputs p (.of p) e .stops = outputs p (.of p) e .wraps := by
  intro e he
  refine (outputs_stopsOr p (.of p) e).resolve_left fun hstops => ?_
  have hnone := List.any_eq_false.1 h e he
  rw [hstops] at hnone
  exact hnone rfl

end PanelQuery
