import PanelQuery.Formula.Machine
import PanelQuery.Proofs.Agree

/-! # Two runs of one program

A program runs in two contexts. As long as everything it loads agrees in both, the runs go in
lockstep: the same operations, the same stacks, the same number in the end.

* **`Context.LoadsAgree`** — two contexts in which all loads of a program agree;
* **`Op.step_agree`** — one operation;
* **`Program.evaluate_agree`** — the whole program. -/

namespace PanelQuery.Formula

variable {p : Program} {rel : EvalError → EvalError → Prop} {ctx ctx' : Context}

/-- Two contexts in which all loads of a program agree. -/
structure Context.LoadsAgree (p : Program) (rel : EvalError → EvalError → Prop)
    (ctx ctx' : Context) : Prop where
  position : .loadPosition ∈ p.ops → ctx.position = ctx'.position
  point : ∀ reference slot spec, .load reference slot ∈ p.ops → p.indices[slot]? = some spec →
    Agree rel (ctx.pointAt reference (spec.point? ctx.overflow ctx.position))
      (ctx'.pointAt reference (spec.point? ctx'.overflow ctx'.position))
  stretch : ∀ reference slot spec, .loadStretch reference slot ∈ p.ops →
    p.indices[slot]? = some spec →
    Agree rel (ctx.cutBetween reference (spec.ends ctx.overflow ctx.position))
      (ctx'.cutBetween reference (spec.ends ctx'.overflow ctx'.position))
  category : ∀ slot spec, .loadCategory slot ∈ p.ops → p.indices[slot]? = some spec →
    Agree rel (ctx.categoryAt (spec.point? ctx.overflow ctx.position))
      (ctx'.categoryAt (spec.point? ctx'.overflow ctx'.position))

/-- `p.indices[slot]? = some spec`: an index that is found is in the table. -/
theorem Program.getElem?_of_index {slot : Nat} {spec : IndexSpec} (h : p.index slot = .ok spec) :
    p.indices[slot]? = some spec := by
  unfold index at h
  split at h
  · rename_i spec' hspec
    rw [hspec, Except.ok.inj h]
  · cases h

/-- **An operation does the same in both contexts.** Only loads look at the context at all:
`Agree rel (op.step p ctx st) (op.step p ctx' st)`. -/
theorem Op.step_agree (hrel : ∀ e, rel e e) (h : Context.LoadsAgree p rel ctx ctx') {op : Op}
    (hop : op ∈ p.ops) (st : Stacks) : Agree rel (op.step p ctx st) (op.step p ctx' st) := by
  cases op with
  | loadPosition =>
    refine Agree.of_eq hrel ?_
    show (st.pushNumber (Float.ofNat ctx.position) >>= _) = _
    rw [h.position hop]
    rfl
  | load reference slot =>
    refine (Agree.refl hrel (p.index slot)).bind fun spec hspec _ => ?_
    refine (h.point reference slot spec hop (Program.getElem?_of_index hspec)).bind fun x _ _ => ?_
    exact Agree.refl hrel _
  | loadStretch reference slot =>
    refine (Agree.refl hrel (p.index slot)).bind fun spec hspec _ => ?_
    refine (h.stretch reference slot spec hop (Program.getElem?_of_index hspec)).bind
      fun c _ _ => ?_
    exact Agree.refl hrel _
  | loadCategory slot =>
    refine (Agree.refl hrel (p.index slot)).bind fun spec hspec _ => ?_
    refine (h.category slot spec hop (Program.getElem?_of_index hspec)).bind fun s _ _ => ?_
    exact Agree.refl hrel _
  | _ => exact Agree.refl hrel _

/-- **Two runs go in lockstep** from any place and any stacks:
`Agree rel (p.run ctx fuel pc st) (p.run ctx' fuel pc st)`. -/
theorem Program.run_agree (hrel : ∀ e, rel e e) (h : Context.LoadsAgree p rel ctx ctx')
    (fuel pc : Nat) (st : Stacks) : Agree rel (p.run ctx fuel pc st) (p.run ctx' fuel pc st) := by
  -- only loads see the data, and they agree; all else is the same step on the same stacks
  induction fuel generalizing pc st with
  | zero =>
    refine Agree.of_eq hrel ?_
    rw [run, run]
  | succ fuel ih =>
    rw [run, run]
    cases hop : p.ops[pc]? with
    | none => exact Agree.refl hrel _
    | some op =>
      refine (Op.step_agree hrel h (List.mem_of_getElem? hop) st).bind ?_
      rintro ⟨st', target⟩ - -
      exact ih (target.getD (pc + 1)) st'

/-- **A program has results that agree** in contexts in which all its loads do:
`Agree rel (p.evaluate ctx) (p.evaluate ctx')`. -/
theorem Program.evaluate_agree (hrel : ∀ e, rel e e) (h : Context.LoadsAgree p rel ctx ctx') :
    Agree rel (p.evaluate ctx) (p.evaluate ctx') :=
  p.run_agree hrel h p.budget 0 {}

end PanelQuery.Formula
