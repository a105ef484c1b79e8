import PanelQuery.Formula.Report
import PanelQuery.Proofs.Formula.Loads

/-! # Heights of stacks

What an operation does to the numbers of entries of the four stacks, whatever the entries are, and
that the machine does just that. A machine whose stacks are as high as an operation asks for can
only fail by the data it reads, or because a stack is full.

* **`Heights`, `Stacks.heights`** — the numbers of entries;
* **`Op.effect`** — the heights after an operation, when it finds its operands;
* **`Op.successors`** — the places an operation may lead to, a condition being true or false;
* **`IndexCode.IsComplete`** — postfix code that leaves exactly one position;
* **`Op.step_meets`** — a step follows `Op.effect` and `Op.successors`. -/

namespace PanelQuery.Formula

/-! ## (1) Heights -/

/-- The numbers of entries of the four stacks. -/
@[ext] structure Heights where
  numbers : Nat
  truths : Nat
  texts : Nat
  cuts : Nat
  deriving DecidableEq, Repr

/-- The heights of empty stacks. -/
def Heights.zero : Heights := ⟨0, 0, 0, 0⟩

/-- Whether one of the stacks has as many entries as it may have. -/
def Heights.Full (h : Heights) : Prop :=
  stackLimit ≤ h.numbers ∨ stackLimit ≤ h.truths ∨ stackLimit ≤ h.texts ∨ stackLimit ≤ h.cuts

instance (h : Heights) : Decidable h.Full := by
  unfold Heights.Full
  infer_instance

/-- The numbers of entries that stacks have. -/
def Stacks.heights (st : Stacks) : Heights :=
  ⟨st.numbers.length, st.truths.length, st.texts.length, st.cuts.length⟩

/-- The heights after an operation; none when the stacks lack one of its operands. -/
def Op.effect : Op → Heights → Option Heights
  | .pushNumber _, ⟨n, b, s, c⟩ | .loadPosition, ⟨n, b, s, c⟩ | .load _ _, ⟨n, b, s, c⟩ =>
      some ⟨n + 1, b, s, c⟩
  | .pushTruth _, ⟨n, b, s, c⟩ => some ⟨n, b + 1, s, c⟩
  | .pushText _, ⟨n, b, s, c⟩ | .loadCategory _, ⟨n, b, s, c⟩ => some ⟨n, b, s + 1, c⟩
  | .loadStretch _ _, ⟨n, b, s, c⟩ => some ⟨n, b, s, c + 1⟩
  | .negate, ⟨n + 1, b, s, c⟩ => some ⟨n + 1, b, s, c⟩
  | .arith _, ⟨n + 2, b, s, c⟩ => some ⟨n + 1, b, s, c⟩
  | .compare _, ⟨n + 2, b, s, c⟩ => some ⟨n, b + 1, s, c⟩
  | .sameText _, ⟨n, b, s + 2, c⟩ => some ⟨n, b + 1, s, c⟩
  | .both, ⟨n, b + 2, s, c⟩ | .either, ⟨n, b + 2, s, c⟩ => some ⟨n, b + 1, s, c⟩
  | .complement, ⟨n, b + 1, s, c⟩ => some ⟨n, b + 1, s, c⟩
  | .toBoolean, ⟨n + 1, b, s, c⟩ => some ⟨n, b + 1, s, c⟩
  | .toNumber, ⟨n, b + 1, s, c⟩ => some ⟨n + 1, b, s, c⟩
  | .fold _, ⟨n, b, s, c + 1⟩ => some ⟨n + 1, b, s, c⟩
  | .pairFold _, ⟨n, b, s, c + 2⟩ => some ⟨n + 1, b, s, c⟩
  | .branch _, ⟨n, b + 1, s, c⟩ => some ⟨n, b, s, c⟩
  | .jump _, h => some h
  | _, _ => none

/-- The place an operation may jump to. -/
def Op.target? : Op → Option Nat
  | .branch target | .jump target => some target
  | _ => none

/-- The places that the operation at `pc` may lead to. -/
def Op.successors (pc : Nat) : Op → List Nat
  | .branch target => [pc + 1, target]
  | .jump target => [target]
  | _ => [pc + 1]

/-- The slot of the text that an operation uses. -/
def Op.textSlot? : Op → Option Nat
  | .pushText slot => some slot
  | _ => none

/-! ## (2) Index codes -/

/-- The number of positions on the stack after an operation of an index. -/
def IndexOp.effect : IndexOp → Nat → Option Nat
  | .add, n | .sub, n => if 2 ≤ n then some (n - 1) else none
  | _, n => some (n + 1)

/-- `IndexCode.height? code before`: the number of positions after index code, given the number
before. -/
def IndexCode.height? (code : IndexCode) (before : Nat) : Option Nat :=
  code.foldlM (fun n op => op.effect n) before

/-- Whether index code is a complete postfix program: every operator finds its operands, and one
position is left. -/
def IndexCode.IsComplete (code : IndexCode) : Prop := code.height? 0 = some 1

instance (code : IndexCode) : Decidable code.IsComplete :=
  inferInstanceAs (Decidable (_ = _))

/-- The codes of an index. -/
def IndexSpec.codes : IndexSpec → List IndexCode
  | .point code => [code]
  | .range low high => [low, high]

/-- `Meets (indexSum o n) (fun _ => True) (· = .indexOverflow)`: a sum or difference, or a stop at
its overflow. -/
theorem indexSum_meets (o : Overflow) (n : Int) :
    Meets (indexSum o n) (fun _ => True) (· = .indexOverflow) := by
  unfold indexSum
  split
  · trivial
  · rfl

/-- An operation of an index that finds its operands leaves as many positions as `IndexOp.effect`
says, unless it stops at an overflow. -/
theorem IndexOp.step_meets {op : IndexOp} {stack : List Int} {m : Nat} (o : Overflow)
    (length position : Nat) (h : op.effect stack.length = some m) :
    Meets (op.step o length position stack) (fun stack' => stack'.length = m)
      (· = .indexOverflow) := by
  cases op with
  | add | sub =>
    match stack with
    | [] | [_] => simp [effect] at h
    | b :: a :: stack => exact (indexSum_meets o _).bind fun n _ => by simpa [effect] using h
  | first | last | current | constant n =>
    rw [step, Meets.ok_iff, List.length_cons]
    exact Option.some.inj h

/-- Index code runs to its end when its operators find their operands, unless one of them stops at
an overflow: `Meets (code.foldlM (fun stack op => op.step o length position stack) stack) (fun
stack' => stack'.length = m) (· = .indexOverflow)`. -/
theorem IndexCode.foldlM_meets {code : IndexCode} {stack : List Int} {m : Nat} (o : Overflow)
    (length position : Nat) (h : code.height? stack.length = some m) :
    Meets (code.foldlM (fun stack op => op.step o length position stack) stack)
      (fun stack' => stack'.length = m) (· = .indexOverflow) := by
  induction code generalizing stack with
  | nil => simpa [height?] using h
  | cons op code ih =>
    rw [height?, List.foldlM_cons] at h
    obtain ⟨n, hn, hrest⟩ := Option.bind_eq_some_iff.1 h
    rw [List.foldlM_cons]
    exact (op.step_meets o length position hn).bind fun next hnext => ih (hnext ▸ hrest)

/-- **A complete index code yields a position**, unless it stops at an overflow:
`Meets (code.eval o length position) (fun _ => True) (· = .indexOverflow)`. -/
theorem IndexCode.IsComplete.eval_meets {code : IndexCode} (h : code.IsComplete) (o : Overflow)
    (length position : Nat) :
    Meets (code.eval o length position) (fun _ => True) (· = .indexOverflow) := by
  have hempty : code.height? ([] : List Int).length = some 1 := h
  refine (foldlM_meets o length position hempty).bind fun stack hlength => ?_
  match stack, hlength with
  | [n], _ => trivial

/-! ## (3) Faults -/

/-- Whether an error is one of the machine itself and not of the data that a formula reads. -/
def EvalError.isMachine : EvalError → Bool
  | .stackUnderflow | .stackOverflow | .missingIndex _ | .unfinished => true
  | _ => false

/-- What a machine whose stacks are high enough may fail with: an error of the data, or a stack
overflow when the stacks are full. -/
def Fault (full : Prop) (e : EvalError) : Prop :=
  e.isMachine = true → e = .stackOverflow ∧ full

/-- An overflow is allowed when the stacks are full: `Fault full .stackOverflow`. -/
theorem Fault.overflow {full : Prop} (h : full) : Fault full .stackOverflow := fun _ => ⟨rfl, h⟩

/-- An error of a load is one of the data: `Fault full e`. -/
theorem Fault.of_load (full : Prop) (e : EvalError) (h : e.isOfLoad = true) : Fault full e := by
  cases e <;> simp_all [EvalError.isOfLoad, Fault, EvalError.isMachine]

/-- An operator on two numbers gives a number or an error of the data:
`Meets (op.apply a b) (fun _ => True) (Fault full)`. -/
theorem ArithOp.apply_meets (op : ArithOp) (a b : Float) (full : Prop) :
    Meets (op.apply a b) (fun _ => True) (Fault full) := by
  cases op with
  | add | sub | mul | pow => trivial
  | div | mod =>
    unfold apply
    dsimp only
    split <;> simp [Fault, EvalError.isMachine]

/-- A figure, or an error of the data: `Meets (figure name x) (fun _ => True) (Fault full)`. -/
theorem figure_meets (name : String) (x : Option Float) (full : Prop) :
    Meets (figure name x) (fun _ => True) (Fault full) := by
  cases x <;> simp [figure, Fault, EvalError.isMachine]

/-- A function of one stretch gives a number or an error of the data:
`Meets (f.apply a) (fun _ => True) (Fault full)`. -/
theorem Fold.apply_meets (f : Fold) (a : Cut) (full : Prop) :
    Meets (f.apply a) (fun _ => True) (Fault full) := by
  cases f <;> first | trivial | exact figure_meets _ _ full

/-- A function of two stretches gives a number or an error of the data:
`Meets (f.apply a b) (fun _ => True) (Fault full)`. -/
theorem PairFold.apply_meets (f : PairFold) (a b : Cut) (full : Prop) :
    Meets (f.apply a b) (fun _ => True) (Fault full) := by
  cases f <;> exact figure_meets _ _ full

/-- A stop at an overflow is an error of the data: `Fault full e`. -/
theorem Fault.of_indexOverflow (full : Prop) {e : EvalError} (h : e = .indexOverflow) :
    Fault full e := by
  subst h
  simp [Fault, EvalError.isMachine]

/-- The position of a point index whose code is complete, or an error of the data:
`Meets (spec.point? o position length) (fun _ => True) (Fault full)`. -/
theorem IndexSpec.point?_meets {spec : IndexSpec} (h : ∀ code ∈ spec.codes, code.IsComplete)
    (o : Overflow) (position length : Nat) (full : Prop) :
    Meets (spec.point? o position length) (fun _ => True) (Fault full) := by
  cases spec with
  | point code =>
    exact ((h code (by simp [codes])).eval_meets o length position).mono (fun _ _ => trivial)
      fun _ he => .of_indexOverflow full he
  | range low high => simp [point?, Fault, EvalError.isMachine]

/-- The ends of an index whose codes are complete:
`Meets (spec.ends o position length) (fun _ => True) (Fault full)`. -/
theorem IndexSpec.ends_meets {spec : IndexSpec} (h : ∀ code ∈ spec.codes, code.IsComplete)
    (o : Overflow) (position length : Nat) (full : Prop) :
    Meets (spec.ends o position length) (fun _ => True) (Fault full) := by
  have heval : ∀ code ∈ spec.codes, Meets (code.eval o length position) (fun _ => True)
      (Fault full) := fun code hcode =>
    ((h code hcode).eval_meets o length position).mono (fun _ _ => trivial)
      fun _ he => .of_indexOverflow full he
  cases spec with
  | point code => exact (heval code (by simp [codes])).map fun _ _ => trivial
  | range low high =>
    refine (heval low (by simp [codes])).bind fun _ _ => ?_
    exact (heval high (by simp [codes])).bind fun _ _ => trivial

/-! ## (4) Stacks -/

section Stacks

variable {st : Stacks} {n b s c : Nat} {full : Prop}

/-- `Meets (push x stack) (fun out => out = x :: stack) (Fault full)`: a pushed entry is on top of
the stack, unless the stack is full. -/
theorem push_meets {β : Type} (x : β) (stack : List β) (h : stackLimit ≤ stack.length → full) :
    Meets (push x stack) (fun out => out = x :: stack) (Fault full) := by
  unfold push
  split
  · exact Fault.overflow (h ‹_›)
  · rfl

/-- `Meets (st.pushNumber x) (fun out => out.heights = ⟨n + 1, b, s, c⟩) (Fault full)`: a number
more. -/
theorem Stacks.pushNumber_meets (x : Float) (h : st.heights = ⟨n, b, s, c⟩)
    (hfull : stackLimit ≤ n → full) :
    Meets (st.pushNumber x) (fun out => out.heights = ⟨n + 1, b, s, c⟩) (Fault full) := by
  cases h
  exact (push_meets x st.numbers hfull).map fun out hout => by subst hout; rfl

/-- `Meets (st.pushTruth x) (fun out => out.heights = ⟨n, b + 1, s, c⟩) (Fault full)`: a truth value
more. -/
theorem Stacks.pushTruth_meets (x : Bool) (h : st.heights = ⟨n, b, s, c⟩)
    (hfull : stackLimit ≤ b → full) :
    Meets (st.pushTruth x) (fun out => out.heights = ⟨n, b + 1, s, c⟩) (Fault full) := by
  cases h
  exact (push_meets x st.truths hfull).map fun out hout => by subst hout; rfl

/-- `Meets (st.pushText x) (fun out => out.heights = ⟨n, b, s + 1, c⟩) (Fault full)`: a text
more. -/
theorem Stacks.pushText_meets (x : String) (h : st.heights = ⟨n, b, s, c⟩)
    (hfull : stackLimit ≤ s → full) :
    Meets (st.pushText x) (fun out => out.heights = ⟨n, b, s + 1, c⟩) (Fault full) := by
  cases h
  exact (push_meets x st.texts hfull).map fun out hout => by subst hout; rfl

/-- `Meets (st.pushCut x) (fun out => out.heights = ⟨n, b, s, c + 1⟩) (Fault full)`: a stretch
more. -/
theorem Stacks.pushCut_meets (x : Cut) (h : st.heights = ⟨n, b, s, c⟩)
    (hfull : stackLimit ≤ c → full) :
    Meets (st.pushCut x) (fun out => out.heights = ⟨n, b, s, c + 1⟩) (Fault full) := by
  cases h
  exact (push_meets x st.cuts hfull).map fun out hout => by subst hout; rfl

/-- `Meets (pop stack) (fun out => out.2.length = m) (Fault full)`: a stack with an entry can be
popped. -/
theorem pop_meets {β : Type} {stack : List β} {m : Nat} (h : stack.length = m + 1) :
    Meets (pop stack) (fun out => out.2.length = m) (Fault full) := by
  cases stack with
  | nil => simp at h
  | cons x stack => exact Nat.succ.inj h

/-- `Meets st.popNumber (fun out => out.2.heights = ⟨n, b, s, c⟩) (Fault full)`: a number less. -/
theorem Stacks.popNumber_meets (h : st.heights = ⟨n + 1, b, s, c⟩) :
    Meets st.popNumber (fun out => out.2.heights = ⟨n, b, s, c⟩) (Fault full) := by
  simp only [heights, Heights.mk.injEq] at h
  exact (pop_meets h.1).map fun out hout => by simp [heights, hout, h]

/-- `Meets st.popTruth (fun out => out.2.heights = ⟨n, b, s, c⟩) (Fault full)`: a truth value
less. -/
theorem Stacks.popTruth_meets (h : st.heights = ⟨n, b + 1, s, c⟩) :
    Meets st.popTruth (fun out => out.2.heights = ⟨n, b, s, c⟩) (Fault full) := by
  simp only [heights, Heights.mk.injEq] at h
  exact (pop_meets h.2.1).map fun out hout => by simp [heights, hout, h]

/-- `Meets st.popText (fun out => out.2.heights = ⟨n, b, s, c⟩) (Fault full)`: a text less. -/
theorem Stacks.popText_meets (h : st.heights = ⟨n, b, s + 1, c⟩) :
    Meets st.popText (fun out => out.2.heights = ⟨n, b, s, c⟩) (Fault full) := by
  simp only [heights, Heights.mk.injEq] at h
  exact (pop_meets h.2.2.1).map fun out hout => by simp [heights, hout, h]

/-- `Meets st.popCut (fun out => out.2.heights = ⟨n, b, s, c⟩) (Fault full)`: a stretch less. -/
theorem Stacks.popCut_meets (h : st.heights = ⟨n, b, s, c + 1⟩) :
    Meets st.popCut (fun out => out.2.heights = ⟨n, b, s, c⟩) (Fault full) := by
  simp only [heights, Heights.mk.injEq] at h
  exact (pop_meets h.2.2.2).map fun out hout => by simp [heights, hout, h]

end Stacks

/-! ## (5) Steps -/

/-- `Op.HasIndex p op`: whether an operation that loads has a complete index in the table of a
program. -/
def Op.HasIndex (p : Program) (op : Op) : Prop :=
  ∀ slot, op.slot? = some slot →
    ∃ spec, p.indices[slot]? = some spec ∧ ∀ code ∈ spec.codes, code.IsComplete

/-- `p.index slot = .ok spec`: the index of a load that has one. -/
theorem Program.index_eq_ok {p : Program} {slot : Nat} {spec : IndexSpec}
    (h : p.indices[slot]? = some spec) : p.index slot = .ok spec := by
  rw [index, h]

/-- An operation that ends with a push leads to the next place: `Meets (m >>= fun out => pure (out,
(none : Option Nat))) (fun r => r.1.heights = h' ∧ r.2.getD (pc + 1) ∈ [pc + 1]) (Fault full)`. -/
theorem proceed_meets {m : Except EvalError Stacks} {h' : Heights} {full : Prop} (pc : Nat)
    (h : Meets m (fun out => out.heights = h') (Fault full)) :
    Meets (m >>= fun out => pure (out, (none : Option Nat)))
      (fun r => r.1.heights = h' ∧ r.2.getD (pc + 1) ∈ [pc + 1]) (Fault full) :=
  h.bind fun _ hout => ⟨hout, List.mem_singleton_self _⟩

/-- **A step follows the heights**: `Meets (op.step p ctx st) (fun r => r.1.heights = h' ∧ r.2.getD
(pc + 1) ∈ op.successors pc) (Fault h.Full)`. On stacks that are as high as an operation asks for,
it leaves the heights of its effect and leads to one of its successors, or fails by the data, or
because a stack was full. -/
theorem Op.step_meets {p : Program} {op : Op} {st : Stacks} {h h' : Heights} (ctx : Context)
    (pc : Nat) (hst : st.heights = h) (heffect : op.effect h = some h') (hindex : op.HasIndex p) :
    Meets (op.step p ctx st)
      (fun r => r.1.heights = h' ∧ r.2.getD (pc + 1) ∈ op.successors pc) (Fault h.Full) := by
  obtain ⟨n, b, s, c⟩ := h
  cases op with
  | pushNumber x =>
    cases heffect
    exact proceed_meets pc (Stacks.pushNumber_meets x hst fun hn => .inl hn)
  | pushTruth x =>
    cases heffect
    exact proceed_meets pc (Stacks.pushTruth_meets x hst fun hb => .inr (.inl hb))
  | pushText slot =>
    cases heffect
    exact proceed_meets pc (Stacks.pushText_meets _ hst fun hs => .inr (.inr (.inl hs)))
  | loadPosition =>
    cases heffect
    exact proceed_meets pc (Stacks.pushNumber_meets _ hst fun hn => .inl hn)
  | load reference slot =>
    cases heffect
    obtain ⟨spec, hspec, hcodes⟩ := hindex slot rfl
    simp only [step, Program.index_eq_ok hspec]
    refine (ctx.pointAt_meets reference (Fault.of_load _) fun length =>
      spec.point?_meets hcodes ctx.overflow ctx.position length _).bind fun x _ => ?_
    exact proceed_meets pc (Stacks.pushNumber_meets x hst fun hn => .inl hn)
  | loadStretch reference slot =>
    cases heffect
    obtain ⟨spec, hspec, hcodes⟩ := hindex slot rfl
    simp only [step, Program.index_eq_ok hspec]
    refine (ctx.cutBetween_meets reference (Fault.of_load _) fun length =>
      spec.ends_meets hcodes ctx.overflow ctx.position length _).bind fun x _ => ?_
    exact proceed_meets pc (Stacks.pushCut_meets x hst fun hc => .inr (.inr (.inr hc)))
  | loadCategory slot =>
    cases heffect
    obtain ⟨spec, hspec, hcodes⟩ := hindex slot rfl
    simp only [step, Program.index_eq_ok hspec]
    refine (ctx.categoryAt_meets (Fault.of_load _) fun length =>
      spec.point?_meets hcodes ctx.overflow ctx.position length _).bind fun x _ => ?_
    exact proceed_meets pc (Stacks.pushText_meets x hst fun hs => .inr (.inr (.inl hs)))
  | negate =>
    match n, heffect with
    | n + 1, rfl =>
      refine (Stacks.popNumber_meets hst).bind fun r hr => ?_
      exact proceed_meets pc (Stacks.pushNumber_meets _ hr fun hn =>
        .inl (Nat.le_add_right_of_le hn))
  | arith op =>
    match n, heffect with
    | n + 2, rfl =>
      refine (Stacks.popNumber_meets hst).bind fun r hr => ?_
      refine (Stacks.popNumber_meets hr).bind fun r' hr' => ?_
      refine (op.apply_meets r'.1 r.1 _).bind fun x _ => ?_
      exact proceed_meets pc (Stacks.pushNumber_meets x hr' fun hn =>
        .inl (Nat.le_add_right_of_le hn))
  | compare op =>
    match n, heffect with
    | n + 2, rfl =>
      refine (Stacks.popNumber_meets hst).bind fun r hr => ?_
      refine (Stacks.popNumber_meets hr).bind fun r' hr' => ?_
      exact proceed_meets pc (Stacks.pushTruth_meets _ hr' fun hb => .inr (.inl hb))
  | sameText equal =>
    match s, heffect with
    | s + 2, rfl =>
      refine (Stacks.popText_meets hst).bind fun r hr => ?_
      refine (Stacks.popText_meets hr).bind fun r' hr' => ?_
      exact proceed_meets pc (Stacks.pushTruth_meets _ hr' fun hb => .inr (.inl hb))
  | both | either =>
    match b, heffect with
    | b + 2, rfl =>
      refine (Stacks.popTruth_meets hst).bind fun r hr => ?_
      refine (Stacks.popTruth_meets hr).bind fun r' hr' => ?_
      exact proceed_meets pc (Stacks.pushTruth_meets _ hr' fun hb =>
        .inr (.inl (Nat.le_add_right_of_le hb)))
  | complement =>
    match b, heffect with
    | b + 1, rfl =>
      refine (Stacks.popTruth_meets hst).bind fun r hr => ?_
      exact proceed_meets pc (Stacks.pushTruth_meets _ hr fun hb =>
        .inr (.inl (Nat.le_add_right_of_le hb)))
  | toBoolean =>
    match n, heffect with
    | n + 1, rfl =>
      refine (Stacks.popNumber_meets hst).bind fun r hr => ?_
      exact proceed_meets pc (Stacks.pushTruth_meets _ hr fun hb => .inr (.inl hb))
  | toNumber =>
    match b, heffect with
    | b + 1, rfl =>
      refine (Stacks.popTruth_meets hst).bind fun r hr => ?_
      exact proceed_meets pc (Stacks.pushNumber_meets _ hr fun hn => .inl hn)
  | fold f =>
    match c, heffect with
    | c + 1, rfl =>
      refine (Stacks.popCut_meets hst).bind fun r hr => ?_
      refine (f.apply_meets r.1 _).bind fun x _ => ?_
      exact proceed_meets pc (Stacks.pushNumber_meets x hr fun hn => .inl hn)
  | pairFold f =>
    match c, heffect with
    | c + 2, rfl =>
      refine (Stacks.popCut_meets hst).bind fun r hr => ?_
      refine (Stacks.popCut_meets hr).bind fun r' hr' => ?_
      refine (f.apply_meets r'.1 r.1 _).bind fun x _ => ?_
      exact proceed_meets pc (Stacks.pushNumber_meets x hr' fun hn => .inl hn)
  | branch target =>
    match b, heffect with
    | b + 1, rfl =>
      refine (Stacks.popTruth_meets hst).bind fun r hr => ⟨hr, ?_⟩
      cases r.1 <;> simp [successors]
  | jump target =>
    cases heffect
    exact ⟨hst, by simp [successors]⟩

end PanelQuery.Formula
