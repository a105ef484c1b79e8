import PanelQuery.Formula.Evaluation
import PanelQuery.Proofs.Formula.Emission

/-! # Programs compute what expressions mean

The machine does what direct evaluation does, unless a stack overflows. The code of an expression,
wherever it is placed in a program, comes to the same as evaluating the expression and going on
after the code with its value on the stack of its type.

* **`Agrees`** — the same result, or a stack overflow of the machine;
* **`Program.Holds`** — code that is placed in a program, with its tables;
* **`Code.Computes`** — code that computes a value and goes on;
* **`Expr.emit_computes`** — the code of an expression computes its value;
* **`Program.evaluate_ofExpr`** — the program of an expression yields its value. -/

namespace PanelQuery.Formula

/-! ## (1) Agreement -/

/-- `Agrees machine direct`: the result of the machine is the direct one, or a stack overflow. -/
def Agrees {β : Type} (machine direct : Except EvalError β) : Prop :=
  machine = direct ∨ machine = .error .stackOverflow

namespace Agrees

variable {β γ : Type} {x y z : Except EvalError β}

/-- A result agrees with itself: `Agrees x x`. -/
theorem refl (x : Except EvalError β) : Agrees x x := .inl rfl

/-- Agreement is transitive: `Agrees x z`. -/
theorem trans (h : Agrees x y) (h' : Agrees y z) : Agrees x z := by
  rcases h with rfl | rfl
  · exact h'
  · exact .inr rfl

/-- Results that agree, and computations after them that agree: `Agrees (x >>= f) (y >>= g)`. -/
theorem bind {f g : β → Except EvalError γ} (h : Agrees x y) (hf : ∀ b, Agrees (f b) (g b)) :
    Agrees (x >>= f) (y >>= g) := by
  rcases h with rfl | rfl
  · cases x with
    | error e => exact .refl _
    | ok b => exact hf b
  · exact .inr rfl

/-- The same computation, and after it computations that agree: `Agrees (x >>= f) (x >>= g)`. -/
theorem bind_right (x : Except EvalError β) {f g : β → Except EvalError γ}
    (hf : ∀ b, Agrees (f b) (g b)) : Agrees (x >>= f) (x >>= g) :=
  (Agrees.refl x).bind hf

end Agrees

/-! ## (2) Stacks -/

namespace Stacks

/-- The stacks with a value on the stack of its type, however high it is. -/
def add : {τ : Ty} → τ.Value → Stacks → Stacks
  | .number, x, st => { st with numbers := x :: st.numbers }
  | .boolean, b, st => { st with truths := b :: st.truths }
  | .text, s, st => { st with texts := s :: st.texts }

/-- `addCut c st`: the stacks with one more stretch, however many there are. -/
def addCut (c : Cut) (st : Stacks) : Stacks := { st with cuts := c :: st.cuts }

variable (st : Stacks)

/-- A push adds an entry, or overflows: `Agrees (push x stack) (.ok (x :: stack))`. -/
theorem push_agrees {β : Type} (x : β) (stack : List β) :
    Agrees (push x stack) (.ok (x :: stack)) := by
  unfold push
  split
  · exact .inr rfl
  · exact .refl _

/-- A push of a number adds it, or overflows:
`Agrees (st.pushNumber x) (.ok (add (τ := .number) x st))`. -/
theorem pushNumber_agrees (x : Float) : Agrees (st.pushNumber x) (.ok (add (τ := .number) x st)) :=
  (push_agrees x st.numbers).bind fun _ => .refl _

/-- A push of a truth value adds it, or overflows:
`Agrees (st.pushTruth b) (.ok (add (τ := .boolean) b st))`. -/
theorem pushTruth_agrees (b : Bool) : Agrees (st.pushTruth b) (.ok (add (τ := .boolean) b st)) :=
  (push_agrees b st.truths).bind fun _ => .refl _

/-- A push of a text adds it, or overflows:
`Agrees (st.pushText s) (.ok (add (τ := .text) s st))`. -/
theorem pushText_agrees (s : String) : Agrees (st.pushText s) (.ok (add (τ := .text) s st)) :=
  (push_agrees s st.texts).bind fun _ => .refl _

/-- A push of a stretch adds it, or overflows: `Agrees (st.pushCut c) (.ok (addCut c st))`. -/
theorem pushCut_agrees (c : Cut) : Agrees (st.pushCut c) (.ok (addCut c st)) :=
  (push_agrees c st.cuts).bind fun _ => .refl _

end Stacks

/-! ## (3) Positions -/

/-- The code of a position adds it to the stack of positions, or stops where the position does:
`b.code.foldlM (fun stack op => IndexOp.step o length position op stack) stack` is
`(b.eval o position length).map (· :: stack)`. -/
theorem Bound.foldlM_code (b : Bound) (o : Overflow) (length position : Nat) (stack : List Int) :
    b.code.foldlM (fun stack op => IndexOp.step o length position op stack) stack =
      (b.eval o position length).map (· :: stack) := by
  induction b generalizing stack with
  | first | last | current | constant => rfl
  | add a b iha ihb | sub a b iha ihb =>
    rw [code, List.foldlM_append, List.foldlM_append, iha, eval]
    cases a.eval o position length with
    | error e => rfl
    | ok x =>
      change ((b.code.foldlM _ _) >>= _) = _
      rw [ihb]
      cases b.eval o position length with
      | error e => rfl
      | ok y =>
        -- the operator finds both operands
        change ((indexSum o _ >>= _) >>= pure) = (indexSum o _).map _
        cases indexSum o _ <;> rfl

/-- `IndexCode.eval o length position b.code = b.eval o position length`: the code of a position
yields it. -/
theorem Bound.eval_code (b : Bound) (o : Overflow) (length position : Nat) :
    IndexCode.eval o length position b.code = b.eval o position length := by
  rw [IndexCode.eval, b.foldlM_code]
  cases b.eval o position length <;> rfl

/-- `(IndexSpec.point b.code).point? o position = b.eval o position`: a load with the code of a
position asks for that position. -/
theorem Bound.point?_code (b : Bound) (o : Overflow) (position : Nat) :
    (IndexSpec.point b.code).point? o position = b.eval o position :=
  funext fun length => b.eval_code o length position

/-- `i.spec.ends o position = fun length => i.ends o position length`: a load with the codes of an
index asks for its ends. -/
theorem Index.ends_spec (i : Index) (o : Overflow) (position : Nat) :
    i.spec.ends o position = fun length => i.ends o position length := by
  funext length
  cases i with
  | point b => rw [spec, IndexSpec.ends, b.eval_code, ends]
  | range low high => rw [spec, IndexSpec.ends, low.eval_code, high.eval_code, ends]

/-! ## (4) Code in a program -/

/-- Code that is placed in a program from `start` on, its tables being part of those of the
program. -/
structure Program.Holds (p : Program) (start : Nat) (placed : List Op × Tables) : Prop where
  /-- The operations stand there. -/
  ops : ∀ i op, placed.1[i]? = some op → p.ops[start + i]? = some op
  /-- The tables have been extended to those of the program. -/
  tables : Tables.Extends ⟨p.indices, p.texts⟩ placed.2

namespace Program.Holds

variable {p : Program} {start : Nat} {first second : List Op} {t t' : Tables}

/-- The first of two pieces of code: `p.Holds start (first, t)`. -/
theorem left (h : p.Holds start (first ++ second, t')) (ht : t'.Extends t) :
    p.Holds start (first, t) where
  ops i op hop := h.ops i op (by
    rw [List.getElem?_append_left (List.getElem?_eq_some_iff.1 hop).1]
    exact hop)
  tables := h.tables.trans ht

/-- The second of two pieces of code: `p.Holds (start + first.length) (second, t')`. -/
theorem right (h : p.Holds start (first ++ second, t')) :
    p.Holds (start + first.length) (second, t') where
  ops i op hop := by
    rw [Nat.add_assoc]
    refine h.ops _ op ?_
    rw [List.getElem?_append_right (Nat.le_add_right _ _), Nat.add_sub_cancel_left]
    exact hop
  tables := h.tables

/-- `p.ops[start]? = some op`: the first operation. -/
theorem head {op : Op} (h : p.Holds start (op :: second, t')) : p.ops[start]? = some op :=
  h.ops 0 op rfl

/-- The operations after the first: `p.Holds (start + 1) (second, t')`. -/
theorem tail {op : Op} (h : p.Holds start (op :: second, t')) :
    p.Holds (start + 1) (second, t') := by
  have hcons : p.Holds start ([op] ++ second, t') := h
  exact hcons.right

end Program.Holds

/-- `p.index slot = .ok spec`: an index at a slot of tables that have been extended. -/
theorem Tables.Extends.index_eq {p : Program} {t : Tables} {slot : Nat} {spec : IndexSpec}
    (h : Tables.Extends ⟨p.indices, p.texts⟩ t) (hslot : t.indices[slot]? = some spec) :
    p.index slot = .ok spec := by
  obtain ⟨more, hmore⟩ := h.indices
  have hlt := (List.getElem?_eq_some_iff.1 hslot).1
  refine Program.index_eq_ok ?_
  rw [show p.indices = t.indices ++ more from hmore.symm, List.getElem?_append_left hlt, hslot]

/-- `p.texts[slot]? = some s`: a text at a slot of tables that have been extended. -/
theorem Tables.Extends.text_eq {p : Program} {t : Tables} {slot : Nat} {s : String}
    (h : Tables.Extends ⟨p.indices, p.texts⟩ t) (hslot : t.texts[slot]? = some s) :
    p.texts[slot]? = some s := by
  obtain ⟨more, hmore⟩ := h.texts
  have hlt := (List.getElem?_eq_some_iff.1 hslot).1
  rw [show p.texts = t.texts ++ more from hmore.symm, List.getElem?_append_left hlt, hslot]

/-! ## (5) Code that computes a value -/

/-- **Code that computes a value**: wherever a program has the code, running from its first place
agrees with the computation of the value and, after it, running from the place after the code with
the value added to the stacks. -/
def Code.Computes {β : Type} (ctx : Context) (code : Code) (value : Except EvalError β)
    (add : β → Stacks → Stacks) : Prop :=
  ∀ (p : Program) (start : Nat) (t : Tables) (st : Stacks), p.Forward →
    p.Holds start (code start t) →
    Agrees (p.exec ctx start st)
      (value >>= fun v => p.exec ctx (start + (code start t).1.length) (add v st))

namespace Code.Computes

variable {β γ δ : Type} {ctx : Context} {a b : Code} {va : Except EvalError β}
  {vb : Except EvalError γ} {adda : β → Stacks → Stacks} {addb : γ → Stacks → Stacks}
  {add : δ → Stacks → Stacks}

/-- An operation that does not jump, and the run after it:
`Agrees (p.exec ctx pc st) (v >>= fun x => p.exec ctx (pc + 1) (after x))`. -/
theorem step_agrees {p : Program} {pc : Nat} {o : Op} {st : Stacks} {v : Except EvalError δ}
    {after : δ → Stacks} (hp : p.Forward) (hop : p.ops[pc]? = some o)
    (hstep : Agrees (o.step p ctx st) (v >>= fun x => .ok (after x, none))) :
    Agrees (p.exec ctx pc st) (v >>= fun x => p.exec ctx (pc + 1) (after x)) := by
  rw [hp.exec_of_some hop]
  refine (hstep.bind fun r => .refl (p.exec ctx (r.2.getD (pc + 1)) r.1)).trans ?_
  rw [bind_assoc]
  exact .refl _

/-- A single operation: `(Code.op o).Computes ctx v add`. -/
theorem op {o : Op} {v : Except EvalError δ}
    (hstep : ∀ p st, Agrees (o.step p ctx st) (v >>= fun x => .ok (add x st, none))) :
    (Code.op o).Computes ctx v add :=
  fun p _ _ st hp hplaced => step_agrees hp hplaced.head (hstep p st)

/-- A load of an index: `(Code.load spec o).Computes ctx v add`. -/
theorem load {spec : IndexSpec} {o : Nat → Op} {v : Except EvalError δ}
    (hstep : ∀ (p : Program) slot st, p.index slot = .ok spec →
      Agrees ((o slot).step p ctx st) (v >>= fun x => .ok (add x st, none))) :
    (Code.load spec o).Computes ctx v add :=
  fun p _ t st hp hplaced => step_agrees hp hplaced.head
    (hstep p _ st (hplaced.tables.index_eq (t.addIndex_getElem? spec)))

/-- A text: `(Code.text s).Computes ctx (.ok s) (Stacks.add (τ := .text))`. -/
theorem text (s : String) : (Code.text s).Computes ctx (.ok s) (Stacks.add (τ := .text)) := by
  intro p start t st hp hplaced
  refine step_agrees hp hplaced.head ?_
  change Agrees (st.pushText (p.texts[(t.addText s).1]?.getD "") >>= _) _
  rw [hplaced.tables.text_eq (t.addText_getElem? s)]
  exact (st.pushText_agrees s).bind fun _ => .refl _

/-- The load of a stretch: `(Code.stretch a).Computes ctx (a.eval ctx) Stacks.addCut`. -/
theorem stretch (a : Stretch) : (Code.stretch a).Computes ctx (a.eval ctx) Stacks.addCut := by
  refine load fun p slot st hslot => ?_
  simp only [Op.step, hslot]
  change Agrees (ctx.cutBetween a.reference (a.index.spec.ends ctx.overflow ctx.position) >>= _) _
  rw [Index.ends_spec]
  refine Agrees.bind_right _ fun c => ?_
  exact (st.pushCut_agrees c).bind fun _ => .refl _

/-- An operation on one operand: `(a ++ Code.op o).Computes ctx (va >>= g) add`. -/
theorem unary {o : Op} {g : β → Except EvalError δ} (ha : a.Computes ctx va adda)
    (hstep : ∀ p st v, Agrees (o.step p ctx (adda v st)) (g v >>= fun x => .ok (add x st, none))) :
    (a ++ Code.op o).Computes ctx (va >>= g) add := by
  intro p start t st hp hplaced
  refine (ha p start t st hp (hplaced.left (.refl _))).trans ?_
  rw [bind_assoc]
  refine Agrees.bind_right _ fun v => ?_
  refine (step_agrees hp hplaced.right.head (hstep p st v)).trans ?_
  refine Agrees.bind_right _ fun x => ?_
  change Agrees _ (p.exec ctx (start + ((a start t).1 ++ [o]).length) _)
  rw [List.length_append, ← Nat.add_assoc]
  exact .refl _

/-- **An operation on two operands**, of which the left one is computed first:
`(a ++ b ++ Code.op o).Computes ctx (va >>= fun v => vb >>= fun w => g v w) add`. -/
theorem binary {o : Op} {g : β → γ → Except EvalError δ} (ha : a.Computes ctx va adda)
    (hb : b.Computes ctx vb addb) (hgrows : ∀ start t, (b start t).2.Extends t)
    (hstep : ∀ p st v w, Agrees (o.step p ctx (addb w (adda v st)))
      (g v w >>= fun x => .ok (add x st, none))) :
    (a ++ b ++ Code.op o).Computes ctx (va >>= fun v => vb >>= fun w => g v w) add := by
  intro p start t st hp hplaced
  have hoperands := hplaced.left (.refl _)
  refine (ha p start t st hp (hoperands.left (hgrows _ _))).trans ?_
  rw [bind_assoc]
  refine Agrees.bind_right _ fun v => ?_
  refine (hb p _ _ _ hp hoperands.right).trans ?_
  rw [bind_assoc]
  refine Agrees.bind_right _ fun w => ?_
  have hop := hplaced.right.head
  change p.ops[start + ((a start t).1 ++ (b _ (a start t).2).1).length]? = some o at hop
  rw [List.length_append, ← Nat.add_assoc] at hop
  refine (step_agrees hp hop (hstep p st v w)).trans ?_
  refine Agrees.bind_right _ fun x => ?_
  change Agrees _ (p.exec ctx (start + (((a start t).1 ++ (b _ (a start t).2).1) ++ [o]).length) _)
  rw [List.length_append, List.length_append, ← Nat.add_assoc, ← Nat.add_assoc]
  exact .refl _

/-- **A conditional**: the condition is computed first, and then the one branch that it chooses.
`(Code.choose test yes no).Computes ctx (condition >>= fun chosen => if chosen then vyes else vno)
add`. -/
theorem choose {test yes no : Code} {condition : Except EvalError Bool}
    {vyes vno : Except EvalError δ}
    (htest : test.Computes ctx condition (Stacks.add (τ := .boolean)))
    (hyes : yes.Computes ctx vyes add) (hno : no.Computes ctx vno add)
    (hyesGrows : ∀ start t, (yes start t).2.Extends t)
    (hnoGrows : ∀ start t, (no start t).2.Extends t) :
    (Code.choose test yes no).Computes ctx
      (condition >>= fun chosen => if chosen then vyes else vno) add := by
  intro p start t st hp hplaced
  unfold Code.choose at hplaced ⊢
  simp only [List.append_assoc, List.cons_append] at hplaced ⊢
  refine (htest p start t st hp (hplaced.left ((hnoGrows _ _).trans (hyesGrows _ _)))).trans ?_
  rw [bind_assoc]
  refine Agrees.bind_right _ fun chosen => ?_
  -- the pieces stand in the program one after the other
  generalize test start t = c₁ at *
  have hbranch := hplaced.right
  have hfirst := hbranch.tail
  have hjump := hfirst.right
  have hsecond := hjump.tail
  replace hfirst := hfirst.left (hnoGrows _ _)
  have hrunYes := hyes p _ _ st hp hfirst
  have hrunNo := hno p _ _ st hp hsecond
  generalize yes (start + c₁.1.length + 1) c₁.2 = c₂ at *
  generalize no (start + c₁.1.length + 1 + c₂.1.length + 1) c₂.2 = c₃ at *
  have hend : start + c₁.1.length + 1 + c₂.1.length + 1 + c₃.1.length =
      start + (c₁.1 ++ .branch (start + c₁.1.length + 1 + c₂.1.length + 1) :: (c₂.1 ++
        .jump (start + c₁.1.length + 1 + c₂.1.length + 1 + c₃.1.length) :: c₃.1)).length := by
    simp only [List.length_append, List.length_cons]
    omega
  rw [← hend, hp.exec_of_some hbranch.head]
  -- the condition is taken off the stack, and decides where to go on
  cases chosen with
  | true =>
    change Agrees (p.exec ctx (start + c₁.1.length + 1) st) _
    -- the jump leads over the other branch
    refine hrunYes.trans (Agrees.bind_right _ fun v => ?_)
    rw [hp.exec_of_some hjump.head]
    exact .refl _
  | false =>
    change Agrees (p.exec ctx (start + c₁.1.length + 1 + c₂.1.length + 1) st) _
    exact hrunNo

end Code.Computes

/-! ## (6) Expressions -/

/-- The code of an expression only adds to the tables: `(e.emit start t).2.Extends t`. -/
theorem Expr.emit_grows {τ : Ty} (e : Expr τ) (start : Nat) (t : Tables) :
    (e.emit start t).2.Extends t :=
  (e.emit_takes .zero).grows start t

/-- **The code of an expression computes its value**, from left to right, with the same first error:
`e.emit.Computes ctx (e.eval ctx) Stacks.add`. -/
theorem Expr.emit_computes (ctx : Context) {τ : Ty} (e : Expr τ) :
    e.emit.Computes ctx (e.eval ctx) Stacks.add := by
  -- each operation is one step from the stacks that hold its operands
  induction e with
  | number x => exact .op fun p st => (st.pushNumber_agrees x).bind fun _ => .refl _
  | truth b => exact .op fun p st => (st.pushTruth_agrees b).bind fun _ => .refl _
  | text s => exact .text s
  | position =>
    exact .op fun p st => (st.pushNumber_agrees (Float.ofNat ctx.position)).bind fun _ => .refl _
  | point reference b =>
    refine .load fun p slot st hslot => ?_
    simp only [Op.step, hslot]
    change Agrees
      (ctx.pointAt reference ((IndexSpec.point b.code).point? ctx.overflow ctx.position) >>= _) _
    rw [b.point?_code]
    refine Agrees.bind_right _ fun x => ?_
    exact (st.pushNumber_agrees x).bind fun _ => .refl _
  | category b =>
    refine .load fun p slot st hslot => ?_
    simp only [Op.step, hslot]
    change Agrees
      (ctx.categoryAt ((IndexSpec.point b.code).point? ctx.overflow ctx.position) >>= _) _
    rw [b.point?_code]
    refine Agrees.bind_right _ fun s => ?_
    exact (st.pushText_agrees s).bind fun _ => .refl _
  | negate a ih =>
    exact ih.unary fun p st x => (st.pushNumber_agrees (-x)).bind fun _ => .refl _
  | arith op a b iha ihb =>
    refine iha.binary ihb b.emit_grows fun p st x y => ?_
    refine Agrees.bind_right (op.apply x y) fun z => ?_
    exact (st.pushNumber_agrees z).bind fun _ => .refl _
  | compare op a b iha ihb =>
    refine iha.binary ihb b.emit_grows fun p st x y => ?_
    exact (st.pushTruth_agrees (op.apply x y)).bind fun _ => .refl _
  | sameText equal a b iha ihb =>
    refine iha.binary ihb b.emit_grows fun p st s t => ?_
    exact (st.pushTruth_agrees ((s == t) == equal)).bind fun _ => .refl _
  | both a b iha ihb =>
    refine iha.binary ihb b.emit_grows fun p st x y => ?_
    exact (st.pushTruth_agrees (x && y)).bind fun _ => .refl _
  | either a b iha ihb =>
    refine iha.binary ihb b.emit_grows fun p st x y => ?_
    exact (st.pushTruth_agrees (x || y)).bind fun _ => .refl _
  | complement a ih =>
    exact ih.unary fun p st x => (st.pushTruth_agrees (!x)).bind fun _ => .refl _
  | toBoolean a ih =>
    exact ih.unary fun p st x => (st.pushTruth_agrees (!(x == (0.0 : Float)))).bind fun _ => .refl _
  | toNumber a ih =>
    exact ih.unary fun p st x =>
      (st.pushNumber_agrees (if x then 1.0 else 0.0)).bind fun _ => .refl _
  | fold f a =>
    refine (Code.Computes.stretch a).unary fun p st c => ?_
    refine Agrees.bind_right (f.apply c) fun x => ?_
    exact (st.pushNumber_agrees x).bind fun _ => .refl _
  | pairFold f a b =>
    refine (Code.Computes.stretch a).binary (.stretch b)
      (Code.Takes.stretch (n := 0) (b := 0) (s := 0) (c := 0) b).grows fun p st c d => ?_
    refine Agrees.bind_right (f.apply c d) fun x => ?_
    exact (st.pushNumber_agrees x).bind fun _ => .refl _
  | choose condition yes no ihc ihy ihn =>
    exact ihc.choose ihy ihn yes.emit_grows no.emit_grows

/-- **The program of an expression yields its value**, or a stack overflow:
`Agrees ((Program.ofExpr source e).evaluate ctx) (e.eval ctx)`. -/
theorem Program.evaluate_ofExpr (source : String) (e : Expr .number) (ctx : Context) :
    Agrees ((Program.ofExpr source e).evaluate ctx) (e.eval ctx) := by
  have hp : (Program.ofExpr source e).Forward := (Program.checked_ofExpr source e).forward
  rw [hp.evaluate_eq_exec]
  refine (e.emit_computes ctx _ 0 .empty {} hp ⟨fun i op hop => ?_, .refl _⟩).trans ?_
  · rw [Nat.zero_add]
    exact hop
  · cases e.eval ctx with
    | error err => exact .refl _
    | ok x =>
      change Agrees (Program.exec _ ctx _ _) _
      rw [exec_of_none (List.getElem?_eq_none (by rw [Nat.zero_add]; exact Nat.le_refl _))]
      exact .refl _

end PanelQuery.Formula
