import PanelQuery.Proofs.Formula.Loads
import PanelQuery.Proofs.Statistics

/-! # Stretches have values

Every stretch on the stack of the machine has a value, in all programs, with whatever jumps, and at
every step of a run. So a function can lack values only when one value is not enough for it, or when
a mask has left it without any.

* **`demanding`** — the functions that may lack values;
* **`Fold.apply_excused`, `PairFold.apply_excused`** — no other function lacks them where stretches
  have values;
* **`Op.step_filled`** — a step from stacks whose stretches have values;
* **`Program.Reaches`, `Program.Reaches.filled`** — all places and stacks of a run;
* **`exists_lacking`** — programs in which demanding functions lack values;
* **`stretches_filled`** — all programs. -/

namespace PanelQuery.Formula

/-! ## (1) Functions -/

/-- The functions that may lack values though their stretches have some: a spread takes two values,
a growth rate some time and a first value other than zero, and a mask may let nothing through. -/
def demanding : List String :=
  [Fold.name .stddev, Fold.name .variance, Fold.name .cagr, PairFold.name .sumIf,
    PairFold.name .averageIf, PairFold.name .medianIf]

/-- An error is excused unless it says that a function lacks values which is none of those. -/
def Excused : EvalError → Prop
  | .emptyArgument name => name ∈ demanding
  | _ => True

/-- Loads do not look at functions: `Excused e`. -/
theorem Excused.of_load (e : EvalError) (h : e.isOfLoad = true) : Excused e := by
  cases e with
  | emptyArgument name => cases h
  | _ => trivial

section Functions

variable {name : String} {x : Option Float} {a b : Cut}

/-- A figure that there is: `Meets (figure name x) (fun _ => True) Excused`. -/
theorem figure_of_isSome (h : x.isSome) : Meets (figure name x) (fun _ => True) Excused := by
  obtain ⟨y, rfl⟩ := Option.isSome_iff_exists.1 h
  trivial

/-- A figure of a function that may lack values: `Meets (figure name x) (fun _ => True) Excused`. -/
theorem figure_of_demanding (h : name ∈ demanding) :
    Meets (figure name x) (fun _ => True) Excused := by
  cases x with
  | none => exact h
  | some y => trivial

/-- **A function of a stretch with values** lacks them only when it is a demanding one:
`Meets (f.apply a) (fun _ => True) Excused`. -/
theorem Fold.apply_excused (f : Fold) (ha : a.values ≠ []) :
    Meets (f.apply a) (fun _ => True) Excused := by
  cases f with
  | count => trivial
  | sum => exact figure_of_isSome (by simp [ha])
  | average => exact figure_of_isSome (Statistics.isSome_mean ha)
  | median => exact figure_of_isSome (Statistics.isSome_median ha)
  | minimum => exact figure_of_isSome (Statistics.isSome_minimum ha)
  | maximum => exact figure_of_isSome (Statistics.isSome_maximum ha)
  | compound => exact figure_of_isSome (Statistics.isSome_compound ha)
  | product => exact figure_of_isSome (Statistics.isSome_product ha)
  | stddev | variance | cagr => exact figure_of_demanding (by decide)

/-- **So does one of two stretches**: `Meets (f.apply a b) (fun _ => True) Excused`. -/
theorem PairFold.apply_excused (f : PairFold) (ha : a.values ≠ []) (hb : b.values ≠ []) :
    Meets (f.apply a b) (fun _ => True) Excused := by
  cases f with
  | sumProduct => exact figure_of_isSome (by simp [ha, hb])
  | sumIf | averageIf | medianIf => exact figure_of_demanding (by decide)

end Functions

/-! ## (2) Stacks -/

/-- All stretches on the stack have values. -/
def Stacks.Filled (st : Stacks) : Prop := ∀ c ∈ st.cuts, c.values ≠ []

section Stacks

variable {st : Stacks}

/-- `Meets (push x stack) (fun out => out = x :: stack) Excused`: a push may overflow. -/
theorem push_excused {β : Type} (x : β) (stack : List β) :
    Meets (push x stack) (fun out => out = x :: stack) Excused := by
  unfold push
  split <;> trivial

/-- `Meets (pop stack) (fun out => stack = out.1 :: out.2) Excused`: a pop takes the top entry, or
underflows. -/
theorem pop_excused {β : Type} (stack : List β) :
    Meets (pop stack) (fun out => stack = out.1 :: out.2) Excused := by
  cases stack <;> trivial

namespace Stacks.Filled

variable (h : st.Filled)

include h

/-- One more number: `Meets (st.pushNumber x) Filled Excused`. -/
theorem pushNumber (x : Float) : Meets (st.pushNumber x) Filled Excused :=
  (push_excused x st.numbers).map fun _ _ => h

/-- One more truth value: `Meets (st.pushTruth b) Filled Excused`. -/
theorem pushTruth (b : Bool) : Meets (st.pushTruth b) Filled Excused :=
  (push_excused b st.truths).map fun _ _ => h

/-- One more text: `Meets (st.pushText s) Filled Excused`. -/
theorem pushText (s : String) : Meets (st.pushText s) Filled Excused :=
  (push_excused s st.texts).map fun _ _ => h

/-- **One more stretch**, if it has values: `Meets (st.pushCut c) Filled Excused`. -/
theorem pushCut {c : Cut} (hc : c.values ≠ []) : Meets (st.pushCut c) Filled Excused :=
  (push_excused c st.cuts).map fun _ hcuts => hcuts ▸ List.forall_mem_cons.2 ⟨hc, h⟩

/-- One number less: `Meets st.popNumber (fun r => r.2.Filled) Excused`. -/
theorem popNumber : Meets st.popNumber (fun r => r.2.Filled) Excused :=
  (pop_excused st.numbers).map fun _ _ => h

/-- One truth value less: `Meets st.popTruth (fun r => r.2.Filled) Excused`. -/
theorem popTruth : Meets st.popTruth (fun r => r.2.Filled) Excused :=
  (pop_excused st.truths).map fun _ _ => h

/-- One text less: `Meets st.popText (fun r => r.2.Filled) Excused`. -/
theorem popText : Meets st.popText (fun r => r.2.Filled) Excused :=
  (pop_excused st.texts).map fun _ _ => h

/-- **One stretch less**, and it has values:
`Meets st.popCut (fun r => r.1.values ≠ [] ∧ r.2.Filled) Excused`. -/
theorem popCut : Meets st.popCut (fun r => r.1.values ≠ [] ∧ r.2.Filled) Excused :=
  (pop_excused st.cuts).map fun r hcuts => by
    rw [Filled, hcuts, List.forall_mem_cons] at h
    exact h

end Stacks.Filled

end Stacks

/-! ## (3) Steps -/

/-- The positions of an index may lack operands, or overflow:
`Meets (code.eval o length position) (fun _ => True) Excused`. -/
theorem IndexCode.eval_excused (code : IndexCode) (o : Overflow) (length position : Nat) :
    Meets (code.eval o length position) (fun _ => True) Excused := by
  have hsum : ∀ n, Meets (indexSum o n) (fun _ => True) Excused := fun n => by
    unfold indexSum
    split <;> trivial
  have hjoin : ∀ f stack, Meets (joinPositions o f stack) (fun _ => True) Excused := by
    intro f stack
    unfold joinPositions
    split
    · exact (hsum _).bind fun _ _ => trivial
    · trivial
  have hstep : ∀ (stack : List Int) (op : IndexOp), True →
      Meets (op.step o length position stack) (fun _ => True) Excused := by
    intro stack op _
    cases op with
    | add | sub => exact hjoin _ stack
    | _ => trivial
  unfold eval
  refine (Meets.foldlM (fun _ => True) hstep trivial code).bind fun stack _ => ?_
  split <;> trivial

/-- One position: `Meets (spec.point? o position length) (fun _ => True) Excused`. -/
theorem IndexSpec.point?_excused (spec : IndexSpec) (o : Overflow) (position length : Nat) :
    Meets (spec.point? o position length) (fun _ => True) Excused := by
  cases spec with
  | point code => exact code.eval_excused o length position
  | range low high => trivial

/-- The ends of a range: `Meets (spec.ends o position length) (fun _ => True) Excused`. -/
theorem IndexSpec.ends_excused (spec : IndexSpec) (o : Overflow) (position length : Nat) :
    Meets (spec.ends o position length) (fun _ => True) Excused := by
  cases spec with
  | point code => exact (code.eval_excused o length position).map fun _ _ => trivial
  | range low high =>
    refine (low.eval_excused o length position).bind fun _ _ => ?_
    exact (high.eval_excused o length position).bind fun _ _ => trivial

/-- The index of a load may be missing: `Meets (p.index slot) (fun _ => True) Excused`. -/
theorem Program.index_excused (p : Program) (slot : Nat) :
    Meets (p.index slot) (fun _ => True) Excused := by
  unfold index
  split <;> trivial

/-- An operator may divide by zero: `Meets (op.apply a b) (fun _ => True) Excused`. -/
theorem ArithOp.apply_excused (op : ArithOp) (a b : Float) :
    Meets (op.apply a b) (fun _ => True) Excused := by
  cases op with
  | add | sub | mul | pow => trivial
  | div | mod =>
    unfold apply
    dsimp only
    split <;> trivial

/-- An operation that ends with a push:
`Meets (m >>= fun out => pure (out, (none : Option Nat))) (fun r => r.1.Filled) Excused`. -/
theorem Stacks.proceed_filled {m : Except EvalError Stacks} (h : Meets m Filled Excused) :
    Meets (m >>= fun out => pure (out, (none : Option Nat))) (fun r => r.1.Filled) Excused :=
  h.bind fun _ hout => hout

/-- **A step keeps values in all stretches**, and only a demanding function lacks any:
`Meets (op.step p ctx st) (fun r => r.1.Filled) Excused`. -/
theorem Op.step_filled (p : Program) (ctx : Context) (op : Op) {st : Stacks} (h : st.Filled) :
    Meets (op.step p ctx st) (fun r => r.1.Filled) Excused := by
  -- only loads put stretches on the stack, and only functions take them
  cases op with
  | pushNumber x => exact Stacks.proceed_filled (h.pushNumber x)
  | pushTruth b => exact Stacks.proceed_filled (h.pushTruth b)
  | pushText slot => exact Stacks.proceed_filled (h.pushText _)
  | loadPosition => exact Stacks.proceed_filled (h.pushNumber _)
  | load reference slot =>
    refine (p.index_excused slot).bind fun spec _ => ?_
    refine (ctx.pointAt_meets reference Excused.of_load fun length =>
      spec.point?_excused ctx.overflow ctx.position length).bind fun x _ => ?_
    exact Stacks.proceed_filled (h.pushNumber x)
  | loadStretch reference slot =>
    refine (p.index_excused slot).bind fun spec _ => ?_
    refine (ctx.cutBetween_meets reference Excused.of_load fun length =>
      spec.ends_excused ctx.overflow ctx.position length).bind fun c hc => ?_
    exact Stacks.proceed_filled (h.pushCut hc)
  | loadCategory slot =>
    refine (p.index_excused slot).bind fun spec _ => ?_
    refine (ctx.categoryAt_meets Excused.of_load fun length =>
      spec.point?_excused ctx.overflow ctx.position length).bind fun s _ => ?_
    exact Stacks.proceed_filled (h.pushText s)
  | negate => exact h.popNumber.bind fun r hr => Stacks.proceed_filled (hr.pushNumber _)
  | arith op =>
    refine h.popNumber.bind fun r hr => ?_
    refine hr.popNumber.bind fun r' hr' => ?_
    refine (op.apply_excused r'.1 r.1).bind fun x _ => ?_
    exact Stacks.proceed_filled (hr'.pushNumber x)
  | compare op =>
    refine h.popNumber.bind fun r hr => ?_
    exact hr.popNumber.bind fun r' hr' => Stacks.proceed_filled (hr'.pushTruth _)
  | sameText equal =>
    refine h.popText.bind fun r hr => ?_
    exact hr.popText.bind fun r' hr' => Stacks.proceed_filled (hr'.pushTruth _)
  | both | either =>
    refine h.popTruth.bind fun r hr => ?_
    exact hr.popTruth.bind fun r' hr' => Stacks.proceed_filled (hr'.pushTruth _)
  | complement => exact h.popTruth.bind fun r hr => Stacks.proceed_filled (hr.pushTruth _)
  | toBoolean => exact h.popNumber.bind fun r hr => Stacks.proceed_filled (hr.pushTruth _)
  | toNumber => exact h.popTruth.bind fun r hr => Stacks.proceed_filled (hr.pushNumber _)
  | fold f =>
    refine h.popCut.bind fun r hr => ?_
    refine (f.apply_excused hr.1).bind fun x _ => ?_
    exact Stacks.proceed_filled (hr.2.pushNumber x)
  | pairFold f =>
    refine h.popCut.bind fun r hr => ?_
    refine hr.2.popCut.bind fun r' hr' => ?_
    refine (f.apply_excused hr'.1 hr.1).bind fun x _ => ?_
    exact Stacks.proceed_filled (hr'.2.pushNumber x)
  | branch target => exact h.popTruth.bind fun r hr => hr
  | jump target => exact h

/-! ## (4) Runs -/

namespace Program

variable {p : Program} {ctx : Context}

/-- The places that a run of a program comes to, with the stacks there. -/
inductive Reaches (p : Program) (ctx : Context) : Nat → Stacks → Prop where
  /-- A run starts at the first place, with empty stacks. -/
  | start : p.Reaches ctx 0 {}
  /-- It goes on to where an operation leads. -/
  | step {pc : Nat} {st : Stacks} {op : Op} {r : Stacks × Option Nat} : p.Reaches ctx pc st →
      p.ops[pc]? = some op → op.step p ctx st = .ok r → p.Reaches ctx (r.2.getD (pc + 1)) r.1

/-- **At every place of a run all stretches have values**: `st.Filled`. -/
theorem Reaches.filled {pc : Nat} {st : Stacks} (h : p.Reaches ctx pc st) : st.Filled := by
  induction h with
  | start => exact List.forall_mem_nil _
  | step _ _ hstep ih => exact (Op.step_filled p ctx _ ih).of_ok hstep

/-- **A run that goes on from a place of a run** fails for want of values only at a demanding
function: `Meets (p.run ctx fuel pc st) (fun _ => True) Excused`. -/
theorem Reaches.run_excused {pc : Nat} {st : Stacks} (h : p.Reaches ctx pc st) (fuel : Nat) :
    Meets (p.run ctx fuel pc st) (fun _ => True) Excused := by
  induction fuel generalizing pc st with
  | zero =>
    rw [run]
    split
    · exact h.filled.popNumber.map fun _ _ => trivial
    · trivial
  | succ fuel ih =>
    rw [run]
    split
    · exact h.filled.popNumber.map fun _ _ => trivial
    · rename_i op hop
      cases hstep : op.step p ctx st with
      | error e => exact (op.step_filled p ctx h.filled).of_error hstep
      | ok r => exact ih (h.step hop hstep)

end Program

/-! ## (5) Programs that lack values -/

/-- A series of one zero. -/
def loneZero : Points Float := [⟨0, 0.0⟩]

/-- It is all that there is. -/
def loneContext : Context := ⟨[], some loneZero, loneZero, none, 0, [], .wraps⟩

/-- The whole of it. -/
def loneCut : Cut := ⟨[0.0], Context.daysBetween loneZero 0 0⟩

/-- A function of a whole series. -/
def Fold.alone (f : Fold) : Program :=
  ⟨f.name, [.loadStretch .broadcast 0, .fold f], [.range [.first] [.last]], []⟩

/-- A function of a whole series and itself. -/
def PairFold.alone (f : PairFold) : Program :=
  ⟨f.name, [.loadStretch .broadcast 0, .loadStretch .broadcast 0, .pairFold f],
    [.range [.first] [.last]], []⟩

/-- `f.alone.evaluate loneContext = .error e`: such a program fails where its function does. -/
theorem Fold.evaluate_alone {f : Fold} {e : EvalError} (h : f.apply loneCut = .error e) :
    f.alone.evaluate loneContext = .error e := by
  have hrun : ∀ fuel, f.alone.run loneContext (fuel + 2) 0 {} = .error e := by
    intro fuel
    show ((f.apply loneCut >>= _) >>= _) = _
    rw [h]
    rfl
  rw [Program.evaluate, Program.budget, Nat.add_comm]
  exact hrun 1000000

/-- `f.alone.evaluate loneContext = .error e`: so does one with the series twice. -/
theorem PairFold.evaluate_alone {f : PairFold} {e : EvalError}
    (h : f.apply loneCut loneCut = .error e) : f.alone.evaluate loneContext = .error e := by
  have hrun : ∀ fuel, f.alone.run loneContext (fuel + 3) 0 {} = .error e := by
    intro fuel
    show ((f.apply loneCut loneCut >>= _) >>= _) = _
    rw [h]
    rfl
  rw [Program.evaluate, Program.budget, Nat.add_comm]
  exact hrun 1000000

/-- `Fold.apply .cagr ⟨[0.0], days⟩ = .error (.emptyArgument "cagr")`: there is no growth from zero,
over however many days. -/
theorem Fold.cagr_zero (days : Float) :
    Fold.apply .cagr ⟨[0.0], days⟩ = .error (.emptyArgument "cagr") := by
  have hzero : ((0.0 : Float) == 0) = true := by decide
  show figure Fold.cagr.name
    (if days ≤ 0 ∨ ((0.0 : Float) == 0) = true then none else _) = _
  rw [if_pos (.inr hzero)]
  rfl

/-- `f.apply loneCut loneCut = .error (.emptyArgument f.name)`: a mask of zero lets nothing
through. -/
theorem PairFold.apply_loneCut (f : PairFold) (hf : f ≠ .sumProduct) :
    f.apply loneCut loneCut = .error (.emptyArgument f.name) := by
  have hmasked : Statistics.masked loneCut.values loneCut.values = [] := by decide
  have hmedian : Statistics.median ([] : List Float) = none := by
    simp [Statistics.median, Scalar.sorted]
  unfold apply
  rw [hmasked]
  cases f with
  | sumProduct => exact absurd rfl hf
  | sumIf | averageIf => rfl
  | medianIf =>
    show figure PairFold.medianIf.name (Statistics.median []) = _
    rw [hmedian]
    rfl

/-- **Each demanding function lacks values somewhere**:
`∃ p ctx, Program.evaluate p ctx = .error (.emptyArgument name)`. -/
theorem exists_lacking {name : String} (h : name ∈ demanding) :
    ∃ p ctx, Program.evaluate p ctx = .error (.emptyArgument name) := by
  simp only [demanding, List.mem_cons, List.not_mem_nil, or_false] at h
  rcases h with rfl | rfl | rfl | rfl | rfl | rfl
  · exact ⟨_, _, Fold.evaluate_alone (f := .stddev) rfl⟩
  · exact ⟨_, _, Fold.evaluate_alone (f := .variance) rfl⟩
  · exact ⟨_, _, Fold.evaluate_alone (Fold.cagr_zero _)⟩
  · exact ⟨_, _, PairFold.evaluate_alone (PairFold.apply_loneCut .sumIf nofun)⟩
  · exact ⟨_, _, PairFold.evaluate_alone (PairFold.apply_loneCut .averageIf nofun)⟩
  · exact ⟨_, _, PairFold.evaluate_alone (PairFold.apply_loneCut .medianIf nofun)⟩

/-- **Stretches are never empty.** In all programs and on all data, whatever place a run comes to,
every stretch on the stack has a value. So no run, however long, fails because a function lacks
values that is not a demanding one, and the functions for which an evaluation may fail in this way
are just the demanding ones. -/
theorem stretches_filled :
    (∀ (p : Program) (ctx : Context) (pc : Nat) (st : Stacks), p.Reaches ctx pc st →
      ∀ c ∈ st.cuts, c.values ≠ []) ∧
    (∀ (p : Program) (ctx : Context) (fuel : Nat) (name : String),
      p.run ctx fuel 0 {} = .error (.emptyArgument name) → name ∈ demanding) ∧
    ∀ name, (∃ p ctx, Program.evaluate p ctx = .error (.emptyArgument name)) ↔
      name ∈ ["stddev", "variance", "cagr", "sumif", "averageif", "medianif"] := by
  have hrun : ∀ (p : Program) (ctx : Context) (fuel : Nat) (name : String),
      p.run ctx fuel 0 {} = .error (.emptyArgument name) → name ∈ demanding :=
    fun p ctx fuel _ herror => (Program.Reaches.start.run_excused fuel).of_error herror
  refine ⟨fun p ctx pc st h => h.filled, hrun, fun name => ⟨?_, exists_lacking⟩⟩
  rintro ⟨p, ctx, herror⟩
  exact hrun p ctx p.budget name herror

/-- The sum of a lone zero, with the stretch on the stack that it is the sum of. -/
theorem stretches_filled_loneSum :
    (Fold.alone .sum).Reaches loneContext 1 ⟨[], [], [], [loneCut]⟩ ∧ loneCut.values ≠ [] := by
  have hstep : Op.step (Fold.alone .sum) loneContext (.loadStretch .broadcast 0) {} =
      .ok (⟨[], [], [], [loneCut]⟩, none) := rfl
  have hreaches : (Fold.alone .sum).Reaches loneContext 1 ⟨[], [], [], [loneCut]⟩ :=
    .step .start rfl hstep
  exact ⟨hreaches, stretches_filled.1 _ _ _ _ hreaches loneCut (List.mem_singleton_self _)⟩

end PanelQuery.Formula
