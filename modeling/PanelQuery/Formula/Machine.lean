import PanelQuery.Formula.Context
import PanelQuery.Formula.Program

/-! # The machine

Programs run on four stacks of limited depth: numbers, truth values, texts and stretches.

* **`IndexCode.eval`** — a position from its postfix code;
* **`Stacks`** — the four stacks;
* **`Op.step`** — one operation: the stacks after it, and where it jumps;
* **`Program.evaluate`** — the number that is left on top at the end. -/

namespace PanelQuery.Formula

/-! ### Positions -/

/-- `joinPositions o f`: the two positions on top of a stack, joined to their sum or difference. -/
def joinPositions (o : Overflow) (f : Int → Int → Int) : List Int → Except EvalError (List Int)
  | b :: a :: stack => return (← indexSum o (f a b)) :: stack
  | _ => .error .stackUnderflow

/-- `IndexOp.step o length position op stack`: one operation on a stack of positions. -/
def IndexOp.step (o : Overflow) (length position : Nat) (op : IndexOp) (stack : List Int) :
    Except EvalError (List Int) :=
  match op with
  | first => .ok (0 :: stack)
  | last => .ok (((length : Int) - 1) :: stack)
  | current => .ok ((position : Int) :: stack)
  | constant n => .ok (n.toInt :: stack)
  | add => joinPositions o (· + ·) stack
  | sub => joinPositions o (· - ·) stack

/-- `IndexCode.eval o length position code`: a position from its postfix code, in a series of some
length. -/
def IndexCode.eval (o : Overflow) (length position : Nat) (code : IndexCode) :
    Except EvalError Int := do
  match ← code.foldlM (fun stack op => op.step o length position stack) [] with
  | top :: _ => return top
  | [] => throw .stackUnderflow

/-- `IndexSpec.point? spec o position length`: the one position that a load asks for. -/
def IndexSpec.point? (spec : IndexSpec) (o : Overflow) (position length : Nat) :
    Except EvalError Int :=
  match spec with
  | point code => code.eval o length position
  | range _ _ => .error (.invalidRange 0 0)

/-- `IndexSpec.ends spec o position length`: the two ends of the range that a load asks for. -/
def IndexSpec.ends (spec : IndexSpec) (o : Overflow) (position length : Nat) :
    Except EvalError (Int × Int) :=
  match spec with
  | point code => (code.eval o length position).map fun n => (n, n)
  | range low high => do
      let low ← low.eval o length position
      let high ← high.eval o length position
      return (low, high)

/-! ### Stacks -/

/-- The most entries of one stack. -/
def stackLimit : Nat := 256

/-- `push x stack`: a stack with one more entry. -/
def push {β : Type} (x : β) (stack : List β) : Except EvalError (List β) :=
  if stackLimit ≤ stack.length then .error .stackOverflow else .ok (x :: stack)

/-- The top of a stack and the rest. -/
def pop {β : Type} : List β → Except EvalError (β × List β)
  | x :: stack => .ok (x, stack)
  | [] => .error .stackUnderflow

/-- The stacks of the machine. -/
structure Stacks where
  numbers : List Float := []
  truths : List Bool := []
  texts : List String := []
  cuts : List Cut := []

namespace Stacks

/-- `pushNumber st x`: the stacks with one more number. -/
def pushNumber (st : Stacks) (x : Float) : Except EvalError Stacks :=
  (push x st.numbers).map fun numbers => { st with numbers }

/-- `pushTruth st b`: the stacks with one more truth value. -/
def pushTruth (st : Stacks) (b : Bool) : Except EvalError Stacks :=
  (push b st.truths).map fun truths => { st with truths }

/-- `pushText st s`: the stacks with one more text. -/
def pushText (st : Stacks) (s : String) : Except EvalError Stacks :=
  (push s st.texts).map fun texts => { st with texts }

/-- `pushCut st c`: the stacks with one more stretch. -/
def pushCut (st : Stacks) (c : Cut) : Except EvalError Stacks :=
  (push c st.cuts).map fun cuts => { st with cuts }

/-- The top number and the other entries. -/
def popNumber (st : Stacks) : Except EvalError (Float × Stacks) :=
  (pop st.numbers).map fun (x, numbers) => (x, { st with numbers })

/-- The top truth value and the other entries. -/
def popTruth (st : Stacks) : Except EvalError (Bool × Stacks) :=
  (pop st.truths).map fun (b, truths) => (b, { st with truths })

/-- The top text and the other entries. -/
def popText (st : Stacks) : Except EvalError (String × Stacks) :=
  (pop st.texts).map fun (s, texts) => (s, { st with texts })

/-- The top stretch and the other entries. -/
def popCut (st : Stacks) : Except EvalError (Cut × Stacks) :=
  (pop st.cuts).map fun (c, cuts) => (c, { st with cuts })

end Stacks

/-! ### Steps -/

/-- `Program.index p slot`: the index of a load. -/
def Program.index (p : Program) (slot : Nat) : Except EvalError IndexSpec :=
  match p.indices[slot]? with
  | some spec => .ok spec
  | none => .error (.missingIndex slot)

/-- One operation: the stacks after it, and the place it jumps to, if it does. -/
def Op.step (p : Program) (ctx : Context) (op : Op) (st : Stacks) :
    Except EvalError (Stacks × Option Nat) := do
  let go := fun (st : Stacks) => (st, (none : Option Nat))
  match op with
  | pushNumber x => return go (← st.pushNumber x)
  | pushTruth b => return go (← st.pushTruth b)
  | pushText slot => return go (← st.pushText (p.texts[slot]?.getD ""))
  | loadPosition => return go (← st.pushNumber (Float.ofNat ctx.position))
  | load reference slot => do
      let spec ← p.index slot
      let x ← ctx.pointAt reference (spec.point? ctx.overflow ctx.position)
      return go (← st.pushNumber x)
  | loadStretch reference slot => do
      let spec ← p.index slot
      let c ← ctx.cutBetween reference (spec.ends ctx.overflow ctx.position)
      return go (← st.pushCut c)
  | loadCategory slot => do
      let spec ← p.index slot
      let s ← ctx.categoryAt (spec.point? ctx.overflow ctx.position)
      return go (← st.pushText s)
  | negate => do
      let (a, st) ← st.popNumber
      return go (← st.pushNumber (-a))
  | arith op => do
      let (b, st) ← st.popNumber
      let (a, st) ← st.popNumber
      return go (← st.pushNumber (← op.apply a b))
  | compare op => do
      let (b, st) ← st.popNumber
      let (a, st) ← st.popNumber
      return go (← st.pushTruth (op.apply a b))
  | sameText equal => do
      let (b, st) ← st.popText
      let (a, st) ← st.popText
      return go (← st.pushTruth ((a == b) == equal))
  | both => do
      let (b, st) ← st.popTruth
      let (a, st) ← st.popTruth
      return go (← st.pushTruth (a && b))
  | either => do
      let (b, st) ← st.popTruth
      let (a, st) ← st.popTruth
      return go (← st.pushTruth (a || b))
  | complement => do
      let (a, st) ← st.popTruth
      return go (← st.pushTruth (!a))
  | toBoolean => do
      let (a, st) ← st.popNumber
      return go (← st.pushTruth (!(a == 0.0)))
  | toNumber => do
      let (a, st) ← st.popTruth
      return go (← st.pushNumber (if a then 1.0 else 0.0))
  | fold f => do
      let (a, st) ← st.popCut
      return go (← st.pushNumber (← f.apply a))
  | pairFold f => do
      let (b, st) ← st.popCut
      let (a, st) ← st.popCut
      return go (← st.pushNumber (← f.apply a b))
  | branch target => do
      let (a, st) ← st.popTruth
      return (st, if a then none else some target)
  | jump target => return (st, some target)

namespace Program

/-- Runs a program from place `pc` to its end, in at most `fuel` steps. -/
def run (p : Program) (ctx : Context) : (fuel pc : Nat) → Stacks → Except EvalError Float
  | fuel, pc, st =>
      match p.ops[pc]? with
      | none => st.popNumber.map Prod.fst
      | some op =>
          match fuel with
          | 0 => .error .unfinished
          | fuel + 1 => do
              let (st, target) ← op.step p ctx st
              p.run ctx fuel (target.getD (pc + 1)) st

/-- The steps that a program may take. One whose jumps all go forward never takes more than it has
operations; the rest is for one that goes back. -/
def budget (p : Program) : Nat := p.ops.length + 1000000

/-- `evaluate p ctx`: the number that a program computes. -/
def evaluate (p : Program) (ctx : Context) : Except EvalError Float := p.run ctx p.budget 0 {}

end Program

end PanelQuery.Formula
