import PanelQuery.Proofs.Formula.Heights

/-! # Paths through a program

A path leads from the first operation of a program from place to place, and at a condition both
ways, whatever its value would be. A program is checked when along every path all operations find
their operands, paths that meet agree on the heights of the stacks, and one number is left at the
end. A checked program ends within as many steps as it has operations, and fails only by its data
or by a full stack.

* **`Program.Path`** — the places that paths reach, with the heights there;
* **`Program.Checked`** — what a program has to satisfy along its paths;
* **`Program.Checked.run_meets`** — every run of a checked program follows a path to its end;
* **`Program.exec`** — a run with just as many steps as there are places left, for programs whose
  jumps go forward. -/

namespace PanelQuery.Formula

namespace Program

/-! ## (1) Paths -/

/-- The places that a path through a program reaches, with the heights of the stacks there. -/
inductive Path (p : Program) : Nat → Heights → Prop where
  /-- A path starts at the first place, with empty stacks. -/
  | start : p.Path 0 .zero
  /-- It goes on to any successor of an operation that finds its operands. -/
  | step {pc next : Nat} {op : Op} {h h' : Heights} : p.Path pc h → p.ops[pc]? = some op →
      op.effect h = some h' → next ∈ op.successors pc → p.Path next h'

/-- All jumps go forward, and none goes further than the end. -/
def Forward (p : Program) : Prop :=
  ∀ pc op target, p.ops[pc]? = some op → op.target? = some target →
    pc < target ∧ target ≤ p.ops.length

/-- **What is checked of a program**, of all its operations whether they are ever reached or not,
and along all its paths. -/
structure Checked (p : Program) : Prop where
  /-- The slots of loads are in the table of indices. -/
  index_lt : ∀ op ∈ p.ops, ∀ slot, op.slot? = some slot → slot < p.indices.length
  /-- The slots of texts are in the table of texts. -/
  text_lt : ∀ op ∈ p.ops, ∀ slot, op.textSlot? = some slot → slot < p.texts.length
  /-- Jumps go forward, at most to the end. -/
  forward : p.Forward
  /-- Every operation finds its operands. -/
  operands : ∀ pc op h, p.Path pc h → p.ops[pc]? = some op → (op.effect h).isSome
  /-- Paths that meet agree on the heights. -/
  agree : ∀ pc h h', p.Path pc h → p.Path pc h' → h = h'
  /-- At the end there is one number and nothing else. -/
  final : ∀ h, p.Path p.ops.length h → h = ⟨1, 0, 0, 0⟩
  /-- The codes of indices are complete. -/
  complete : ∀ spec ∈ p.indices, ∀ code ∈ spec.codes, code.IsComplete

/-- The successors of an operation lie after it, and not after the end of the program:
`pc < next ∧ next ≤ p.ops.length`. -/
theorem Forward.lt_successor {p : Program} (hp : p.Forward) {pc next : Nat} {op : Op}
    (hop : p.ops[pc]? = some op) (h : next ∈ op.successors pc) :
    pc < next ∧ next ≤ p.ops.length := by
  have hpc : pc < p.ops.length := (List.getElem?_eq_some_iff.1 hop).1
  have htarget := hp pc op
  cases op with
  | branch target =>
    rcases List.mem_cons.1 h with rfl | h
    · omega
    · rw [List.mem_singleton.1 h]
      exact htarget target hop rfl
  | jump target =>
    rw [List.mem_singleton.1 h]
    exact htarget target hop rfl
  | _ =>
    rw [List.mem_singleton.1 h]
    omega

/-- A path does not leave the program: `pc ≤ p.ops.length`. -/
theorem Path.le_length {p : Program} (hp : p.Forward) {pc : Nat} {h : Heights}
    (path : p.Path pc h) : pc ≤ p.ops.length := by
  cases path with
  | start => exact Nat.zero_le _
  | step _ hop _ hnext => exact (hp.lt_successor hop hnext).2

/-! ## (2) Runs of checked programs -/

namespace Checked

variable {p : Program}

/-- Every operation of a checked program has the index it asks for: `op.HasIndex p`. -/
theorem hasIndex (hp : p.Checked) {pc : Nat} {op : Op} (hop : p.ops[pc]? = some op) :
    op.HasIndex p := by
  intro slot hslot
  have hlt : slot < p.indices.length := hp.index_lt op (List.mem_of_getElem? hop) slot hslot
  exact ⟨p.indices[slot], List.getElem?_eq_getElem hlt,
    hp.complete _ (List.getElem_mem hlt)⟩

/-- **A run along a path.** From a place that a path reaches, with stacks as high as on the path and
as many steps as there are places left, a checked program ends with a number, or fails by its data,
or because a stack was full at a place of a path:
`Meets (p.run ctx fuel pc st) (fun _ => True) (Fault (∃ pc h, p.Path pc h ∧ h.Full))`. -/
theorem run_meets (hp : p.Checked) (ctx : Context) {fuel pc : Nat} {st : Stacks}
    (path : p.Path pc st.heights) (hfuel : p.ops.length ≤ pc + fuel) :
    Meets (p.run ctx fuel pc st) (fun _ => True) (Fault (∃ pc h, p.Path pc h ∧ h.Full)) := by
  -- the path goes on with every step, and the steps that may be made cover the places left
  induction fuel generalizing pc st with
  | zero =>
    have hend : pc = p.ops.length := Nat.le_antisymm (path.le_length hp.forward) hfuel
    have hst : st.heights = ⟨0 + 1, 0, 0, 0⟩ := hp.final _ (hend ▸ path)
    rw [run, List.getElem?_eq_none (by omega)]
    exact (Stacks.popNumber_meets hst).map fun _ _ => trivial
  | succ fuel ih =>
    cases hop : p.ops[pc]? with
    | none =>
      have hend : pc = p.ops.length :=
        Nat.le_antisymm (path.le_length hp.forward) (List.getElem?_eq_none_iff.1 hop)
      have hst : st.heights = ⟨0 + 1, 0, 0, 0⟩ := hp.final _ (hend ▸ path)
      rw [run, hop]
      exact (Stacks.popNumber_meets hst).map fun _ _ => trivial
    | some op =>
      obtain ⟨h', heffect⟩ := Option.isSome_iff_exists.1 (hp.operands pc op _ path hop)
      rw [run, hop]
      have hstep := op.step_meets ctx pc rfl heffect (hp.hasIndex hop)
      refine (hstep.mono (fun _ h => h) ?_).bind fun r hr => ?_
      · -- a full stack at this place is one on a path
        exact fun e he hm => ⟨(he hm).1, pc, st.heights, path, (he hm).2⟩
      · -- the rest is a run along the path that has one place more
        have hnext : p.Path (r.2.getD (pc + 1)) r.1.heights :=
          hr.1 ▸ path.step hop heffect hr.2
        have hlt := (hp.forward.lt_successor hop hr.2).1
        exact ih hnext (by omega)

/-- **Every evaluation of a checked program** ends with a number, or by the data, or because a stack
was full at a place of a path:
`Meets (p.evaluate ctx) (fun _ => True) (Fault (∃ pc h, p.Path pc h ∧ h.Full))`. -/
theorem evaluate_meets (hp : p.Checked) (ctx : Context) :
    Meets (p.evaluate ctx) (fun _ => True) (Fault (∃ pc h, p.Path pc h ∧ h.Full)) := by
  have hstart : p.Path 0 ({} : Stacks).heights := .start
  exact hp.run_meets ctx hstart (by rw [budget]; omega)

end Checked

end Program

/-! ## (3) Runs without counting steps -/

/-- `Meets (op.step p ctx st) (fun r => r.2 = none ∨ r.2 = op.target?) (fun _ => True)`: a step
leads to the next place or to the target of the operation. -/
theorem Op.step_target (p : Program) (ctx : Context) (op : Op) (st : Stacks) :
    Meets (op.step p ctx st) (fun r => r.2 = none ∨ r.2 = op.target?) (fun _ => True) := by
  cases op with
  | branch target =>
    refine (Meets.any _).bind fun r _ => ?_
    cases hr : r.1 <;> simp [target?, hr]
  | jump target => exact .inr rfl
  | _ =>
    unfold step
    dsimp only
    repeat first
      | exact .inl rfl
      | refine (Meets.any _).bind fun _ _ => ?_

namespace Program

variable {p : Program} {ctx : Context} {pc : Nat} {op : Op} {st : Stacks}

/-- When jumps go forward, a step leads to a later place: `pc < r.2.getD (pc + 1)`. -/
theorem Forward.lt_target (hp : p.Forward) (hop : p.ops[pc]? = some op)
    {r : Stacks × Option Nat} (hstep : op.step p ctx st = .ok r) : pc < r.2.getD (pc + 1) := by
  rcases (op.step_target p ctx st).of_ok hstep with htarget | htarget
  · rw [htarget]
    exact Nat.lt_succ_self pc
  · rw [htarget]
    cases h : op.target? with
    | none => exact Nat.lt_succ_self pc
    | some target => exact (hp pc op target hop h).1

/-- `p.run ctx fuel pc st = st.popNumber.map Prod.fst`: where the program has no operation, a run
ends with the top number. -/
theorem run_of_none (hpc : p.ops[pc]? = none) (fuel : Nat) :
    p.run ctx fuel pc st = st.popNumber.map Prod.fst := by
  rw [run, hpc]

/-- Elsewhere a run makes a step, if it may make one: `p.run ctx (fuel + 1) pc st` is
`op.step p ctx st >>= fun r => p.run ctx fuel (r.2.getD (pc + 1)) r.1`. -/
theorem run_succ (hop : p.ops[pc]? = some op) (fuel : Nat) :
    p.run ctx (fuel + 1) pc st =
      op.step p ctx st >>= fun r => p.run ctx fuel (r.2.getD (pc + 1)) r.1 := by
  rw [run, hop]

/-- **Enough steps are enough.** When jumps go forward, all runs that may make as many steps as
there are places left come to the same: `p.run ctx fuel pc st = p.run ctx fuel' pc st`. -/
theorem Forward.run_eq_run (hp : p.Forward) {fuel fuel' : Nat} (h : p.ops.length ≤ pc + fuel)
    (h' : p.ops.length ≤ pc + fuel') : p.run ctx fuel pc st = p.run ctx fuel' pc st := by
  -- a step leads to a later place, so that either run has enough steps for the rest
  induction fuel generalizing fuel' pc st with
  | zero =>
    have hnone : p.ops[pc]? = none := List.getElem?_eq_none (by omega)
    rw [run_of_none hnone, run_of_none hnone]
  | succ fuel ih =>
    cases hop : p.ops[pc]? with
    | none => rw [run_of_none hop, run_of_none hop]
    | some op =>
      have hpc : pc < p.ops.length := (List.getElem?_eq_some_iff.1 hop).1
      obtain ⟨more, rfl⟩ : ∃ more, fuel' = more + 1 := ⟨fuel' - 1, by omega⟩
      rw [run_succ hop, run_succ hop]
      cases hstep : op.step p ctx st with
      | error e => rfl
      | ok r =>
        have hlt : pc < r.2.getD (pc + 1) := hp.lt_target hop hstep
        exact ih (by omega) (by omega)

/-- `exec p ctx pc st`: a run with just as many steps as there are places left. -/
def exec (p : Program) (ctx : Context) (pc : Nat) (st : Stacks) : Except EvalError Float :=
  p.run ctx (p.ops.length - pc) pc st

/-- `p.exec ctx pc st = st.popNumber.map Prod.fst`: at the end, the top number is the result. -/
theorem exec_of_none (hpc : p.ops[pc]? = none) :
    p.exec ctx pc st = st.popNumber.map Prod.fst := run_of_none hpc _

/-- **One step of a run**: an operation, and the run from the place it leads to.
`p.exec ctx pc st = op.step p ctx st >>= fun r => p.exec ctx (r.2.getD (pc + 1)) r.1`. -/
theorem Forward.exec_of_some (hp : p.Forward) (hop : p.ops[pc]? = some op) :
    p.exec ctx pc st =
      op.step p ctx st >>= fun r => p.exec ctx (r.2.getD (pc + 1)) r.1 := by
  have hpc : pc < p.ops.length := (List.getElem?_eq_some_iff.1 hop).1
  obtain ⟨fuel, hfuel⟩ : ∃ fuel, p.ops.length - pc = fuel + 1 :=
    ⟨p.ops.length - pc - 1, by omega⟩
  rw [exec, hfuel, run_succ hop]
  cases hstep : op.step p ctx st with
  | error e => rfl
  | ok r =>
    have hlt : pc < r.2.getD (pc + 1) := hp.lt_target hop hstep
    exact hp.run_eq_run (by omega) (by omega)

/-- `p.evaluate ctx = p.exec ctx 0 {}`: a program is evaluated by running it from its first place
with empty stacks. -/
theorem Forward.evaluate_eq_exec (hp : p.Forward) (ctx : Context) :
    p.evaluate ctx = p.exec ctx 0 {} :=
  hp.run_eq_run (by rw [budget]; omega) (by omega)

end Program

end PanelQuery.Formula
