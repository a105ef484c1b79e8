import PanelQuery.Query.Path
import PanelQuery.Text.Replacement

/-! # Traces

What happened at each node of a query, and its text as an indented tree.

* **`NodeReport`** — what happened at one node;
* **`Trace`** — the reports, in order of completion;
* **`Trace.childStem`** — what stands in front of all that is below a node;
* **`Trace.lines`, `Trace.render`** — the tree, with each node's problems below its line. -/

namespace PanelQuery

/-- How far the evaluation of a node came. -/
inductive NodeState where
  | unevaluated
  | evaluatingChildren
  | computing
  | done
  deriving DecidableEq, Repr

/-- The name of a state. -/
def NodeState.name : NodeState → String
  | unevaluated => "Unevaluated"
  | evaluatingChildren => "EvaluatingChildren"
  | computing => "Computing"
  | done => "Done"

/-- What happened at one node. -/
structure NodeReport where
  path : Path
  kind : NodeKind
  title : String
  /-- The name of the step. -/
  step : String
  state : NodeState
  /-- The number of children. -/
  children : Nat
  /-- The number of entities in the result. -/
  entities : Nat
  /-- The problems that the node added. -/
  errors : List String
  deriving DecidableEq, Repr

/-- Reports, in order of completion. -/
abbrev Trace := List NodeReport

/-! ### Lines -/

/-- `NodeReport.line r level`: the line of a report at a level, after what stands in front of it. -/
def NodeReport.line (r : NodeReport) (level : Nat) : String :=
  let state := if r.state = .done then "" else " (" ++ r.state.name ++ ")"
  "[L" ++ toString level ++ "] " ++ r.title ++ " <" ++ r.kind.label ++ "> = " ++ r.step ++ " ["
    ++ toString r.entities ++ " entities]" ++ state

/-- The lines of the problems below a node, after `stem`. -/
def NodeReport.errorLines (r : NodeReport) (stem : String) : List String :=
  let rail := if r.children = 0 then " " else "|"
  r.errors.map fun e => stem ++ rail ++ "  ! " ++ e

namespace Trace

/-- `report? t path`: the last report on a path. -/
def report? (t : Trace) (path : Path) : Option NodeReport :=
  t.reverse.find? fun r => r.path == path

/-- The number of levels that have reports. -/
def levels (t : Trace) : Nat := (t.map fun r => r.path.length + 1).foldl max 0

/-- A maximum is no less than what it starts from and than what it is taken of:
`n ≤ ns.foldl max m`. -/
theorem le_foldl_max {ns : List Nat} {m n : Nat} (h : n ≤ m ∨ n ∈ ns) : n ≤ ns.foldl max m := by
  induction ns generalizing m with
  | nil => exact h.resolve_right List.not_mem_nil
  | cons k ns ih =>
    rcases h with h | h
    · exact ih (.inl (Nat.le_trans h (Nat.le_max_left m k)))
    · rcases List.mem_cons.1 h with rfl | h
      · exact ih (.inl (Nat.le_max_right m n))
      · exact ih (.inr h)

/-- `r ∈ t ∧ r.path = path`: a report that is found is one of the trace, on the path. -/
theorem report?_eq_some {t : Trace} {path : Path} {r : NodeReport} (h : t.report? path = some r) :
    r ∈ t ∧ r.path = path := by
  unfold report? at h
  have hpath := List.find?_some h
  exact ⟨List.mem_reverse.1 (List.mem_of_find?_eq_some h), eq_of_beq hpath⟩

/-- A path with a report is not as long as there are levels: `path.length < t.levels`. -/
theorem length_lt_levels {t : Trace} {path : Path} {r : NodeReport} (h : t.report? path = some r) :
    path.length < t.levels := by
  obtain ⟨hmem, rfl⟩ := report?_eq_some h
  exact le_foldl_max (.inr (List.mem_map_of_mem hmem))

/-- The branch to a child, the last one or not. -/
def branchTo (last : Bool) : String := if last then "`--" else "|--"

/-- What stands in front of all that is below a node, made of what stands in front of the node
itself: its branches give way to what goes on below them. -/
def childStem (current : String) : String :=
  Text.replace "|--" "|  " (Text.replace "`--" "   " current)

/-- The lines of the node at a path and of all nodes below it. The node is at a level of the tree,
and its line comes after `current`. Children are followed as long as there are reports. -/
def lines (t : Trace) (level : Nat) (current : String) (path : Path) : List String :=
  match _hr : t.report? path with
  | none => [current ++ "[L" ++ toString level ++ "] (not evaluated)"]
  | some r =>
      let stem := childStem current
      let below := (List.range r.children).flatMap fun n =>
        t.lines (level + 1) (stem ++ branchTo (n + 1 == r.children)) (path ++ [n])
      (current ++ r.line level) :: r.errorLines stem ++ below
termination_by t.levels - path.length
decreasing_by
  have hlt := length_lt_levels _hr
  simp only [List.length_append, List.length_singleton]
  omega

/-- The tree of all nodes from the root on. -/
def render (t : Trace) : String :=
  let all := match t.report? [] with
    | some root =>
        ("EXECUTION TRACE for '" ++ root.title ++ "':")
          :: String.ofList (List.replicate 50 '-') :: t.lines 1 "" []
    | none => ["Error: nothing was evaluated"]
  String.join (all.map fun line => line ++ "\n")

end Trace

end PanelQuery
