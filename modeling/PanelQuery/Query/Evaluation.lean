import PanelQuery.Query.Progress
import PanelQuery.Query.Title
import PanelQuery.Query.Trace
import PanelQuery.Query.Validation
import PanelQuery.Step.Computation

/-! # Evaluation

A query from its leaves to its root. What goes wrong at a node is written on the trail of its
result; only a malformed tree, a cancelled request and a computation that cannot go on end the
evaluation.

* **`Engine`** — the step table, the settings, the sources and the platform;
* **`Engine.complete`** — a node whose children are complete;
* **`Engine.evaluate`** — a node with all below it, whose path is kept in a buffer: children in turn
  share it, and children that may be evaluated at the same time have copies;
* **`Engine.execute`** — a whole query, once it is valid. -/

namespace PanelQuery

/-! ### Results -/

/-- Why a query has no result. -/
inductive QueryError where
  | malformed (violations : List Violation)
  /-- A leaf whose kind has no step. -/
  | noStep (kind : NodeKind)
  | cancelled
  /-- A step that the whole computation ends at, and that leaves no message. -/
  | stopped
  deriving DecidableEq, Repr

/-- The text of a query error. -/
def QueryError.message : QueryError → String
  | malformed vs => "invalid execution tree: " ++ "; ".intercalate (vs.map Violation.message)
  | noStep kind => "no computation step for childless " ++ kind.label ++ " node"
  | cancelled => "request cancelled"
  | stopped => "computation stopped"

/-- What a complete node gives to its parent. -/
structure Outcome where
  panel : Panel Float
  title : String
  /-- The reports of the node and of all below it. -/
  trace : Trace

/-- What an evaluation came to, and the titles of the nodes that were completed on the way. -/
structure Run (β : Type) where
  completed : List String
  result : Except QueryError β

/-- What evaluates queries. -/
structure Engine where
  table : StepTable := .standard
  settings : Settings := {}
  sources : Sources
  platform : Platform := {}

namespace Engine

/-! ### One node -/

/-- `stepOf e n`: the step of a node, and the notes on it. A node without step passes its first
input on, unless it is a leaf. -/
def stepOf (e : Engine) (n : Node) : Except QueryError (Step × List String) :=
  match e.table.resolve? n with
  | some kind =>
      let (step, notes) := kind.prepare n e.settings
      .ok (step, notes.map Note.message)
  | none =>
      if n.isLeaf then .error (.noStep n.kind)
      else .ok (.identity, ["no computation step found for " ++ n.kind.label ++ " node"])

/-- `attempt e n step inputs`: the panel that a step makes of the inputs. When it fails, the first
input stands in for it, with a note. -/
def attempt (e : Engine) (n : Node) (step : Step) (inputs : List (Panel Float)) :
    Except QueryError (Panel Float × List String) :=
  match step.compute e.platform e.sources inputs with
  | .ok panel => .ok (panel, [])
  | .error .cancelled => .error .cancelled
  | .error .stopped => .error .stopped
  | .error cause => .ok (inputs.headD .empty, [n.phrase ++ ": " ++ cause.message])

/-- `added inherited problems`: the problems that are new at a node, each once. -/
def added (inherited problems : List String) : List String :=
  (problems.filter fun m => !inherited.contains m).eraseDups

/-- `complete e path n children`: the outcome of a node, given those of its children. -/
def complete (e : Engine) (path : Path) (n : Node) (children : List Outcome) :
    Except QueryError Outcome := do
  let (step, notes) ← e.stepOf n
  let inputs := children.map Outcome.panel
  let (panel, failure) ← e.attempt n step inputs
  let inherited := inputs.flatMap Panel.errors
  let new := added inherited (panel.errors ++ notes ++ failure)
  let title := n.title (children.map Outcome.title)
  let report : NodeReport :=
    { path, kind := n.kind, title, step := step.name, state := .done
      children := n.children.length, entities := panel.entities.length, errors := new }
  return {
    panel := { panel with title, errors := inherited ++ new }
    title
    trace := children.flatMap Outcome.trace ++ [report] }

/-! ### Trees -/

mutual

/-- `evaluate e buffer`: the outcome of a node, after those of all below it. The buffer holds the
path of the node, and is handed back. -/
def evaluate (e : Engine) (buffer : Path) : Node → Run Outcome × Path
  | ⟨kind, arguments, children⟩ =>
      let (below, buffer) :=
        if e.settings.parallel ∧ 1 < children.length then
          (e.evaluateForked buffer 0 children, buffer)
        else e.evaluateInTurn buffer 0 children
      match below.result with
      | .error cause => (⟨below.completed, .error cause⟩, buffer)
      | .ok outcomes =>
          match e.complete buffer ⟨kind, arguments, children⟩ outcomes with
          | .error cause => (⟨below.completed, .error cause⟩, buffer)
          | .ok outcome => (⟨below.completed ++ [outcome.title], .ok outcome⟩, buffer)

/-- The outcomes of children in turn, of which the first is at place `n`, up to the first that has
none. Each pushes its place on the one buffer, and it is popped again. -/
def evaluateInTurn (e : Engine) (buffer : Path) (n : Nat) :
    List Node → Run (List Outcome) × Path
  | [] => (⟨[], .ok []⟩, buffer)
  | child :: rest =>
      let (first, buffer) := e.evaluate (buffer ++ [n]) child
      let buffer := buffer.dropLast
      match first.result with
      | .error cause => (⟨first.completed, .error cause⟩, buffer)
      | .ok outcome =>
          let (others, buffer) := e.evaluateInTurn buffer (n + 1) rest
          (⟨first.completed ++ others.completed, others.result.map (outcome :: ·)⟩, buffer)

/-- `evaluateForked e base n`: the outcomes of children that may be evaluated at the same time, here
one after the other. Each pushes its place on a copy of the buffer. -/
def evaluateForked (e : Engine) (base : Path) (n : Nat) : List Node → Run (List Outcome)
  | [] => ⟨[], .ok []⟩
  | child :: rest =>
      let (first, _) := e.evaluate (base ++ [n]) child
      match first.result with
      | .error cause => ⟨first.completed, .error cause⟩
      | .ok outcome =>
          let others := e.evaluateForked base (n + 1) rest
          ⟨first.completed ++ others.completed, others.result.map (outcome :: ·)⟩

end

/-! ### Queries -/

/-- `progressOf total completed`: the messages on nodes that were completed one after the other. -/
def progressOf (total : Nat) (completed : List String) : List Progress :=
  completed.zipIdx.map fun (title, n) =>
    ⟨title, Scalar.ofNat (n + 1) / Scalar.ofNat (max total 1)⟩

/-- `retitled outcome title`: a result and its trace under another title, which is also that of the
root's report. -/
def retitled (outcome : Outcome) (title : String) : Panel Float × Trace :=
  ({ outcome.panel with title },
    outcome.trace.dropLast ++ outcome.trace.getLast?.toList.map fun r => { r with title })

/-- What the evaluation of a query came to, and the messages on its progress. -/
structure Execution where
  progress : List Progress
  result : Except QueryError (Panel Float × Trace)

/-- `execute e root title`: evaluates a query, unless it is malformed. Its result may be given a
title. -/
def execute (e : Engine) (root : Node) (title : Option String) : Execution :=
  match root.violations e.table e.settings.maxDepth with
  | [] =>
      let whole := (e.evaluate [] root).1
      let result := whole.result.map fun outcome =>
        match title with
        | some title => retitled outcome title
        | none => (outcome.panel, outcome.trace)
      ⟨progressOf root.count whole.completed, result⟩
  | violations => ⟨[], .error (.malformed violations)⟩

end Engine

end PanelQuery
