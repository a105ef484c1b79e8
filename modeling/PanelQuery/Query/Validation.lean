import PanelQuery.Query.Path
import PanelQuery.Step.Kind

/-! # Validation

What makes a tree unfit for evaluation, which is told before any of it is computed.

* **`Violation`** — what is wrong, and where;
* **`Node.violations`** — everything that is wrong with a tree. -/

namespace PanelQuery

/-- What is wrong with a tree at some node. -/
inductive Violation.Cause where
  /-- The tree is deeper than the limit. -/
  | tooDeep (depth limit : Nat)
  /-- The kind needs another number of children. -/
  | arity (kind : NodeKind) (required found : Nat)
  /-- A leaf for whose kind there is no step. -/
  | noLeafStep (kind : NodeKind)
  deriving DecidableEq, Repr

/-- What is wrong, and where. -/
structure Violation where
  path : Path
  cause : Violation.Cause
  deriving DecidableEq, Repr

/-- The text of a violation. -/
def Violation.message (v : Violation) : String :=
  match v.cause with
  | .tooDeep depth limit =>
      "tree depth " ++ toString depth ++ " exceeds the limit of " ++ toString limit
  | .arity kind required found =>
      kind.label ++ " needs exactly " ++ toString required ++ " children, found " ++ toString found
  | .noLeafStep kind => kind.label ++ " node has no children and no computation step"

namespace Node

/-- What is wrong with one node: its number of children, and, if it is a leaf, that its kind has no
step. -/
def causes (table : StepTable) (n : Node) : List Violation.Cause :=
  let arity := match n.kind.requiredChildren? with
    | some required =>
        if n.children.length = required then []
        else [.arity n.kind required n.children.length]
    | none => []
  let leaf := if n.isLeaf && !table.hasStepFor n.kind then [.noLeafStep n.kind] else []
  arity ++ leaf

/-- `violationsAt table root path`: what is wrong with the node at a path. -/
def violationsAt (table : StepTable) (root : Node) (path : Path) : List Violation :=
  match root.at? path with
  | some n => (n.causes table).map fun cause => ⟨path, cause⟩
  | none => []

/-- Everything that is wrong with a tree: its depth first, then its nodes, children before their
parent. -/
def violations (table : StepTable) (limit : Nat) (root : Node) : List Violation :=
  let deep := if limit < root.depth then [⟨[], .tooDeep root.depth limit⟩] else []
  deep ++ root.postOrder.flatMap (root.violationsAt table)

end Node

end PanelQuery
