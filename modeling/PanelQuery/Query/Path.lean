import PanelQuery.Query.Node

/-! # Paths in a query

A path leads from the root to a node by the places of the children on the way.

* **`Node.count`, `Node.depth`** — the number of nodes, and the length of the longest chain;
* **`Node.postOrder`** — all paths, those of children before that of their parent;
* **`Node.at?`** — the node at a path. -/

namespace PanelQuery

/-- The places of children from the root on. -/
abbrev Path := List Nat

namespace Node

mutual

/-- The number of nodes. -/
def count : Node → Nat
  | ⟨_, _, children⟩ => 1 + countAll children

/-- The number of nodes of several trees. -/
def countAll : List Node → Nat
  | [] => 0
  | child :: rest => child.count + countAll rest

end

mutual

/-- The number of nodes on the longest way from the root to a leaf. -/
def depth : Node → Nat
  | ⟨_, _, children⟩ => 1 + depthAll children

/-- The greatest depth of several trees. -/
def depthAll : List Node → Nat
  | [] => 0
  | child :: rest => max child.depth (depthAll rest)

end

mutual

/-- All paths, children before their parent and in order. -/
def postOrder : Node → List Path
  | ⟨_, _, children⟩ => postOrderFrom 0 children ++ [[]]

/-- The paths of children, of which the first is at place `n`. -/
def postOrderFrom (n : Nat) : List Node → List Path
  | [] => []
  | child :: rest => child.postOrder.map (n :: ·) ++ postOrderFrom (n + 1) rest

end

/-- The node at a path. -/
def at? (root : Node) : Path → Option Node
  | [] => some root
  | n :: path => root.children[n]?.bind fun child => child.at? path

end Node

end PanelQuery
