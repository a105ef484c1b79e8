import Mathlib.Data.List.Nodup
import PanelQuery.Query.Path

/-! # Nodes and their paths

How the paths of a query follow its tree.

* **`Node.induction`** — what passes from children to their parent holds of all nodes;
* **`Node.at?_append`** — a path after a path;
* **`Node.postOrder_eq`, `Node.mem_postOrder`** — the paths of a node from those of its children;
* **`Node.postOrder_nodup`, `Node.length_postOrder`** — each node has one path. -/

namespace PanelQuery.Node

/-- **Induction on a query**: what holds of a node as soon as it holds of its children holds of all
nodes. `motive n`. -/
@[elab_as_elim]
theorem induction {motive : Node → Prop}
    (node : ∀ n : Node, (∀ child ∈ n.children, motive child) → motive n) (n : Node) :
    motive n := by
  cases n with
  | mk kind arguments children => exact node _ fun child _ => induction node child

/-- `root.at? [] = some root`: the path of no step leads to the root. -/
@[simp] theorem at?_nil (root : Node) : root.at? [] = some root := by
  rw [at?]

/-- `root.at? (i :: path) = root.children[i]?.bind fun child => child.at? path`: a path through a
child. -/
@[simp] theorem at?_cons (root : Node) (i : Nat) (path : Path) :
    root.at? (i :: path) = root.children[i]?.bind fun child => child.at? path := by
  rw [at?]

/-- **A path after a path** leads on from the node that the first one leads to:
`root.at? (p ++ q) = (root.at? p).bind fun n => n.at? q`. -/
theorem at?_append (root : Node) (p q : Path) :
    root.at? (p ++ q) = (root.at? p).bind fun n => n.at? q := by
  induction p generalizing root with
  | nil => rw [List.nil_append, at?_nil, Option.bind_some]
  | cons i p ih =>
    rw [List.cons_append, at?_cons, at?_cons, Option.bind_assoc]
    exact Option.bind_congr fun child _ => ih child

/-- `root.at? (path ++ [i]) = n.children[i]?`: one step on from a node. -/
theorem at?_concat {root n : Node} {path : Path} (hn : root.at? path = some n) (i : Nat) :
    root.at? (path ++ [i]) = n.children[i]? := by
  simp only [at?_append, hn, Option.bind_some, at?_cons, at?_nil, Option.bind_fun_some]

/-- The paths of children by their places:
`postOrderFrom i ns = (ns.zipIdx i).flatMap fun child => child.1.postOrder.map (child.2 :: ·)`. -/
theorem postOrderFrom_eq (i : Nat) (ns : List Node) :
    postOrderFrom i ns =
      (ns.zipIdx i).flatMap fun child => child.1.postOrder.map (child.2 :: ·) := by
  induction ns generalizing i with
  | nil => rw [postOrderFrom, List.zipIdx_nil, List.flatMap_nil]
  | cons child rest ih => rw [postOrderFrom, List.zipIdx_cons, List.flatMap_cons, ih]

/-- **The paths of a node**: those through its children, then its own. `n.postOrder` is
`(n.children.zipIdx.flatMap fun child => child.1.postOrder.map (child.2 :: ·)) ++ [[]]`. -/
theorem postOrder_eq (n : Node) :
    n.postOrder =
      (n.children.zipIdx.flatMap fun child => child.1.postOrder.map (child.2 :: ·)) ++ [[]] := by
  cases n with
  | mk kind arguments children => rw [postOrder, postOrderFrom_eq]

/-- **All nodes are listed**, and nothing else is:
`path ∈ root.postOrder ↔ ∃ n, root.at? path = some n`. -/
theorem mem_postOrder {root : Node} {path : Path} :
    path ∈ root.postOrder ↔ ∃ n, root.at? path = some n := by
  induction root using induction generalizing path with
  | node root ih =>
    rw [postOrder_eq, List.mem_append, List.mem_flatMap, List.mem_singleton]
    cases path with
    | nil => exact iff_of_true (.inr rfl) ⟨root, at?_nil root⟩
    | cons i path =>
      constructor
      · rintro (⟨⟨child, j⟩, hchild, hpath⟩ | hpath)
        · -- a path through the child at place `j`, which is `i`
          obtain ⟨below, hbelow, heq⟩ := List.mem_map.1 hpath
          obtain ⟨rfl, rfl⟩ := List.cons.inj heq
          have hj := List.mem_zipIdx_iff_getElem?.1 hchild
          rw [at?_cons, hj, Option.bind_some]
          exact (ih child (List.mem_of_getElem? hj)).1 hbelow
        · cases hpath
      · rintro ⟨n, hn⟩
        obtain ⟨child, hchild, hn⟩ := Option.bind_eq_some_iff.1 (at?_cons .. ▸ hn)
        refine .inl ⟨(child, i), List.mem_zipIdx_iff_getElem?.2 hchild, ?_⟩
        exact List.mem_map_of_mem ((ih child (List.mem_of_getElem? hchild)).2 ⟨n, hn⟩)

/-- **No path is listed twice**: `n.postOrder.Nodup`. -/
theorem postOrder_nodup (n : Node) : n.postOrder.Nodup := by
  induction n using induction with
  | node n ih =>
    rw [postOrder_eq]
    refine List.Nodup.append (List.nodup_flatMap.2 ⟨fun child hchild => ?_, ?_⟩)
      (List.nodup_singleton _) ?_
    · have hmem := List.mem_of_getElem? (List.mem_zipIdx_iff_getElem?.1 hchild)
      exact (ih child.1 hmem).map fun _ _ heq => (List.cons.inj heq).2
    · -- paths through children at different places begin differently
      have hplaces : (n.children.zipIdx.map Prod.snd).Nodup := by
        rw [List.zipIdx_map_snd]
        exact List.nodup_range'
      refine (List.pairwise_map.1 hplaces).imp fun hne path hleft hright => hne ?_
      obtain ⟨p, -, rfl⟩ := List.mem_map.1 hleft
      obtain ⟨q, -, heq⟩ := List.mem_map.1 hright
      exact (List.cons.inj heq).1.symm
    · intro path hpath hroot
      obtain ⟨child, -, hpath⟩ := List.mem_flatMap.1 hpath
      obtain ⟨p, -, rfl⟩ := List.mem_map.1 hpath
      cases List.mem_singleton.1 hroot

/-- `(postOrderFrom i ns).length = countAll ns`: there are as many paths of children as nodes, where
that holds of each child. -/
theorem length_postOrderFrom {ns : List Node} (h : ∀ n ∈ ns, n.postOrder.length = n.count)
    (i : Nat) : (postOrderFrom i ns).length = countAll ns := by
  induction ns generalizing i with
  | nil => rfl
  | cons n ns ih =>
    obtain ⟨hn, hns⟩ := List.forall_mem_cons.1 h
    rw [postOrderFrom, countAll, List.length_append, List.length_map, hn, ih hns]

/-- **There are as many paths as nodes**: `n.postOrder.length = n.count`. -/
theorem length_postOrder (n : Node) : n.postOrder.length = n.count := by
  induction n using induction with
  | node n ih =>
    cases n with
    | mk kind arguments children =>
      rw [postOrder, count, List.length_append, length_postOrderFrom ih, Nat.add_comm]
      rfl

end PanelQuery.Node
