import Mathlib.Data.List.Perm.Basic
import Mathlib.Order.Bounds.Defs
import PanelQuery.Proofs.Query.Paths

/-! # The order of nodes

In which order the paths of a query are listed, and how long they are.

* **`Path.Below`, `Path.LeftOf`** — a path to a node below another, and a path to an earlier child;
* **`Path.CompletesBefore`** — children before their parent, and in order;
* **`Node.pairwise_throughChildren`** — what holds of the paths of each child and of the paths of
  different children holds of all paths through children;
* **`Node.PostOrdered`, `Node.postOrdered`** — the paths in order of completion;
* **`Node.preOrder`** — the paths with parents before their children. -/

namespace PanelQuery

/-! ## (1) Two paths -/

namespace Path

variable {p q : Path} {i j : Nat}

/-- `Below p q`: the path leads on from the node at another one. -/
def Below (p q : Path) : Prop := ∃ i rest, p = q ++ i :: rest

/-- `LeftOf p q`: the paths part at some node, and this one goes to an earlier child of it. -/
def LeftOf (p q : Path) : Prop := ∃ shared i j p' q', i < j ∧ p = shared ++ i :: p' ∧
  q = shared ++ j :: q'

/-- The node at one path is complete before the one at another: it is below it, or both are below
children of one node, of which the first comes before the second. -/
def CompletesBefore (p q : Path) : Prop := p.Below q ∨ p.LeftOf q

/-- Every other node is below the root: `Below (i :: p) []`. -/
theorem below_nil (i : Nat) (p : Path) : Below (i :: p) [] := ⟨i, p, rfl⟩

/-- What is below a node stays below it when both are reached through a child:
`Below (i :: p) (i :: q)`. -/
theorem Below.cons (h : p.Below q) (i : Nat) : Below (i :: p) (i :: q) := by
  obtain ⟨j, rest, rfl⟩ := h
  exact ⟨j, rest, rfl⟩

/-- Paths that part in a child part: `LeftOf (i :: p) (i :: q)`. -/
theorem LeftOf.cons (h : p.LeftOf q) (i : Nat) : LeftOf (i :: p) (i :: q) := by
  obtain ⟨shared, j, k, p', q', hjk, rfl, rfl⟩ := h
  exact ⟨i :: shared, j, k, p', q', hjk, rfl, rfl⟩

/-- Paths through different children part at once: `LeftOf (i :: p) (j :: q)`. -/
theorem leftOf_of_lt (h : i < j) (p q : Path) : LeftOf (i :: p) (j :: q) :=
  ⟨[], i, j, p, q, h, rfl, rfl⟩

end Path

namespace Node

/-! ## (2) Paths through children -/

/-- `throughChildren paths n`: the paths that lead through children, of which each is given some
paths. -/
def throughChildren (paths : Node → List Path) (n : Node) : List Path :=
  n.children.zipIdx.flatMap fun child => (paths child.1).map (child.2 :: ·)

/-- `n.postOrder = throughChildren postOrder n ++ [[]]`: the paths of a node in order of
completion. -/
theorem postOrder_eq_throughChildren (n : Node) :
    n.postOrder = throughChildren postOrder n ++ [[]] :=
  n.postOrder_eq

/-- No path through a child is that of the node itself: `∃ i below, p = i :: below`. -/
theorem exists_cons_of_mem_throughChildren {paths : Node → List Path} {n : Node} {p : Path}
    (hp : p ∈ throughChildren paths n) : ∃ i below, p = i :: below := by
  obtain ⟨child, -, hp⟩ := List.mem_flatMap.1 hp
  obtain ⟨below, -, rfl⟩ := List.mem_map.1 hp
  exact ⟨child.2, below, rfl⟩

/-- **Paths through children are in order** if those of each child are, whatever the order, as long
as it is that of the children and does not depend on where a path begins:
`(throughChildren paths n).Pairwise R`. -/
theorem pairwise_throughChildren {R : Path → Path → Prop} {paths : Node → List Path} {n : Node}
    (hcons : ∀ i p q, R p q → R (i :: p) (i :: q))
    (hlt : ∀ i j p q, i < j → R (i :: p) (j :: q))
    (hchildren : ∀ child ∈ n.children, (paths child).Pairwise R) :
    (throughChildren paths n).Pairwise R := by
  refine List.pairwise_flatMap.2 ⟨fun child hchild => ?_, ?_⟩
  · have hmem := List.mem_of_getElem? (List.mem_zipIdx_iff_getElem?.1 hchild)
    exact List.pairwise_map.2 ((hchildren child.1 hmem).imp fun h => hcons child.2 _ _ h)
  · have hplaces : (n.children.zipIdx.map Prod.snd).Pairwise (· < ·) := by
      rw [List.zipIdx_map_snd]
      exact List.pairwise_lt_range'
    refine (List.pairwise_map.1 hplaces).imp fun hij p hp q hq => ?_
    obtain ⟨p, -, rfl⟩ := List.mem_map.1 hp
    obtain ⟨q, -, rfl⟩ := List.mem_map.1 hq
    exact hlt _ _ p q hij

/-- The paths of a node are listed in order of completion:
`n.postOrder.Pairwise Path.CompletesBefore`. -/
theorem pairwise_postOrder (n : Node) : n.postOrder.Pairwise Path.CompletesBefore := by
  induction n using induction with
  | node n ih =>
    rw [postOrder_eq_throughChildren]
    refine List.pairwise_append.2 ⟨?_, List.pairwise_singleton _ _, ?_⟩
    · refine pairwise_throughChildren (fun i p q h => ?_) (fun i j p q hij => ?_) ih
      · exact h.imp (·.cons i) (·.cons i)
      · exact .inr (Path.leftOf_of_lt hij p q)
    · intro p hp root hroot
      obtain ⟨i, below, rfl⟩ := exists_cons_of_mem_throughChildren hp
      rw [List.mem_singleton.1 hroot]
      exact .inl (Path.below_nil i below)

/-! ## (3) The length of paths -/

/-- No child is deeper than all children together: `n.depth ≤ depthAll ns`. -/
theorem depth_le_depthAll {ns : List Node} {n : Node} (hn : n ∈ ns) : n.depth ≤ depthAll ns := by
  induction ns with
  | nil => cases hn
  | cons first rest ih =>
    rw [depthAll]
    rcases List.mem_cons.1 hn with rfl | hn
    · exact Nat.le_max_left _ _
    · exact Nat.le_trans (ih hn) (Nat.le_max_right _ _)

/-- `depthAll ns = 0 ∨ ∃ n ∈ ns, n.depth = depthAll ns`: some child is as deep as all children
together, unless there is none. -/
theorem exists_depth_eq_depthAll (ns : List Node) :
    depthAll ns = 0 ∨ ∃ n ∈ ns, n.depth = depthAll ns := by
  induction ns with
  | nil => exact .inl rfl
  | cons first rest ih =>
    rw [depthAll]
    rcases Nat.le_total (depthAll rest) first.depth with hle | hle
    · exact .inr ⟨first, List.mem_cons_self, (Nat.max_eq_left hle).symm⟩
    · rw [Nat.max_eq_right hle]
      exact ih.imp_right fun ⟨n, hn, hdepth⟩ => ⟨n, List.mem_cons_of_mem _ hn, hdepth⟩

/-- `n.depth = 1 + depthAll n.children`: the depth of a node is one more than that of its
children. -/
theorem depth_eq (n : Node) : n.depth = 1 + depthAll n.children := by
  cases n with
  | mk kind arguments children => rw [depth]

/-- A path is shorter than the query is deep: `path.length < root.depth`. -/
theorem length_lt_depth {root n : Node} {path : Path} (hn : root.at? path = some n) :
    path.length < root.depth := by
  induction path generalizing root with
  | nil =>
    rw [depth_eq, List.length_nil]
    omega
  | cons i path ih =>
    obtain ⟨child, hchild, hn⟩ := Option.bind_eq_some_iff.1 (at?_cons .. ▸ hn)
    have hle := depth_le_depthAll (List.mem_of_getElem? hchild)
    have hlt := ih hn
    rw [depth_eq, List.length_cons]
    omega

/-- Some path leads to the deepest node:
`∃ path n, root.at? path = some n ∧ path.length + 1 = root.depth`. -/
theorem exists_length_eq_depth (root : Node) :
    ∃ path n, root.at? path = some n ∧ path.length + 1 = root.depth := by
  induction root using induction with
  | node root ih =>
    rcases exists_depth_eq_depthAll root.children with hleaf | ⟨child, hchild, hdepth⟩
    · exact ⟨[], root, at?_nil root, by rw [depth_eq, hleaf, List.length_nil, Nat.add_comm]⟩
    · obtain ⟨i, hi⟩ := List.mem_iff_getElem?.1 hchild
      obtain ⟨path, n, hn, hlength⟩ := ih child hchild
      refine ⟨i :: path, n, ?_, ?_⟩
      · rw [at?_cons, hi, Option.bind_some, hn]
      · rw [depth_eq, ← hdepth, List.length_cons]
        omega

/-! ## (4) The listing -/

/-- Paths that list the nodes of a query in order of completion. -/
structure PostOrdered (root : Node) (paths : List Path) : Prop where
  nodup : paths.Nodup
  /-- They are the paths that lead to nodes. -/
  mem_iff : ∀ path, path ∈ paths ↔ (root.at? path).isSome
  order : paths.Pairwise Path.CompletesBefore
  length : paths.length = root.count
  longest : IsGreatest {k | ∃ path ∈ paths, path.length = k} (root.depth - 1)

/-- **The nodes of a query are listed** one by one in order of completion:
`root.PostOrdered root.postOrder`. -/
theorem postOrdered (root : Node) : root.PostOrdered root.postOrder where
  nodup := root.postOrder_nodup
  mem_iff path := mem_postOrder.trans Option.isSome_iff_exists.symm
  order := root.pairwise_postOrder
  length := root.length_postOrder
  longest := by
    constructor
    · obtain ⟨path, n, hn, hlength⟩ := root.exists_length_eq_depth
      exact ⟨path, mem_postOrder.2 ⟨n, hn⟩, by omega⟩
    · rintro _ ⟨path, hpath, rfl⟩
      obtain ⟨n, hn⟩ := mem_postOrder.1 hpath
      have hlt := length_lt_depth hn
      omega

/-! ## (5) Parents first -/

mutual

/-- All paths, a parent before its children and these in order. -/
def preOrder : Node → List Path
  | ⟨_, _, children⟩ => [] :: preOrderFrom 0 children

/-- The paths of children, of which the first is at place `n`. -/
def preOrderFrom (n : Nat) : List Node → List Path
  | [] => []
  | child :: rest => child.preOrder.map (n :: ·) ++ preOrderFrom (n + 1) rest

end

/-- The paths of children by their places:
`preOrderFrom i ns = (ns.zipIdx i).flatMap fun child => child.1.preOrder.map (child.2 :: ·)`. -/
theorem preOrderFrom_eq (i : Nat) (ns : List Node) :
    preOrderFrom i ns =
      (ns.zipIdx i).flatMap fun child => child.1.preOrder.map (child.2 :: ·) := by
  induction ns generalizing i with
  | nil => rw [preOrderFrom, List.zipIdx_nil, List.flatMap_nil]
  | cons child rest ih => rw [preOrderFrom, List.zipIdx_cons, List.flatMap_cons, ih]

/-- `n.preOrder = [] :: throughChildren preOrder n`: the paths of a node, its own first. -/
theorem preOrder_eq (n : Node) : n.preOrder = [] :: throughChildren preOrder n := by
  cases n with
  | mk kind arguments children => rw [preOrder, preOrderFrom_eq, throughChildren]

/-- What paths are mapped to, child by child. -/
theorem flatMap_preOrder {β : Type} (n : Node) (f : Path → List β) :
    n.preOrder.flatMap f = f [] ++ (List.range n.children.length).flatMap fun i =>
      (n.children[i]?.map fun child =>
        child.preOrder.flatMap fun below => f (i :: below)).getD [] := by
  rw [preOrder_eq, List.flatMap_cons, throughChildren, List.flatMap_assoc, List.range_eq_range',
    ← List.zipIdx_map_snd, List.flatMap_map]
  refine congrArg (f [] ++ ·) (List.flatMap_congr fun child hchild => ?_)
  rw [List.mem_zipIdx_iff_getElem?.1 hchild, Option.map_some, Option.getD_some, List.flatMap_map]

/-- Both orders list the same paths: `n.preOrder.Perm n.postOrder`. -/
theorem preOrder_perm_postOrder (n : Node) : n.preOrder.Perm n.postOrder := by
  induction n using induction with
  | node n ih =>
    rw [preOrder_eq, postOrder_eq_throughChildren]
    refine (List.Perm.cons [] ?_).trans (List.perm_append_singleton [] _).symm
    refine List.Perm.flatMap_left _ fun child hchild => ?_
    exact (ih child.1 (List.mem_of_getElem? (List.mem_zipIdx_iff_getElem?.1 hchild))).map _

/-- **Parents come first**, and children in order:
`n.preOrder.Pairwise fun p q => q.Below p ∨ p.LeftOf q`. -/
theorem pairwise_preOrder (n : Node) :
    n.preOrder.Pairwise fun p q => q.Below p ∨ p.LeftOf q := by
  induction n using induction with
  | node n ih =>
    rw [preOrder_eq, List.pairwise_cons]
    refine ⟨fun p hp => ?_, pairwise_throughChildren (fun i p q h => ?_) (fun i j p q hij => ?_) ih⟩
    · obtain ⟨i, below, rfl⟩ := exists_cons_of_mem_throughChildren hp
      exact .inl (Path.below_nil i below)
    · exact h.imp (·.cons i) (·.cons i)
    · exact .inr (Path.leftOf_of_lt hij p q)

end Node

end PanelQuery
