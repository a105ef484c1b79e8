import Mathlib.Data.List.Forall2
import PanelQuery.Proofs.Meets
import PanelQuery.Proofs.Query.Paths
import PanelQuery.Query.Evaluation

/-! # Evaluation without buffers

The path of a node is all that its buffer is for. Here the same evaluation is told with the paths
themselves: `Engine.run` is given the path of a node. Whether children share a buffer or have copies
makes no difference to it, and a buffer that is shared is handed back as it was.

* **`Engine.run`, `Engine.runAll`** — a node with all below it, and children in turn, by their paths;
* **`Engine.evaluate_eq`** — evaluation is that, and hands its buffer back;
* **`Outcome.AtPlaces`** — the outcomes of children, each at its place;
* **`Engine.run_eq_ok`, `Engine.run_at?`** — the outcome of a node and those of the nodes below it;
* **`Engine.outcomeAt?`** — what the node at a path of a query comes to. -/

namespace PanelQuery

/-! ## (1) Evaluation by paths -/

namespace Engine

mutual

/-- `run e path`: the outcome of a node, after those of all below it. -/
def run (e : Engine) (path : Path) : Node → Run Outcome
  | ⟨kind, arguments, children⟩ =>
      let below := e.runAll path 0 children
      match below.result with
      | .error cause => ⟨below.completed, .error cause⟩
      | .ok outcomes =>
          match e.complete path ⟨kind, arguments, children⟩ outcomes with
          | .error cause => ⟨below.completed, .error cause⟩
          | .ok outcome => ⟨below.completed ++ [outcome.title], .ok outcome⟩

/-- The outcomes of children, of which the first is at place `n`, up to the first that has none. -/
def runAll (e : Engine) (path : Path) (n : Nat) : List Node → Run (List Outcome)
  | [] => ⟨[], .ok []⟩
  | child :: rest =>
      let first := e.run (path ++ [n]) child
      match first.result with
      | .error cause => ⟨first.completed, .error cause⟩
      | .ok outcome =>
          let others := e.runAll path (n + 1) rest
          ⟨first.completed ++ others.completed, others.result.map (outcome :: ·)⟩

end

mutual

/-- **Evaluation is told by paths alone**: `evaluate` gives what `run` does at the path that the
buffer holds, and leaves the buffer as it was. -/
theorem evaluate_eq (e : Engine) (path : Path) (n : Node) :
    e.evaluate path n = (e.run path n, path) := by
  cases n with
  | mk kind arguments children =>
    rw [evaluate, run]
    -- the children have copies of the buffer, or share it
    have hbelow : (if e.settings.parallel ∧ 1 < children.length then
        (e.evaluateForked path 0 children, path) else e.evaluateInTurn path 0 children) =
        (e.runAll path 0 children, path) := by
      rw [evaluateForked_eq, evaluateInTurn_eq, ite_self]
    rw [hbelow]
    dsimp only
    cases (e.runAll path 0 children).result with
    | error cause => rfl
    | ok outcomes =>
      dsimp only
      cases e.complete path ⟨kind, arguments, children⟩ outcomes <;> rfl

/-- `e.evaluateInTurn path n ns = (e.runAll path n ns, path)`: children in turn on one buffer, each
pushes its place, which is popped again. -/
theorem evaluateInTurn_eq (e : Engine) (path : Path) (n : Nat) (ns : List Node) :
    e.evaluateInTurn path n ns = (e.runAll path n ns, path) := by
  cases ns with
  | nil => rw [evaluateInTurn, runAll]
  | cons child rest =>
    rw [evaluateInTurn, runAll, evaluate_eq e (path ++ [n]) child]
    dsimp only
    rw [List.dropLast_concat, evaluateInTurn_eq e path (n + 1) rest]
    cases (e.run (path ++ [n]) child).result <;> rfl

/-- `e.evaluateForked path n ns = e.runAll path n ns`: children on copies of a buffer. -/
theorem evaluateForked_eq (e : Engine) (path : Path) (n : Nat) (ns : List Node) :
    e.evaluateForked path n ns = e.runAll path n ns := by
  cases ns with
  | nil => rw [evaluateForked, runAll]
  | cons child rest =>
    rw [evaluateForked, runAll, evaluate_eq e (path ++ [n]) child]
    dsimp only
    cases (e.run (path ++ [n]) child).result with
    | error cause => rfl
    | ok outcome =>
      dsimp only
      rw [evaluateForked_eq e path (n + 1) rest]

end

end Engine

/-! ## (2) Outcomes at their places -/

namespace Outcome

/-- `AtPlaces rel path os children`: outcomes of children with their places, each in a relation to
the path and the node that it is the outcome of. -/
def AtPlaces (rel : Outcome → Path → Node → Prop) (path : Path) (os : List Outcome)
    (children : List (Node × Nat)) : Prop :=
  List.Forall₂ (fun o child => rel o (path ++ [child.2]) child.1) os children

namespace AtPlaces

variable {rel rel' : Outcome → Path → Node → Prop} {path : Path} {os : List Outcome}
  {children : List (Node × Nat)}

/-- At each place there are an outcome and a child, or neither:
`(os[i]? = none ∧ children[i]? = none)` or
`∃ o child, os[i]? = some o ∧ children[i]? = some child ∧ rel o (path ++ [child.2]) child.1`. -/
theorem getElem? (h : AtPlaces rel path os children) (i : Nat) :
    (os[i]? = none ∧ children[i]? = none) ∨
      ∃ o child, os[i]? = some o ∧ children[i]? = some child ∧
        rel o (path ++ [child.2]) child.1 := by
  induction h generalizing i with
  | nil => exact .inl ⟨rfl, rfl⟩
  | cons ho _ ih =>
    cases i with
    | zero => exact .inr ⟨_, _, rfl, rfl, ho⟩
    | succ i => exact ih i

/-- The relation may be weakened to one that follows from it at each place:
`AtPlaces rel' path os children`. -/
theorem mono (h : AtPlaces rel path os children)
    (himp : ∀ child ∈ children, ∀ o, rel o (path ++ [child.2]) child.1 →
      rel' o (path ++ [child.2]) child.1) : AtPlaces rel' path os children := by
  induction h with
  | nil => exact .nil
  | cons ho _ ih =>
    obtain ⟨hchild, hrest⟩ := List.forall_mem_cons.1 himp
    exact .cons (hchild _ ho) (ih hrest)

/-- The relation may be weakened to one that follows from it for each of the children:
`AtPlaces rel' path os (ns.zipIdx k)`. -/
theorem imp {ns : List Node} {k : Nat} (h : AtPlaces rel path os (ns.zipIdx k))
    (himp : ∀ n ∈ ns, ∀ path o, rel o path n → rel' o path n) :
    AtPlaces rel' path os (ns.zipIdx k) :=
  h.mono fun child hchild _ ho =>
    himp child.1 (List.fst_mem_of_mem_zipIdx hchild) _ _ ho

/-- Every outcome is one of a child: `∃ child ∈ children, rel o (path ++ [child.2]) child.1`. -/
theorem exists_child (h : AtPlaces rel path os children) {o : Outcome} (ho : o ∈ os) :
    ∃ child ∈ children, rel o (path ++ [child.2]) child.1 := by
  induction h with
  | nil => cases ho
  | cons hchild _ ih =>
    obtain rfl | ho := List.mem_cons.1 ho
    · exact ⟨_, List.mem_cons_self, hchild⟩
    · obtain ⟨child, hmem, hrel⟩ := ih ho
      exact ⟨child, List.mem_cons_of_mem _ hmem, hrel⟩

end AtPlaces

end Outcome

/-! ## (3) Nodes with outcomes -/

namespace Engine

variable {e : Engine} {path : Path} {n : Node} {o : Outcome} {os : List Outcome}

/-- A node has an outcome just when its children have outcomes on which it is complete:
`(e.run path n).result = .ok o` just when
`∃ os, (e.runAll path 0 n.children).result = .ok os ∧ e.complete path n os = .ok o`. -/
theorem run_eq_ok : (e.run path n).result = .ok o ↔
    ∃ os, (e.runAll path 0 n.children).result = .ok os ∧ e.complete path n os = .ok o := by
  cases n with
  | mk kind arguments children =>
    rw [run]
    dsimp only
    cases hos : (e.runAll path 0 children).result with
    | error cause => simp
    | ok os =>
      cases ho : e.complete path ⟨kind, arguments, children⟩ os with
      | error cause => simp [ho]
      | ok o' => simp [ho]

/-- Children that have outcomes have each its own:
`Outcome.AtPlaces (fun o path n => (e.run path n).result = .ok o) path os (ns.zipIdx k)`. -/
theorem runAll_atPlaces {k : Nat} {ns : List Node} (h : (e.runAll path k ns).result = .ok os) :
    Outcome.AtPlaces (fun o path n => (e.run path n).result = .ok o) path os (ns.zipIdx k) := by
  induction ns generalizing k os with
  | nil =>
    rw [runAll] at h
    cases h
    exact .nil
  | cons child rest ih =>
    rw [runAll] at h
    dsimp only at h
    cases hchild : (e.run (path ++ [k]) child).result with
    | error cause =>
      rw [hchild] at h
      cases h
    | ok o =>
      rw [hchild] at h
      obtain ⟨os, hos, rfl⟩ := map_eq_ok.1 h
      exact .cons hchild (ih hos)

/-- At each place there are a child and its outcome, or neither: `(os[i]? = none ∧ ns[i]? = none)`
or there are `o` and `child` with
`os[i]? = some o ∧ ns[i]? = some child ∧ (e.run (path ++ [i]) child).result = .ok o`. -/
theorem runAll_getElem? {ns : List Node} (h : (e.runAll path 0 ns).result = .ok os) (i : Nat) :
    (os[i]? = none ∧ ns[i]? = none) ∨
      ∃ o child, os[i]? = some o ∧ ns[i]? = some child ∧
        (e.run (path ++ [i]) child).result = .ok o := by
  obtain ⟨hos, hnone⟩ | ⟨o, ⟨child, j⟩, hos, hplace, ho⟩ := (runAll_atPlaces h).getElem? i
  · rw [List.getElem?_zipIdx, Option.map_eq_none_iff] at hnone
    exact .inl ⟨hos, hnone⟩
  · rw [List.getElem?_zipIdx, Nat.zero_add] at hplace
    obtain ⟨_, hchild, heq⟩ := Option.map_eq_some_iff.1 hplace
    obtain ⟨rfl, rfl⟩ := Prod.mk.inj heq
    exact .inr ⟨o, _, hos, hchild, ho⟩

/-- **The nodes of a query that has an outcome have outcomes themselves**:
`∃ o, (e.run (path ++ below) n).result = .ok o`. -/
theorem run_at? {root : Node} (h : (e.run path root).result = .ok o) {below : Path}
    (hn : root.at? below = some n) : ∃ o, (e.run (path ++ below) n).result = .ok o := by
  induction below generalizing path root o with
  | nil =>
    obtain rfl := Option.some.inj (root.at?_nil ▸ hn)
    exact ⟨o, by rw [List.append_nil, h]⟩
  | cons i below ih =>
    obtain ⟨child, hchild, hn⟩ := Option.bind_eq_some_iff.1 (root.at?_cons i below ▸ hn)
    obtain ⟨os, hos, -⟩ := run_eq_ok.1 h
    obtain ⟨-, hnone⟩ | ⟨o, child', -, hchild', ho⟩ := runAll_getElem? hos i
    · cases hchild.symm.trans hnone
    · obtain rfl := Option.some.inj (hchild.symm.trans hchild')
      rw [List.append_cons]
      exact ih ho hn

/-- `outcomeAt? e root path`: what the node at a path of a query comes to. -/
def outcomeAt? (e : Engine) (root : Node) (path : Path) : Option Outcome :=
  (root.at? path).bind fun n => (e.run path n).result.toOption

/-- `e.outcomeAt? root path = some o`: the outcome of a node that has one. -/
theorem outcomeAt?_eq_some {root : Node} (hn : root.at? path = some n)
    (h : (e.run path n).result = .ok o) : e.outcomeAt? root path = some o := by
  rw [outcomeAt?, hn, Option.bind_some, h]
  rfl

/-- `os[i]? = e.outcomeAt? root (path ++ [i])`: the outcomes that a node is given are those at the
paths of its children. -/
theorem getElem?_eq_outcomeAt? {root : Node} (hn : root.at? path = some n)
    (hos : (e.runAll path 0 n.children).result = .ok os) (i : Nat) :
    os[i]? = e.outcomeAt? root (path ++ [i]) := by
  have hat : root.at? (path ++ [i]) = n.children[i]? := by
    rw [Node.at?_append, hn, Option.bind_some, Node.at?_cons]
    simp
  obtain ⟨ho, hnone⟩ | ⟨o, child, ho, hchild, hrun⟩ := runAll_getElem? hos i
  · rw [ho, outcomeAt?, hat, hnone, Option.bind_none]
  · rw [ho, outcomeAt?_eq_some (hat.trans hchild) hrun]

end Engine

end PanelQuery
