import PanelQuery.Proofs.Query.Traversal
import PanelQuery.Query.Validation

/-! # What validation finds

Validation tells exactly what is wrong with a query, each problem once and in a fixed order.

* **`Node.Violates`** — what is wrong with a query, by its nodes;
* **`Violation.Before`** — the order in which problems are told;
* **`Node.Fit`** — a query with which nothing is wrong;
* **`Node.violations_exact`** — what validation finds, and when it finds nothing. -/

namespace PanelQuery

variable {table : StepTable} {limit : Nat} {root n : Node} {path : Path}

/-! ## (1) What is wrong -/

/-- A kind whose nodes need two children. -/
def NodeKind.NeedsTwo (kind : NodeKind) : Prop := kind = .setOperation ∨ kind = .regression

/-- What is wrong with a query. -/
inductive Node.Violates (table : StepTable) (limit : Nat) (root : Node) : Violation → Prop
  | tooDeep (h : limit < root.depth) : Violates table limit root ⟨[], .tooDeep root.depth limit⟩
  | arity {path : Path} {n : Node} (hn : root.at? path = some n) (htwo : n.kind.NeedsTwo)
      (hlength : n.children.length ≠ 2) :
      Violates table limit root ⟨path, .arity n.kind 2 n.children.length⟩
  | noLeafStep {path : Path} {n : Node} (hn : root.at? path = some n) (hleaf : n.children = [])
      (hstep : ∀ entry ∈ table, entry.node ≠ n.kind) :
      Violates table limit root ⟨path, .noLeafStep n.kind⟩

/-- A query with which nothing is wrong. -/
structure Node.Fit (table : StepTable) (limit : Nat) (root : Node) : Prop where
  depth : root.depth ≤ limit
  arity : ∀ path n, root.at? path = some n → n.kind.NeedsTwo → n.children.length = 2
  leaves : ∀ path n, root.at? path = some n → n.children = [] → ∃ entry ∈ table,
    entry.node = n.kind

/-- A problem that lies with one node. -/
def Violation.Cause.IsLocal : Violation.Cause → Prop
  | tooDeep _ _ => False
  | arity _ _ _ => True
  | noLeafStep _ => True

/-- The order of problems: that of the whole query first, then those of nodes, children before their
parent, and of one node its number of children before its step. -/
inductive Violation.Before : Violation → Violation → Prop
  | whole {depth limit : Nat} {path : Path} {cause : Cause} (h : cause.IsLocal) :
      Before ⟨[], .tooDeep depth limit⟩ ⟨path, cause⟩
  | nodes {p q : Path} {cause cause' : Cause} (h : cause.IsLocal) (h' : cause'.IsLocal)
      (hpq : p.CompletesBefore q) : Before ⟨p, cause⟩ ⟨q, cause'⟩
  | node {path : Path} {kind : NodeKind} {required found : Nat} :
      Before ⟨path, .arity kind required found⟩ ⟨path, .noLeafStep kind⟩

/-! ## (2) One node -/

/-- A node needs two children or any number of them:
`kind.requiredChildren? = some 2 ∧ kind.NeedsTwo` or
`kind.requiredChildren? = none ∧ ¬kind.NeedsTwo`. -/
theorem NodeKind.requiredChildren?_eq (kind : NodeKind) :
    kind.requiredChildren? = some 2 ∧ kind.NeedsTwo ∨
      kind.requiredChildren? = none ∧ ¬kind.NeedsTwo := by
  cases kind with
  | setOperation => exact .inl ⟨rfl, .inl rfl⟩
  | regression => exact .inl ⟨rfl, .inr rfl⟩
  | _ => exact .inr ⟨rfl, by rintro (h | h) <;> cases h⟩

/-- `table.hasStepFor kind = false ↔ ∀ entry ∈ table, entry.node ≠ kind`: the kind has no step if no
entry is for it. -/
theorem StepTable.hasStepFor_eq_false_iff {kind : NodeKind} :
    table.hasStepFor kind = false ↔ ∀ entry ∈ table, entry.node ≠ kind := by
  simp [hasStepFor]

/-- **What is wrong with one node**: its number of children, and that it is a leaf without step.
`cause ∈ n.causes table` just when
`cause = .arity n.kind 2 n.children.length ∧ n.kind.NeedsTwo ∧ n.children.length ≠ 2` or
`cause = .noLeafStep n.kind ∧ n.children = [] ∧ ∀ entry ∈ table, entry.node ≠ n.kind`. -/
theorem Node.mem_causes {cause : Violation.Cause} : cause ∈ n.causes table ↔
    cause = .arity n.kind 2 n.children.length ∧ n.kind.NeedsTwo ∧ n.children.length ≠ 2 ∨
      cause = .noLeafStep n.kind ∧ n.children = [] ∧ ∀ entry ∈ table, entry.node ≠ n.kind := by
  unfold causes
  rw [List.mem_append]
  refine or_congr ?_ ?_
  · rcases n.kind.requiredChildren?_eq with ⟨hrequired, htwo⟩ | ⟨hrequired, htwo⟩
    · simp [hrequired, htwo, and_comm]
    · simp [hrequired, htwo]
  · simp [isLeaf, StepTable.hasStepFor_eq_false_iff, and_comm]

/-- Of two causes at one node the first is its number of children:
`((n.causes table).map fun cause => (⟨path, cause⟩ : Violation)).Pairwise Violation.Before`. -/
theorem Node.pairwise_causes (table : StepTable) (n : Node) (path : Path) :
    ((n.causes table).map fun cause => (⟨path, cause⟩ : Violation)).Pairwise Violation.Before := by
  unfold causes
  rcases n.kind.requiredChildren?_eq with ⟨hrequired, -⟩ | ⟨hrequired, -⟩
  · rw [hrequired]
    dsimp only
    split <;> split <;> simp [Violation.Before.node]
  · rw [hrequired]
    dsimp only
    split <;> simp

/-- What is wrong with one node lies with that node: `cause.IsLocal`. -/
theorem Node.isLocal_of_mem_causes {cause : Violation.Cause} (h : cause ∈ n.causes table) :
    cause.IsLocal := by
  rcases mem_causes.1 h with ⟨rfl, -⟩ | ⟨rfl, -⟩ <;> exact trivial

/-! ## (3) All nodes -/

namespace Node

/-- What is wrong at a path is what is wrong with the node there: `v ∈ root.violationsAt table path`
just when `v.path = path ∧ ∃ n, root.at? path = some n ∧ v.cause ∈ n.causes table`. -/
theorem mem_violationsAt {v : Violation} : v ∈ root.violationsAt table path ↔
    v.path = path ∧ ∃ n, root.at? path = some n ∧ v.cause ∈ n.causes table := by
  obtain ⟨path', cause⟩ := v
  unfold violationsAt
  cases root.at? path with
  | none => simp
  | some n => simp [and_comm, eq_comm]

/-- **What validation finds** is what is wrong:
`v ∈ root.violations table limit ↔ root.Violates table limit v`. -/
theorem mem_violations {v : Violation} :
    v ∈ root.violations table limit ↔ root.Violates table limit v := by
  unfold violations
  rw [List.mem_append, List.mem_flatMap]
  constructor
  · rintro (hdeep | ⟨path, -, hv⟩)
    · split at hdeep
      · rename_i hdepth
        rw [List.mem_singleton.1 hdeep]
        exact .tooDeep hdepth
      · cases hdeep
    · obtain ⟨path', cause⟩ := v
      obtain ⟨rfl, n, hn, hcause⟩ := mem_violationsAt.1 hv
      rcases mem_causes.1 hcause with ⟨rfl, htwo, hlength⟩ | ⟨rfl, hleaf, hstep⟩
      · exact .arity hn htwo hlength
      · exact .noLeafStep hn hleaf hstep
  · -- every node has its path in the listing
    have hat : ∀ {path n cause}, root.at? path = some n → cause ∈ n.causes table →
        ∃ path' ∈ root.postOrder, (⟨path, cause⟩ : Violation) ∈ root.violationsAt table path' :=
      fun hn hcause => ⟨_, mem_postOrder.2 ⟨_, hn⟩, mem_violationsAt.2 ⟨rfl, _, hn, hcause⟩⟩
    intro h
    cases h with
    | tooDeep hdepth => exact .inl (by rw [if_pos hdepth]; exact List.mem_singleton_self _)
    | arity hn htwo hlength => exact .inr (hat hn (mem_causes.2 (.inl ⟨rfl, htwo, hlength⟩)))
    | noLeafStep hn hleaf hstep => exact .inr (hat hn (mem_causes.2 (.inr ⟨rfl, hleaf, hstep⟩)))

/-- **The order in which problems are found**:
`(root.violations table limit).Pairwise Violation.Before`. -/
theorem pairwise_violations (table : StepTable) (limit : Nat) (root : Node) :
    (root.violations table limit).Pairwise Violation.Before := by
  have hlocal : ∀ {path v}, v ∈ root.violationsAt table path → v.cause.IsLocal := by
    intro path v hv
    obtain ⟨-, n, -, hcause⟩ := mem_violationsAt.1 hv
    exact isLocal_of_mem_causes hcause
  unfold violations
  refine List.pairwise_append.2 ⟨?_, List.pairwise_flatMap.2 ⟨fun path _ => ?_, ?_⟩, ?_⟩
  · split
    · exact List.pairwise_singleton _ _
    · exact .nil
  · unfold violationsAt
    cases root.at? path with
    | none => exact .nil
    | some n => exact n.pairwise_causes table path
  · refine root.pairwise_postOrder.imp fun hpq v hv w hw => ?_
    obtain ⟨rfl, -⟩ := mem_violationsAt.1 hv
    obtain ⟨rfl, -⟩ := mem_violationsAt.1 hw
    exact .nodes (hlocal hv) (hlocal hw) hpq
  · intro v hv w hw
    obtain ⟨path, -, hw⟩ := List.mem_flatMap.1 hw
    split at hv
    · rw [List.mem_singleton.1 hv]
      exact .whole (hlocal hw)
    · cases hv

/-- **Validation finds nothing** just when nothing is wrong:
`root.violations table limit = [] ↔ root.Fit table limit`. -/
theorem violations_eq_nil_iff : root.violations table limit = [] ↔ root.Fit table limit := by
  rw [List.eq_nil_iff_forall_not_mem]
  simp only [mem_violations]
  constructor
  · intro h
    constructor
    case depth => exact Nat.le_of_not_lt fun hdepth => h _ (.tooDeep hdepth)
    case arity => exact fun path n hn htwo => by_contra fun hlength => h _ (.arity hn htwo hlength)
    case leaves =>
      intro path n hn hleaf
      by_contra hnone
      exact h _ (.noLeafStep hn hleaf fun entry hentry hkind => hnone ⟨entry, hentry, hkind⟩)
  · intro hfit v hv
    cases hv with
    | tooDeep hdepth => exact Nat.not_lt.2 hfit.depth hdepth
    | arity hn htwo hlength => exact hlength (hfit.arity _ _ hn htwo)
    | noLeafStep hn hleaf hstep =>
      obtain ⟨entry, hentry, hkind⟩ := hfit.leaves _ _ hn hleaf
      exact hstep entry hentry hkind

/-- **Validation is exact**: `root.PostOrdered root.postOrder`,
`(root.violations table limit = [] ↔ root.Fit table limit)`,
`(∀ v, v ∈ root.violations table limit ↔ root.Violates table limit v)` and
`(root.violations table limit).Pairwise Violation.Before`. Its listing has each node of a query
once, children before their parent and in order. It finds nothing just when the query is not too
deep, every node that needs two children has two and every leaf has a step. Otherwise it finds all
that is wrong and nothing else, the depth first and then node by node. -/
theorem violations_exact (table : StepTable) (limit : Nat) (root : Node) :
    root.PostOrdered root.postOrder ∧
    (root.violations table limit = [] ↔ root.Fit table limit) ∧
    (∀ v, v ∈ root.violations table limit ↔ root.Violates table limit v) ∧
    (root.violations table limit).Pairwise Violation.Before :=
  ⟨root.postOrdered, violations_eq_nil_iff, fun _ => mem_violations,
    pairwise_violations table limit root⟩

/-- Both problems of a query are told, that of its depth first. -/
example : violations .standard 2
    ⟨.setOperation, [], [⟨.entities, [], []⟩, ⟨.regression, [], [⟨.entities, [], []⟩]⟩]⟩ =
      [⟨[], .tooDeep 3 2⟩, ⟨[1], .arity .regression 2 1⟩] := by decide +kernel

end Node

end PanelQuery
