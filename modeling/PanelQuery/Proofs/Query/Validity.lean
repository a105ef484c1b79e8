import PanelQuery.Proofs.Query.Paths
import PanelQuery.Query.Evaluation

/-! # Valid queries

What evaluation may rely on once a query has been found valid.

* **`Node.causes_of_valid`** — nothing is wrong with any node;
* **`Engine.exists_stepOf`** — every node has a step;
* **`StepTable.resolve?_eq_some`** — a step comes from an entry for the kind of the node;
* **`Engine.exists_panel_of_standard`** — in the full table, steps that need two inputs get them. -/

namespace PanelQuery

/-! ## (1) Nodes of valid queries -/

/-- **Nothing is wrong with a node of a valid query**: `n.causes table = []`. -/
theorem Node.causes_of_valid {table : StepTable} {limit : Nat} {root n : Node} {path : Path}
    (hvalid : root.violations table limit = []) (hn : root.at? path = some n) :
    n.causes table = [] := by
  have hnodes := (List.append_eq_nil_iff.1 hvalid).2
  have hat := List.flatMap_eq_nil_iff.1 hnodes path (mem_postOrder.2 ⟨n, hn⟩)
  rw [violationsAt, hn] at hat
  exact List.map_eq_nil_iff.1 hat

/-- `n.children.length = required`: a node with which nothing is wrong has as many children as its
kind needs. -/
theorem Node.length_children {table : StepTable} {n : Node} (h : n.causes table = [])
    {required : Nat} (hrequired : n.kind.requiredChildren? = some required) :
    n.children.length = required := by
  have harity := (List.append_eq_nil_iff.1 h).1
  rw [hrequired] at harity
  dsimp only at harity
  split at harity
  · assumption
  · cases harity

/-- `table.hasStepFor n.kind = true`: a leaf with which nothing is wrong is of a kind that has
steps. -/
theorem Node.hasStepFor_of_leaf {table : StepTable} {n : Node} (h : n.causes table = [])
    (hleaf : n.isLeaf) : table.hasStepFor n.kind = true := by
  have hstep := (List.append_eq_nil_iff.1 h).2
  rw [hleaf, Bool.true_and] at hstep
  by_contra hnone
  rw [Bool.of_not_eq_true hnone] at hstep
  cases hstep

/-! ## (2) Steps of nodes -/

/-- `table.hasStepFor n.kind = false`: where nodes of a kind have steps, each of them has one. -/
theorem StepTable.hasStepFor_of_resolve?_eq_none {table : StepTable} {n : Node}
    (h : table.resolve? n = none) : table.hasStepFor n.kind = false := by
  have hentries : (table.entriesFor n.kind).head? = none :=
    (Option.or_eq_none_iff.1 (Option.map_eq_none_iff.1 h)).2
  have hnone := List.filter_eq_nil_iff.1 (List.head?_eq_none_iff.1 hentries)
  rw [hasStepFor, List.any_eq_false]
  exact hnone

/-- **The step of a node comes from an entry for its kind**:
`∃ entry ∈ table, entry.node = n.kind ∧ entry.step = kind`. -/
theorem StepTable.resolve?_eq_some {table : StepTable} {n : Node} {kind : StepKind}
    (h : table.resolve? n = some kind) : ∃ entry ∈ table, entry.node = n.kind ∧
      entry.step = kind := by
  obtain ⟨entry, hentry, hstep⟩ := Option.map_eq_some_iff.1 h
  have hmem : entry ∈ table.entriesFor n.kind := by
    rcases Option.or_eq_some_iff.1 hentry with hexact | ⟨-, hfirst⟩
    · obtain ⟨name, -, hfind⟩ := Option.bind_eq_some_iff.1 hexact
      exact List.mem_of_find?_eq_some hfind
    · exact List.mem_of_mem_head? hfirst
  obtain ⟨hmem, hkind⟩ := List.mem_filter.1 hmem
  exact ⟨entry, hmem, beq_iff_eq.1 hkind, hstep⟩

namespace Engine

variable {e : Engine} {root n : Node} {path : Path}

/-- A node has the step that its kind in the table is prepared for, or passes its input on:
`(∃ kind, e.table.resolve? n = some kind ∧ (kind.prepare n e.settings).1 = step)` or
`step = .identity`. -/
theorem stepOf_eq_ok {step : Step} {notes : List String} (h : e.stepOf n = .ok (step, notes)) :
    (∃ kind, e.table.resolve? n = some kind ∧ (kind.prepare n e.settings).1 = step) ∨
      step = .identity := by
  unfold stepOf at h
  split at h
  · rename_i kind hresolve
    refine .inl ⟨kind, hresolve, ?_⟩
    cases hprepared : kind.prepare n e.settings with
    | mk step' notes' =>
      rw [hprepared] at h
      exact (Prod.mk.inj (Except.ok.inj h)).1
  · split at h
    · cases h
    · exact .inr (Prod.mk.inj (Except.ok.inj h)).1.symm

/-- **Every node of a valid query has a step**: `∃ prepared, e.stepOf n = .ok prepared`. -/
theorem exists_stepOf (hvalid : root.violations e.table e.settings.maxDepth = [])
    (hn : root.at? path = some n) : ∃ prepared, e.stepOf n = .ok prepared := by
  have hcauses := Node.causes_of_valid hvalid hn
  unfold stepOf
  cases hresolve : e.table.resolve? n with
  | some kind => exact ⟨_, rfl⟩
  | none =>
    have hnone := StepTable.hasStepFor_of_resolve?_eq_none hresolve
    by_cases hleaf : n.isLeaf
    · rw [Node.hasStepFor_of_leaf hcauses hleaf] at hnone
      cases hnone
    · dsimp only
      rw [if_neg hleaf]
      exact ⟨_, rfl⟩

end Engine

/-! ## (3) Two inputs -/

/-- A step that needs two inputs. -/
def Step.TakesTwo : Step → Prop
  | setAlgebra _ => True
  | regression _ _ => True
  | _ => False

/-- A kind of step that needs two inputs. -/
def StepKind.takesTwo : StepKind → Bool
  | setAlgebra _ => true
  | regression _ => true
  | _ => false

/-- `kind.takesTwo = true`: a prepared step needs two inputs only if its kind does. -/
theorem StepKind.takesTwo_of_prepare {kind : StepKind} {n : Node} {settings : Settings}
    (h : (kind.prepare n settings).1.TakesTwo) : kind.takesTwo = true := by
  cases kind with
  | setAlgebra op => rfl
  | regression kind => rfl
  | formula =>
    unfold prepare at h
    dsimp only at h
    split at h
    · exact h.elim
    · exact h.elim
  | _ => exact h.elim

/-- With two inputs such a step has a result:
`∃ panel, step.compute platform sources [left, right] = .ok panel`. -/
theorem Step.exists_panel {step : Step} (h : step.TakesTwo) (platform : Platform)
    (sources : Sources) (left right : Panel Float) :
    ∃ panel, step.compute platform sources [left, right] = .ok panel := by
  cases step with
  | setAlgebra op => exact ⟨_, rfl⟩
  | regression kind window => exact ⟨_, rfl⟩
  | _ => exact h.elim

/-- In the full table such steps are for kinds of nodes that have two children: for all
`entry ∈ StepTable.standard`,
`entry.step.takesTwo = true → entry.node.requiredChildren? = some 2`. -/
theorem StepTable.requiredChildren?_of_standard : ∀ entry ∈ StepTable.standard,
    entry.step.takesTwo = true → entry.node.requiredChildren? = some 2 := by
  decide +kernel

/-- **With the full table a step of a valid query that needs two inputs gets them**:
`∃ panel, step.compute e.platform sources inputs = .ok panel`. -/
theorem Engine.exists_panel_of_standard {e : Engine} {root n : Node} {path : Path} {step : Step}
    {notes : List String} {inputs : List (Panel Float)} (htable : e.table = .standard)
    (hvalid : root.violations e.table e.settings.maxDepth = []) (hn : root.at? path = some n)
    (hstep : e.stepOf n = .ok (step, notes)) (htwo : step.TakesTwo)
    (hinputs : inputs.length = n.children.length) (sources : Sources) :
    ∃ panel, step.compute e.platform sources inputs = .ok panel := by
  have hcauses := Node.causes_of_valid hvalid hn
  have hrequired : n.kind.requiredChildren? = some 2 := by
    rcases stepOf_eq_ok hstep with ⟨kind, hresolve, rfl⟩ | rfl
    · obtain ⟨entry, hmem, hkind, rfl⟩ := StepTable.resolve?_eq_some hresolve
      rw [htable] at hmem
      rw [← hkind]
      exact StepTable.requiredChildren?_of_standard entry hmem (StepKind.takesTwo_of_prepare htwo)
    · exact htwo.elim
  have hlength : inputs.length = 2 := hinputs.trans (Node.length_children hcauses hrequired)
  obtain ⟨left, right, rfl⟩ := List.length_eq_two.1 hlength
  exact step.exists_panel htwo e.platform sources left right

end PanelQuery
