import PanelQuery.Proofs.Query.Sequential

/-! # Ways to evaluate a query

A query may be evaluated in many ways: its nodes are computed in whatever order, and its sources
answer whatever they do. `Engine.Executes` is the relation between a query, the stage at which its
evaluation returns, and what it returns.

* **`Engine.Executes`** — a query with sources of any kind, on any schedule;
* **`Engine.Executes.of_ok`** — what there is where a query has a result;
* **`Engine.exists_next`, `Engine.exists_executes`** — every query goes on until it returns;
* **`Engine.exists_executes_sequential`** — the evaluation in order. -/

namespace PanelQuery

namespace Engine

variable {e : Engine} {root : Node} {title : Option String} {s : Stage}

/-! ## (1) Queries with sources of any kind -/

/-- A query with sources of any kind, on any schedule: the stage at which its evaluation returns, and
what it returns. A malformed query is not evaluated at all. -/
inductive Executes (e : Engine) (root : Node) (title : Option String) :
    Stage → Except QueryError (Panel Float × Trace) → Prop
  | malformed (hvalid : root.violations e.table e.settings.maxDepth ≠ []) :
      Executes e root title {}
        (.error (.malformed (root.violations e.table e.settings.maxDepth)))
  | evaluated {s : Stage} {r : Except QueryError Outcome}
      (hvalid : root.violations e.table e.settings.maxDepth = [])
      (hreaches : e.Reaches root (fun _ => True) s) (hreturns : s.Returns r) :
      Executes e root title s (r.map (titledAs title))

/-- **A query that has a result** is valid, and its root has handed on what is returned under a
title: `root.violations e.table e.settings.maxDepth = []`, `e.Reaches root (fun _ => True) s` and
`∃ o, s.HandsOn [] o ∧ titledAs title o = result`. -/
theorem Executes.of_ok {result : Panel Float × Trace} (h : e.Executes root title s (.ok result)) :
    root.violations e.table e.settings.maxDepth = [] ∧ e.Reaches root (fun _ => True) s ∧
      ∃ o, s.HandsOn [] o ∧ titledAs title o = result := by
  generalize hr : (Except.ok result : Except QueryError (Panel Float × Trace)) = r at h
  cases h with
  | malformed hvalid => cases hr
  | evaluated hvalid hreaches hreturns =>
    obtain ⟨o, rfl, ho⟩ := map_eq_ok.1 hr.symm
    cases hreturns with
    | ok hroot => exact ⟨hvalid, hreaches, o, hroot, ho⟩

/-! ## (2) Queries return -/

/-- Answers to some calls, and then to others: `Dialogue.Follows answers before (xs ++ ys)`. -/
theorem follows_append {answers : List Exchange → Sources} {before xs ys : List Exchange}
    (hxs : Dialogue.Follows answers before xs) (hys : Dialogue.Follows answers (before ++ xs) ys) :
    Dialogue.Follows answers before (xs ++ ys) := by
  induction xs generalizing before with
  | nil => rwa [List.append_nil] at hys
  | cons x xs ih =>
    refine ⟨hxs.1, ih hxs.2 ?_⟩
    rwa [List.append_assoc]

/-- **A query that returns nothing yet goes on**, whatever the answers depend on:
`(∃ r, s.Returns r)` or
`∃ s', e.Move root (fun _ => True) s s' ∧ Dialogue.Follows answers [] s'.asked`. -/
theorem exists_next (e : Engine) (root : Node) (answers : List Exchange → Sources)
    (hfollows : Dialogue.Follows answers [] s.asked) :
    (∃ r, s.Returns r) ∨ ∃ s', e.Move root (fun _ => True) s s' ∧
      Dialogue.Follows answers [] s'.asked := by
  by_cases hfailed : s.failed = []
  · by_cases hroot : ∃ o, s.HandsOn [] o
    · obtain ⟨o, ho⟩ := hroot
      exact .inl ⟨_, .ok ho⟩
    · obtain ⟨s', own, hmove, hasked, hown⟩ := e.exists_move answers hfailed
        (fun _ _ _ _ => trivial) root.at?_nil hroot
      exact .inr ⟨s', hmove, hasked ▸ follows_append hfollows hown⟩
  · obtain ⟨f, hf⟩ := List.exists_mem_of_ne_nil _ hfailed
    exact .inl ⟨_, .error hf⟩

/-- From every stage on some stage is reached that returns:
`∃ s r, e.Reaches root (fun _ => True) s ∧ s.Returns r ∧ Dialogue.Follows answers [] s.asked`. -/
theorem exists_returns (answers : List Exchange → Sources) (h : e.Reaches root (fun _ => True) s)
    (hfollows : Dialogue.Follows answers [] s.asked) :
    ∃ s r, e.Reaches root (fun _ => True) s ∧ s.Returns r ∧
      Dialogue.Follows answers [] s.asked := by
  -- each move uses up one of those that are left
  induction hleft : 2 * root.count - s.size using Nat.strongRecOn generalizing s with
  | _ left ih =>
    obtain ⟨r, hr⟩ | ⟨s', hmove, hfollows'⟩ := e.exists_next root answers hfollows
    · exact ⟨s, r, h, hr, hfollows⟩
    · have hreaches : e.Reaches root (fun _ => True) s' := h.tail hmove
      have hsize := hmove.size
      have hle := hreaches.sound.size_le
      exact ih (2 * root.count - s'.size) (by omega) hreaches hfollows' rfl

/-- **Every query returns**, whatever the answers of the sources depend on:
`∃ s r, e.Executes root title s r ∧ Dialogue.Follows answers [] s.asked`. -/
theorem exists_executes (e : Engine) (root : Node) (title : Option String)
    (answers : List Exchange → Sources) :
    ∃ s r, e.Executes root title s r ∧ Dialogue.Follows answers [] s.asked := by
  by_cases hvalid : root.violations e.table e.settings.maxDepth = []
  · have hstart : e.Reaches root (fun _ => True) {} := .refl
    obtain ⟨s, r, hreaches, hreturns, hfollows⟩ := exists_returns answers hstart trivial
    exact ⟨_, _, .evaluated hvalid hreaches hreturns, hfollows⟩
  · exact ⟨_, _, .malformed hvalid, trivial⟩

/-- **The evaluation in order is one of the ways** to evaluate a query: there is `s` with
`e.Sequential root s`, `s.messages root.count = (e.execute root title).progress` and
`e.Executes root title s (e.execute root title).result`. -/
theorem exists_executes_sequential (e : Engine) (root : Node) (title : Option String) :
    ∃ s, e.Sequential root s ∧ s.messages root.count = (e.execute root title).progress ∧
      e.Executes root title s (e.execute root title).result := by
  by_cases hvalid : root.violations e.table e.settings.maxDepth = []
  · obtain ⟨s, hs, hreturns, hmessages⟩ := exists_sequential e root
    rw [execute_of_valid hvalid]
    refine ⟨s, hs, hmessages _, .evaluated hvalid (hs.reaches.mono fun _ _ => trivial) hreturns⟩
  · rw [execute_of_invalid hvalid]
    exact ⟨{}, e.sequential_empty root, rfl, .malformed hvalid⟩

end Engine

end PanelQuery
