import PanelQuery.Proofs.Query.WellFormed

/-! # The trail of a query

A query that has a result leaves a report for each of its nodes, and the problems of the result are
those of the reports, one after the other.

* **`NodeReport.Tells`, `Outcome.HasTrail`** — what a report says of its node, and the reports on
  all nodes from one on;
* **`Engine.converse_hasTrail`** — a node goes on with the trails of its children;
* **`Engine.converse_of_fails`** — a node whose step fails hands its first input on;
* **`ReportsOn`, `Engine.Trail`, `Stage.Trail`** — what a query leaves besides its result, evaluated
  in order or in any way;
* **`Engine.execute_trail`** — the result of a query, its trace and the outcomes of its nodes. -/

namespace PanelQuery

/-! ## (1) Trails -/

/-- A report on a node that is complete. -/
structure NodeReport.Tells (r : NodeReport) (n : Node) : Prop where
  kind : r.kind = n.kind
  children : r.children = n.children.length
  state : r.state = .done

namespace Outcome

/-- An outcome of the node at a path with a report for each node from there on, in order of
completion. Its problems are those that the reports tell. -/
structure HasTrail (o : Outcome) (path : Path) (n : Node) : Prop where
  paths : o.trace.map NodeReport.path = n.postOrder.map (path ++ ·)
  reports : ∀ r ∈ o.trace, ∃ below m, r.path = path ++ below ∧ n.at? below = some m ∧ r.Tells m
  errors : o.panel.errors = o.trace.flatMap NodeReport.errors

namespace AtPlaces

variable {path : Path} {os : List Outcome} {children : List (Node × Nat)}

/-- The paths of the reports on children: `(os.flatMap trace).map NodeReport.path` is
`(children.flatMap fun child => child.1.postOrder.map (child.2 :: ·)).map (path ++ ·)`. -/
theorem paths (h : AtPlaces HasTrail path os children) :
    (os.flatMap trace).map NodeReport.path =
      (children.flatMap fun child => child.1.postOrder.map (child.2 :: ·)).map (path ++ ·) := by
  induction h with
  | nil => rfl
  | @cons o child _ _ ho _ ih =>
    rw [List.flatMap_cons, List.flatMap_cons, List.map_append, List.map_append, ih, ho.paths,
      List.map_map]
    congr 1
    refine List.map_congr_left fun below _ => ?_
    exact List.append_assoc path [child.2] below

/-- `(os.flatMap fun o => o.panel.errors) = (os.flatMap trace).flatMap NodeReport.errors`: the
problems of children are those that their reports tell. -/
theorem errors (h : AtPlaces HasTrail path os children) :
    (os.flatMap fun o => o.panel.errors) = (os.flatMap trace).flatMap NodeReport.errors := by
  rw [List.flatMap_assoc]
  induction h with
  | nil => rfl
  | cons ho _ ih => rw [List.flatMap_cons, List.flatMap_cons, ho.errors, ih]

end AtPlaces

end Outcome

namespace Engine

variable {e : Engine} {path : Path} {n : Node} {o : Outcome} {os : List Outcome}
  {own : List Exchange}

/-! ## (2) One node -/

/-- The panel of the first child, which is empty where there is none. -/
def firstPanel (children : List Outcome) : Panel Float := (children.map Outcome.panel).headD .empty

/-- **A node goes on with the trails of its children**: its own report comes last.
`(finish path n os step notes made).HasTrail path n`. -/
theorem finish_hasTrail (hos : Outcome.AtPlaces Outcome.HasTrail path os n.children.zipIdx)
    (step : Step) (notes : List String) (made : Panel Float × List String) :
    (finish path n os step notes made).HasTrail path n := by
  -- the report of the node, and what it adds to the problems
  obtain ⟨r, hpath, hr, htrace, herrors⟩ : ∃ r : NodeReport, r.path = path ∧ r.Tells n ∧
      (finish path n os step notes made).trace = os.flatMap Outcome.trace ++ [r] ∧
      (finish path n os step notes made).panel.errors =
        (os.flatMap fun o => o.panel.errors) ++ r.errors :=
    ⟨_, rfl, ⟨rfl, rfl, rfl⟩, rfl, by rw [← List.flatMap_map]; rfl⟩
  constructor
  case paths =>
    rw [htrace, Node.postOrder_eq, List.map_append, List.map_append, hos.paths, List.map_singleton,
      List.map_singleton, hpath, List.append_nil]
  case reports =>
    intro r' hr'
    rw [htrace, List.mem_append, List.mem_singleton] at hr'
    obtain hr' | rfl := hr'
    · -- a report on a node below the child at place `i`
      obtain ⟨o', ho', hr'⟩ := List.mem_flatMap.1 hr'
      obtain ⟨⟨child, i⟩, hchild, htrail⟩ := hos.exists_child ho'
      obtain ⟨below, m, hbelow, hm, htells⟩ := htrail.reports r' hr'
      refine ⟨i :: below, m, ?_, ?_, htells⟩
      · rw [hbelow, List.append_assoc, List.singleton_append]
      · rw [Node.at?_cons, List.mem_zipIdx_iff_getElem?.1 hchild, Option.bind_some, hm]
    · exact ⟨[], n, by rw [hpath, List.append_nil], n.at?_nil, hr⟩
  case errors =>
    rw [htrace, herrors, hos.errors, List.flatMap_append, List.flatMap_singleton]

/-- What a node with an outcome has made of the result of its step: the panel of that, or else the
first input. -/
theorem conclude_eq_ok {step : Step} {notes : List String} {r : Except StepError (Panel Float)}
    (h : conclude path n os step notes r = .ok o) :
    ∃ made, o = finish path n os step notes made ∧
      ∀ cause, r = .error cause → made.1 = firstPanel os := by
  unfold conclude at h
  split at h
  · exact ⟨_, (Except.ok.inj h).symm, fun cause hcause => nomatch hcause⟩
  · cases h
  · cases h
  · exact ⟨_, (Except.ok.inj h).symm, fun _ _ => rfl⟩

/-- A node with an outcome has a step, and has made its outcome of the result of that: there are
`step`, `notes` and `r` with `e.stepOf n = .ok (step, notes)`,
`(step.converse e.platform (os.map Outcome.panel)).Held own r` and
`conclude path n os step notes r = .ok o`. -/
theorem converse_eq_ok (h : (e.converse path n os).Held own (.ok o)) :
    ∃ step notes r, e.stepOf n = .ok (step, notes) ∧
      (step.converse e.platform (os.map Outcome.panel)).Held own r ∧
      conclude path n os step notes r = .ok o := by
  unfold converse at h
  split at h
  · rename_i step notes hstep
    obtain ⟨r, hheld, hr⟩ := h.of_settle
    exact ⟨step, notes, r, hstep, hheld, hr.symm⟩
  · cases h

/-- **A node goes on with the trails of its children**: `o.HasTrail path n`. -/
theorem converse_hasTrail (hos : Outcome.AtPlaces Outcome.HasTrail path os n.children.zipIdx)
    (h : (e.converse path n os).Held own (.ok o)) : o.HasTrail path n := by
  obtain ⟨step, notes, r, -, -, hr⟩ := converse_eq_ok h
  obtain ⟨made, rfl, -⟩ := conclude_eq_ok hr
  exact finish_hasTrail hos step notes made

/-- `FailsOn e n children own`: the step of a node fails on the outcomes of its children, given the
answers to its calls, and not because the request was cancelled. -/
def FailsOn (e : Engine) (n : Node) (children : List Outcome) (own : List Exchange) : Prop :=
  ∃ step notes cause, e.stepOf n = .ok (step, notes) ∧
    (step.converse e.platform (children.map Outcome.panel)).Held own (.error cause) ∧
      cause ≠ .cancelled

/-- **A node whose step fails hands its first input on**:
`o.panel.entities = (firstPanel os).entities ∧ o.panel.hint = (firstPanel os).hint`. -/
theorem converse_of_fails (h : (e.converse path n os).Held own (.ok o))
    (hfails : e.FailsOn n os own) :
    o.panel.entities = (firstPanel os).entities ∧ o.panel.hint = (firstPanel os).hint := by
  obtain ⟨step, notes, cause, hstep, hcause, -⟩ := hfails
  obtain ⟨step', notes', r, hstep', hheld, hr⟩ := converse_eq_ok h
  obtain ⟨rfl, rfl⟩ := Prod.mk.inj (Except.ok.inj (hstep.symm.trans hstep'))
  obtain ⟨⟨panel, failure⟩, rfl, hmade⟩ := conclude_eq_ok hr
  obtain rfl := hmade cause (hheld.unique hcause)
  exact ⟨rfl, rfl⟩

/-! ## (3) Nodes in order -/

/-- `Fails e n children`: the step of a node fails on the outcomes of its children, and not because
the request was cancelled. -/
def Fails (e : Engine) (n : Node) (children : List Outcome) : Prop :=
  ∃ step notes cause, e.stepOf n = .ok (step, notes) ∧
    step.compute e.platform e.sources (children.map Outcome.panel) = .error cause ∧
      cause ≠ .cancelled

/-- A complete node has held its dialogue with the sources:
`∃ own, (e.converse path n os).Held own r ∧ ∀ x ∈ own, x.AnsweredBy e.sources`. -/
theorem exists_held_of_complete {r : Except QueryError Outcome} (h : e.complete path n os = r) :
    ∃ own, (e.converse path n os).Held own r ∧ ∀ x ∈ own, x.AnsweredBy e.sources := by
  obtain ⟨own, r', hheld, hfollows⟩ := (e.converse path n os).exists_held (fun _ => e.sources) []
  have hanswered := hfollows.answeredBy
  have hr : r' = r := (hheld.answered hanswered).symm.trans (answered_converse.trans h)
  exact ⟨own, hr ▸ hheld, hanswered⟩

/-- A step that fails does so in the dialogue with the sources: `e.FailsOn n os own`. -/
theorem Fails.failsOn (h : e.Fails n os) (ho : (e.converse path n os).Held own (.ok o))
    (hown : ∀ x ∈ own, x.AnsweredBy e.sources) : e.FailsOn n os own := by
  obtain ⟨step, notes, cause, hstep, hcause, hne⟩ := h
  obtain ⟨step', notes', r, hstep', hheld, -⟩ := converse_eq_ok ho
  obtain ⟨rfl, rfl⟩ := Prod.mk.inj (Except.ok.inj (hstep.symm.trans hstep'))
  have hr : r = .error cause :=
    (hheld.answered hown).symm.trans ((step.answered_converse _ _ _).trans hcause)
  exact ⟨step, notes, cause, hstep, hr ▸ hheld, hne⟩

/-- **A node whose step fails hands its first input on**:
`o.panel.entities = (firstPanel os).entities ∧ o.panel.hint = (firstPanel os).hint`. -/
theorem complete_of_fails (h : e.complete path n os = .ok o) (hfails : e.Fails n os) :
    o.panel.entities = (firstPanel os).entities ∧ o.panel.hint = (firstPanel os).hint := by
  obtain ⟨own, hheld, hown⟩ := exists_held_of_complete h
  exact converse_of_fails hheld (hfails.failsOn hheld hown)

/-- **Every node of a query has a trail**: `o.HasTrail path n`. -/
theorem run_hasTrail (h : (e.run path n).result = .ok o) : o.HasTrail path n := by
  induction n using Node.induction generalizing path o with
  | node n ih =>
    obtain ⟨os, hos, ho⟩ := run_eq_ok.1 h
    obtain ⟨own, hheld, -⟩ := exists_held_of_complete ho
    refine converse_hasTrail ((runAll_atPlaces hos).imp fun child hchild _ _ => ?_) hheld
    exact ih child hchild

end Engine

/-! ## (4) Reports on a query -/

/-- A result with a report for each node of a query, whose nodes have outcomes. -/
structure ReportsOn (root : Node) (outcomes : Path → Option Outcome) (panel : Panel Float)
    (trace : Trace) : Prop where
  /-- There is one report for each node, children before their parent. -/
  paths : trace.map NodeReport.path = root.postOrder
  reports : ∀ r ∈ trace, ∃ n, root.at? r.path = some n ∧ r.Tells n
  /-- The problems are those of the reports, in their order. -/
  errors : panel.errors = trace.flatMap NodeReport.errors
  /-- But for its title, the result is the panel of the root. -/
  result : ∃ o, outcomes [] = some o ∧ panel.entities = o.panel.entities ∧
    panel.hint = o.panel.hint ∧ panel.errors = o.panel.errors

/-- The trail of the root is one on the query: `ReportsOn root outcomes o.panel o.trace`. -/
theorem Outcome.HasTrail.reportsOn {root : Node} {o : Outcome} (h : o.HasTrail [] root)
    {outcomes : Path → Option Outcome} (ho : outcomes [] = some o) :
    ReportsOn root outcomes o.panel o.trace where
  paths := h.paths.trans (List.map_id _)
  reports r hr := by
    obtain ⟨below, m, hpath, hm, htells⟩ := h.reports r hr
    exact ⟨m, hpath ▸ hm, htells⟩
  errors := h.errors
  result := ⟨o, ho, rfl, rfl, rfl⟩

namespace Engine

/-- Another title is written on the last report: `(o.trace = [] ∧ (retitled o title).2 = [])` or
`∃ before r, o.trace = before ++ [r] ∧ (retitled o title).2 = before ++ [{ r with title }]`. -/
theorem retitled_trace (o : Outcome) (title : String) :
    (o.trace = [] ∧ (retitled o title).2 = []) ∨ ∃ before r, o.trace = before ++ [r] ∧
      (retitled o title).2 = before ++ [{ r with title }] := by
  obtain hnil | ⟨before, r, hlast⟩ := List.eq_nil_or_concat' o.trace
  · refine .inl ⟨hnil, ?_⟩
    rw [retitled, hnil]
    rfl
  · refine .inr ⟨before, r, hlast, ?_⟩
    rw [retitled, hlast, List.dropLast_concat, List.getLast?_concat]
    rfl

/-- `(retitled o title).2.map f = o.trace.map f`: what reports tell apart from their titles is left
as it is by another title. -/
theorem map_retitled {β : Type} {f : NodeReport → β} (hf : ∀ r title, f { r with title } = f r)
    (o : Outcome) (title : String) : (retitled o title).2.map f = o.trace.map f := by
  obtain ⟨htrace, hnew⟩ | ⟨before, r, htrace, hnew⟩ := retitled_trace o title
  · rw [htrace, hnew]
  · rw [htrace, hnew, List.map_append, List.map_append, List.map_singleton, List.map_singleton, hf]

end Engine

/-- **The reports are left as they are by another title**:
`ReportsOn root outcomes (Engine.titledAs title o).1 (Engine.titledAs title o).2`. -/
theorem ReportsOn.titledAs {root : Node} {outcomes : Path → Option Outcome} {o : Outcome}
    (h : ReportsOn root outcomes o.panel o.trace) (title : Option String) :
    ReportsOn root outcomes (Engine.titledAs title o).1 (Engine.titledAs title o).2 := by
  cases title with
  | none => exact h
  | some title =>
    show ReportsOn root outcomes (Engine.retitled o title).1 (Engine.retitled o title).2
    constructor
    case paths => exact (Engine.map_retitled (fun _ _ => rfl) o title).trans h.paths
    case reports =>
      obtain ⟨-, hnew⟩ | ⟨before, r, htrace, hnew⟩ := Engine.retitled_trace o title
      · rw [hnew]
        exact List.forall_mem_nil _
      · obtain ⟨hbefore, hlast⟩ := List.forall_mem_append.1 (htrace ▸ h.reports)
        rw [hnew]
        refine List.forall_mem_append.2 ⟨hbefore, List.forall_mem_singleton.2 ?_⟩
        obtain ⟨n, hn, htells⟩ := hlast r List.mem_cons_self
        exact ⟨n, hn, htells.kind, htells.children, htells.state⟩
    case errors =>
      rw [List.flatMap_def, Engine.map_retitled (fun _ _ => rfl) o title, ← List.flatMap_def]
      exact h.errors
    case result => exact h.result

/-! ## (5) Queries -/

/-- What a query that is evaluated in order leaves besides its result: a report for each node, and
for each node an outcome. -/
structure Engine.Trail (e : Engine) (root : Node) (panel : Panel Float) (trace : Trace) : Prop
    extends ReportsOn root (e.outcomeAt? root) panel trace where
  /-- Every node is complete on the outcomes of its children. One whose step fails has the entities
  and the hint of the first of them. -/
  outcomes : ∀ path n, root.at? path = some n → ∃ o os, e.outcomeAt? root path = some o ∧
    (∀ i, os[i]? = e.outcomeAt? root (path ++ [i])) ∧ e.complete path n os = .ok o ∧
    (e.Fails n os → o.panel.entities = (Engine.firstPanel os).entities ∧
      o.panel.hint = (Engine.firstPanel os).hint)

namespace Stage

variable {s : Stage} {e : Engine} {root n : Node} {path : Path} {o : Outcome} {os : List Outcome}

/-- `outcomeAt? s path`: what the node at a path has come to so far. -/
def outcomeAt? (s : Stage) (path : Path) : Option Outcome := s.completed.lookup path

/-- What a query leaves besides its result, in whatever way it is evaluated: a report for each node,
and for each node an outcome. -/
structure Trail (s : Stage) (e : Engine) (root : Node) (panel : Panel Float) (trace : Trace) : Prop
    extends ReportsOn root s.outcomeAt? panel trace where
  /-- Every node is complete on the outcomes of its children, with answers to its own calls. One
  whose step fails has the entities and the hint of the first of them. -/
  outcomes : ∀ path n, root.at? path = some n → ∃ o os own, s.outcomeAt? path = some o ∧
    (∀ i, os[i]? = s.outcomeAt? (path ++ [i])) ∧ (e.converse path n os).Held own (.ok o) ∧
    (∀ x ∈ own, x ∈ s.asked) ∧
    (e.FailsOn n os own → o.panel.entities = (Engine.firstPanel os).entities ∧
      o.panel.hint = (Engine.firstPanel os).hint)

/-- `s.outcomeAt? path = some o`: each complete node has one outcome. -/
theorem Sound.outcomeAt?_eq_some (h : s.Sound root) (ho : (path, o) ∈ s.completed) :
    s.outcomeAt? path = some o := by
  obtain ⟨before, after, hsplit⟩ := List.append_of_mem ho
  refine List.lookup_eq_some_iff.2 ⟨before, after, hsplit, fun p hp => ?_⟩
  have hnodup := h.nodup
  rw [paths, hsplit, List.map_append, List.map_cons] at hnodup
  obtain ⟨-, -, hdisjoint⟩ := List.nodup_append.1 hnodup
  exact bne_iff_ne.2 (hdisjoint _ (List.mem_map_of_mem hp) _ List.mem_cons_self).symm

/-- `os[i]? = s.outcomeAt? (path ++ [i])`: the outcomes on which a node was computed are those at
the paths of its children. -/
theorem Sound.getElem?_eq_outcomeAt? (h : s.Sound root) (hn : root.at? path = some n)
    (hos : Outcome.AtPlaces (fun o path _ => s.HandsOn path o) path os n.children.zipIdx) (i : Nat) :
    os[i]? = s.outcomeAt? (path ++ [i]) := by
  obtain ⟨ho, hnone⟩ | ⟨o, ⟨child, j⟩, ho, hplace, hrel⟩ := hos.getElem? i
  · -- there is no such child
    rw [ho, eq_comm, outcomeAt?, List.lookup_eq_none_iff]
    intro c hc
    obtain ⟨m, hm⟩ := h.at_paths c.1 (List.mem_map_of_mem hc)
    rw [bne_iff_ne]
    intro heq
    rw [← heq, Node.at?_concat hn] at hm
    rw [List.getElem?_zipIdx, hm] at hnone
    cases hnone
  · rw [List.getElem?_zipIdx, Nat.zero_add] at hplace
    obtain ⟨_, -, heq⟩ := Option.map_eq_some_iff.1 hplace
    obtain ⟨rfl, rfl⟩ := Prod.mk.inj heq
    rw [ho, h.outcomeAt?_eq_some hrel.mem_completed]

end Stage

namespace Engine

variable {e : Engine} {root : Node} {title : Option String} {s : Stage} {o : Outcome}

/-- **A query that has an outcome in order leaves a trail**:
`e.Trail root (titledAs title o).1 (titledAs title o).2`. -/
theorem run_trail (h : (e.run [] root).result = .ok o) (title : Option String) :
    e.Trail root (titledAs title o).1 (titledAs title o).2 where
  toReportsOn :=
    ((run_hasTrail h).reportsOn (outcomeAt?_eq_some root.at?_nil h)).titledAs title
  outcomes path n hn := by
    obtain ⟨o', ho'⟩ := run_at? h hn
    obtain ⟨os, hos, hcomplete⟩ := run_eq_ok.1 ho'
    exact ⟨o', os, outcomeAt?_eq_some hn ho', getElem?_eq_outcomeAt? hn hos, hcomplete,
      complete_of_fails hcomplete⟩

/-- **Every outcome of a query has a trail**, in whatever order the nodes are computed:
`o.HasTrail path n`. -/
theorem Reaches.hasTrail {allowed : Exchange → Prop} (h : e.Reaches root allowed s) {path : Path}
    {n : Node} (ho : (path, o) ∈ s.completed) (hn : root.at? path = some n) : o.HasTrail path n :=
  h.outcomes Outcome.HasTrail (fun _ _ _ _ _ hos hheld _ => converse_hasTrail hos hheld)
    path o n ho hn

/-- **A query that has a result leaves a trail**, in whatever way it is evaluated:
`s.Trail e root panel trace`. -/
theorem Executes.trail {panel : Panel Float} {trace : Trace}
    (h : e.Executes root title s (.ok (panel, trace))) : s.Trail e root panel trace := by
  obtain ⟨-, hreaches, o, ho, hresult⟩ := h.of_ok
  obtain ⟨rfl, rfl⟩ := Prod.mk.inj hresult
  have hsound := hreaches.sound
  constructor
  case toReportsOn =>
    have htrail := hreaches.hasTrail ho.mem_completed root.at?_nil
    exact (htrail.reportsOn (hsound.outcomeAt?_eq_some ho.mem_completed)).titledAs title
  case outcomes =>
    intro path n hn
    obtain ⟨⟨_, o'⟩, hmem, rfl⟩ :=
      List.mem_map.1 (hsound.mem_paths_of_root ho.mem_paths hn)
    obtain ⟨n', os, own, hn', hos, hheld, hown⟩ := hreaches.computed _ o' hmem
    obtain rfl := Option.some.inj (hn'.symm.trans hn)
    exact ⟨o', os, own, hsound.outcomeAt?_eq_some hmem, hsound.getElem?_eq_outcomeAt? hn hos,
      hheld, hown, converse_of_fails hheld⟩

/-- **The trail of a query** that has a result, under whatever title: a report for each node, no
problem besides those of the reports, and a node whose step fails hands its first input on. So it is
with `execute`, and in whatever way the query is evaluated. -/
theorem execute_trail (e : Engine) (root : Node) (title : Option String) {panel : Panel Float}
    {trace : Trace} :
    ((e.execute root title).result = .ok (panel, trace) → e.Trail root panel trace) ∧
    ∀ s, e.Executes root title s (.ok (panel, trace)) → s.Trail e root panel trace := by
  refine ⟨fun h => ?_, fun s => Executes.trail⟩
  by_cases hvalid : root.violations e.table e.settings.maxDepth = []
  · rw [execute_of_valid hvalid] at h
    obtain ⟨o, ho, hresult⟩ := map_eq_ok.1 h
    obtain ⟨rfl, rfl⟩ := Prod.mk.inj hresult
    exact run_trail ho title
  · rw [execute_of_invalid hvalid] at h
    cases h

end Engine

/-- A query for the prices of a set of entities and a formula over them that is none. -/
def Node.brokenFormula : Node :=
  ⟨.formula, [{ canonicalName := "Formula", kind := .formula, parameters := ["val1 ?"] }],
    [.prices]⟩

/-- A formula that is none, with the prices of a library below it. -/
theorem Engine.execute_trail_brokenFormula : ∃ panel trace,
    (Engine.execute { sources := Library.prices.sources false } .brokenFormula none).result =
      .ok (panel, trace) ∧ panel.entities.length = 1 ∧
    panel.errors =
      ["Formula: formula 'val1 ?' does not compile: Syntax error at 5: unexpected input '?'"] ∧
    Engine.Trail { sources := Library.prices.sources false } .brokenFormula panel trace := by
  have hshown : ((Engine.execute { sources := Library.prices.sources false } .brokenFormula
      none).result.toOption.map fun r => (r.1.entities.length, r.1.errors)) =
      some (1, ["Formula: formula 'val1 ?' does not compile: Syntax error at 5: " ++
        "unexpected input '?'"]) := by decide +kernel
  cases hresult : (Engine.execute { sources := Library.prices.sources false } .brokenFormula
      none).result with
  | error cause =>
    rw [hresult] at hshown
    cases hshown
  | ok r =>
    rw [hresult] at hshown
    obtain ⟨hlength, herrors⟩ := Prod.mk.inj (Option.some.inj hshown)
    exact ⟨r.1, r.2, rfl, hlength, herrors,
      (Engine.execute_trail _ .brokenFormula none).1 hresult⟩

end PanelQuery
