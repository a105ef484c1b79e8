import PanelQuery.Proofs.Query.Trail
import PanelQuery.Proofs.Query.Traversal

/-! # The text of a trace

A trace is drawn from its reports alone: each tells how many children its node has, and a child is
looked up by its path. Drawing comes to an end whatever the reports are, since no path without a
report is followed any further. The trace of a query that has a result is drawn as the tree of the
query.

* **`Trace.Draws`** — how a node and all below it are drawn, at a level and after some text;
* **`Trace.draws_lines`, `Trace.Draws.unique`** — drawing ends, with one result;
* **`Node.lasts`, `Trace.rails`, `Trace.indent`** — what stands in front of the lines of a node, by
  the steps on the way to it;
* **`Trace.childStem_indent`** — the replacement of branches leads from one to the other;
* **`Trace.Shows`, `Trace.Covers.draws`** — a trace that tells all of a query, and its lines;
* **`Trace.render_drawn`** — the text of any trace, and of that of a result. -/

namespace PanelQuery

/-! ## (1) Text that is passed over -/

namespace Text

/-- At no place of `a`, whatever comes after it, does `pattern` stand. -/
def Passes (pattern a : String) : Prop :=
  ∀ new rest, replaceFrom pattern.toList new 0 (a.toList ++ rest) =
    a.toList ++ replaceFrom pattern.toList new 0 rest

variable {pattern a b : String}

/-- `replace pattern new (a ++ b)` starts with `a`. -/
theorem Passes.replace_append (h : Passes pattern a) (new : String) :
    replace pattern new (a ++ b) = a ++ replace pattern new b := by
  rw [replace, String.toList_append, h, String.ofList_append, String.ofList_toList]
  rfl

/-- One text after another: `Passes pattern (a ++ b)`. -/
theorem Passes.append (ha : Passes pattern a) (hb : Passes pattern b) : Passes pattern (a ++ b) := by
  intro new rest
  rw [String.toList_append, List.append_assoc, ha, hb, List.append_assoc]

end Text

namespace Trace

variable {t : Trace} {level : Nat} {current : String} {path : Path} {drawn : List String}

/-! ## (2) Drawing ends -/

/-- The lines of the node at a path and of all nodes below it, at a level and after `current`. What
has a report is followed to as many children as that tells. -/
inductive Draws (t : Trace) : (level : Nat) → (current : String) → Path → List String → Prop
  | missing {level : Nat} {current : String} {path : Path} (h : t.report? path = none) :
      Draws t level current path [current ++ "[L" ++ toString level ++ "] (not evaluated)"]
  | node {level : Nat} {current : String} {path : Path} {r : NodeReport}
      {below : Nat → List String} (h : t.report? path = some r)
      (hbelow : ∀ n < r.children, Draws t (level + 1)
        (childStem current ++ branchTo (n + 1 == r.children)) (path ++ [n]) (below n)) :
      Draws t level current path
        ((current ++ r.line level) :: r.errorLines (childStem current) ++
          (List.range r.children).flatMap below)

/-- **There is only one way to draw** a node: `others = drawn`. -/
theorem Draws.unique (h : t.Draws level current path drawn) {others : List String}
    (hothers : t.Draws level current path others) : others = drawn := by
  induction h generalizing others with
  | missing hnone =>
    cases hothers with
    | missing _ => rfl
    | node hsome _ => cases hnone.symm.trans hsome
  | node hsome _ ih =>
    cases hothers with
    | missing hnone => cases hnone.symm.trans hsome
    | node hsome' hbelow =>
      obtain rfl := Option.some.inj (hsome.symm.trans hsome')
      congr 1
      refine List.flatMap_congr fun n hn => ?_
      have hlt := List.mem_range.1 hn
      exact ih n hlt (hbelow n hlt)

/-- **Drawing ends**: `lines` gives what is drawn. -/
theorem draws_lines (t : Trace) (level : Nat) (current : String) (path : Path) :
    t.Draws level current path (t.lines level current path) := by
  -- each step to a child leaves one level less
  induction hleft : t.levels - path.length using Nat.strongRecOn generalizing level current path with
  | _ left ih =>
    rw [lines]
    split
    · rename_i hnone
      exact .missing hnone
    · rename_i r hsome
      refine .node hsome fun n _ => ih (t.levels - (path ++ [n]).length) ?_ _ _ _ rfl
      have hlt := length_lt_levels hsome
      rw [List.length_append, List.length_singleton]
      omega

/-! ## (3) What stands in front of lines -/

/-- What stands below a branch to a child, the last one or not. -/
def rail (last : Bool) : String := if last then "   " else "|  "

/-- What stands in front of all that is below a node, by the steps on the way to it. -/
def rails (lasts : List Bool) : String := String.join (lasts.map rail)

/-- What stands in front of a node, by the steps on the way to it. -/
def indent (lasts : List Bool) : String :=
  rails lasts.dropLast ++ String.join (lasts.getLast?.toList.map branchTo)

/-- `rails (lasts ++ [last]) = rails lasts ++ rail last`: one more step. -/
theorem rails_concat (lasts : List Bool) (last : Bool) :
    rails (lasts ++ [last]) = rails lasts ++ rail last := by
  simp [rails]

/-- `indent (lasts ++ [last]) = rails lasts ++ branchTo last`: the branch of one more step. -/
theorem indent_concat (lasts : List Bool) (last : Bool) :
    indent (lasts ++ [last]) = rails lasts ++ branchTo last := by
  simp [indent]

/-- `(rails lasts).length = 3 * lasts.length`: there are three characters for each step. -/
theorem length_rails (lasts : List Bool) : (rails lasts).length = 3 * lasts.length := by
  induction lasts using List.reverseRecOn with
  | nil => rfl
  | append_singleton lasts last ih =>
    have hrail : (rail last).length = 3 := by cases last <;> rfl
    rw [rails_concat, String.length_append, ih, hrail, List.length_append, List.length_singleton,
      Nat.mul_succ]

/-- `(indent lasts).length = 3 * lasts.length`: there are three characters for each step. -/
theorem length_indent (lasts : List Bool) : (indent lasts).length = 3 * lasts.length := by
  induction lasts using List.reverseRecOn with
  | nil => rfl
  | append_singleton lasts last ih =>
    have hbranch : (branchTo last).length = 3 := by cases last <;> rfl
    rw [indent_concat, String.length_append, length_rails, hbranch, List.length_append,
      List.length_singleton, Nat.mul_succ]

/-- No branch stands in the text below branches: `Text.Passes (branchTo last) (rails lasts)`. -/
theorem passes_rails (last : Bool) (lasts : List Bool) :
    Text.Passes (branchTo last) (rails lasts) := by
  induction lasts using List.reverseRecOn with
  | nil => exact fun new rest => rfl
  | append_singleton lasts step ih =>
    rw [rails_concat]
    refine ih.append fun new rest => ?_
    cases last <;> cases step <;> rfl

/-- **The replacement of branches** leads from what stands in front of a node to what stands in
front of all that is below it: `childStem (indent lasts) = rails lasts`. -/
theorem childStem_indent (lasts : List Bool) : childStem (indent lasts) = rails lasts := by
  induction lasts using List.reverseRecOn with
  | nil => rfl
  | append_singleton lasts last _ =>
    -- only the branch at the end is replaced, by one of the two replacements
    have hlast : Text.replace "`--" "   " (rails lasts ++ branchTo last) =
        rails lasts ++ Text.replace "`--" "   " (branchTo last) :=
      (passes_rails true lasts).replace_append _
    have hother : ∀ b, Text.replace "|--" "|  " (rails lasts ++ b) =
        rails lasts ++ Text.replace "|--" "|  " b :=
      fun b => (passes_rails false lasts).replace_append _
    have hbranch : Text.replace "|--" "|  " (Text.replace "`--" "   " (branchTo last)) =
        rail last := by cases last <;> rfl
    rw [indent_concat, childStem, hlast, hother, hbranch, rails_concat]

end Trace

/-- The lines of a report at a level: that of its node and one for each problem, by the steps on the
way to the node. -/
def NodeReport.block (r : NodeReport) (level : Nat) (lasts : List Bool) : List String :=
  (Trace.indent lasts ++ r.line level) :: r.errorLines (Trace.rails lasts)

/-- For each step of a path, whether it leads to the last child. -/
def Node.lasts (n : Node) : Path → List Bool
  | [] => []
  | i :: path =>
      (i + 1 == n.children.length) ::
        (n.children[i]?.map fun child => child.lasts path).getD []

/-- `n.lasts (i :: path) = (i + 1 == n.children.length) :: child.lasts path`: the first step of a
path to a node. -/
theorem Node.lasts_cons {n child : Node} {i : Nat} (hchild : n.children[i]? = some child)
    (path : Path) : n.lasts (i :: path) = (i + 1 == n.children.length) :: child.lasts path := by
  rw [lasts, hchild, Option.map_some, Option.getD_some]

/-- `(root.lasts path).length = path.length`: there are as many steps as the path has. -/
theorem Node.length_lasts {root n : Node} {path : Path} (hn : root.at? path = some n) :
    (root.lasts path).length = path.length := by
  induction path generalizing root with
  | nil => rfl
  | cons i path ih =>
    obtain ⟨child, hchild, hn⟩ := Option.bind_eq_some_iff.1 (at?_cons .. ▸ hn)
    rw [lasts_cons hchild, List.length_cons, List.length_cons, ih hn]

/-! ## (4) A trace of a query -/

namespace Trace

variable {t : Trace} {path : Path} {root n : Node} {reports : Path → NodeReport}

/-- `Covers t reports path n`: the trace has reports on all nodes from the one at a path on. -/
def Covers (t : Trace) (reports : Path → NodeReport) (path : Path) (n : Node) : Prop :=
  ∀ below m, n.at? below = some m →
    t.report? (path ++ below) = some (reports (path ++ below)) ∧ (reports (path ++ below)).Tells m

/-- Reports on all nodes from one on are such reports from a child on:
`t.Covers reports (path ++ [i]) child`. -/
theorem Covers.child (h : t.Covers reports path n) {i : Nat} {child : Node}
    (hchild : n.children[i]? = some child) : t.Covers reports (path ++ [i]) child := by
  intro below m hm
  rw [← List.append_cons]
  refine h (i :: below) m ?_
  rw [Node.at?_cons, hchild, Option.bind_some, hm]

/-- **A node with all below it** is drawn by the reports, a parent before its children and these in
order. The level of a node is one more than the length of its path. -/
theorem Covers.draws (h : t.Covers reports path n) (lasts : List Bool) :
    t.Draws (path.length + 1) (indent lasts) path
      (n.preOrder.flatMap fun below =>
        (reports (path ++ below)).block ((path ++ below).length + 1) (lasts ++ n.lasts below)) := by
  induction n using Node.induction generalizing path lasts with
  | node n ih =>
    obtain ⟨hreport, htells⟩ := h [] n n.at?_nil
    rw [List.append_nil] at hreport htells
    rw [Node.flatMap_preOrder, ← htells.children, List.append_nil, Node.lasts, List.append_nil,
      NodeReport.block, ← childStem_indent]
    refine .node hreport fun i hi => ?_
    rw [htells.children] at hi ⊢
    have hchild := List.getElem?_eq_getElem hi
    -- the child is drawn with one more step on the way to it
    have hdraws := ih _ (List.getElem_mem hi) (h.child hchild)
      (lasts ++ [i + 1 == n.children.length])
    rw [indent_concat, ← childStem_indent, List.length_append, List.length_singleton] at hdraws
    simp only [hchild, Option.map_some, Option.getD_some, Node.lasts_cons hchild] at hdraws ⊢
    simp only [List.append_assoc, List.singleton_append] at hdraws
    exact hdraws

/-! ## (5) The text -/

/-- Lines as a text. -/
def unlines (lines : List String) : String := String.join (lines.map fun line => line ++ "\n")

/-- The two lines above a tree. -/
def heading (root : NodeReport) : List String :=
  ["EXECUTION TRACE for '" ++ root.title ++ "':", String.ofList (List.replicate 50 '-')]

/-- `textOf t lines`: the text of a trace, by the lines of its tree. -/
def textOf (t : Trace) (lines : List String) : String :=
  unlines <| match t.report? [] with
    | some root => heading root ++ lines
    | none => ["Error: nothing was evaluated"]

/-- `t.render = t.textOf drawn`: the text of a trace is that of the lines that are drawn. -/
theorem render_eq_textOf {drawn : List String} (h : t.Draws 1 "" [] drawn) :
    t.render = t.textOf drawn := by
  rw [render, textOf, h.unique (t.draws_lines 1 "" [])]
  cases t.report? [] <;> rfl

/-- **Where there are reports on a query**, there is one on each node:
`∃ reports, t.Covers reports [] root`. -/
theorem exists_covers {outcomes : Path → Option Outcome} {panel : Panel Float}
    (h : ReportsOn root outcomes panel t) : ∃ reports, t.Covers reports [] root := by
  have hreport : ∀ path n, root.at? path = some n → ∃ r, t.report? path = some r ∧ r.Tells n := by
    intro path n hn
    have hmem : path ∈ t.map NodeReport.path := h.paths ▸ Node.mem_postOrder.2 ⟨n, hn⟩
    obtain ⟨r, hr, rfl⟩ := List.mem_map.1 hmem
    have hfound : (t.report? r.path).isSome :=
      List.find?_isSome.2 ⟨r, List.mem_reverse.2 hr, beq_self_eq_true r.path⟩
    obtain ⟨r', hr'⟩ := Option.isSome_iff_exists.1 hfound
    obtain ⟨hmem', hpath⟩ := report?_eq_some hr'
    obtain ⟨m, hm, htells⟩ := h.reports r' hmem'
    rw [hpath, hn] at hm
    exact ⟨r', hr', Option.some.inj hm ▸ htells⟩
  obtain ⟨first, -, -⟩ := hreport [] root root.at?_nil
  refine ⟨fun path => (t.report? path).getD first, fun path n hn => ?_⟩
  obtain ⟨r, hr, htells⟩ := hreport path n hn
  dsimp only
  rw [List.nil_append, hr]
  exact ⟨rfl, htells⟩

/-- What the text of a trace shows of a query: below the two lines of its heading one line for each
node, followed by those of the node's problems. -/
structure Shows (t : Trace) (root : Node) : Prop where
  /-- Each node has one path among those that are shown. -/
  nodup : root.preOrder.Nodup
  mem_iff : ∀ path, path ∈ root.preOrder ↔ (root.at? path).isSome
  /-- Parents come before their children, and these in order. -/
  order : root.preOrder.Pairwise fun p q => q.Below p ∨ p.LeftOf q
  /-- There are three characters in front for each step from the root. -/
  indent : ∀ path ∈ root.preOrder, (indent (root.lasts path)).length = 3 * path.length
  /-- The lines are those of one report on each node, at the level of its path. -/
  text : ∃ reports : Path → NodeReport,
    (∀ path n, root.at? path = some n →
      reports path ∈ t ∧ (reports path).path = path ∧ (reports path).Tells n) ∧
    t.render = unlines (heading (reports []) ++
      root.preOrder.flatMap fun path =>
        (reports path).block (path.length + 1) (root.lasts path))

/-- **Reports on a query** show all of it: `t.Shows root`. -/
theorem shows_of_reportsOn {outcomes : Path → Option Outcome} {panel : Panel Float}
    (h : ReportsOn root outcomes panel t) : t.Shows root := by
  have hmem : ∀ {path}, path ∈ root.preOrder ↔ ∃ n, root.at? path = some n :=
    (root.preOrder_perm_postOrder.mem_iff).trans Node.mem_postOrder
  obtain ⟨reports, hcovers⟩ := exists_covers h
  constructor
  case nodup => exact root.preOrder_perm_postOrder.nodup_iff.2 root.postOrder_nodup
  case mem_iff => exact fun path => hmem.trans Option.isSome_iff_exists.symm
  case order => exact root.pairwise_preOrder
  case indent =>
    intro path hpath
    obtain ⟨n, hn⟩ := hmem.1 hpath
    rw [length_indent, Node.length_lasts hn]
  case text =>
    refine ⟨reports, fun path n hn => ?_, ?_⟩
    · obtain ⟨hreport, htells⟩ := hcovers path n hn
      obtain ⟨hmem, hpath⟩ := report?_eq_some hreport
      exact ⟨hmem, hpath, htells⟩
    · have hroot : t.report? [] = some (reports []) := (hcovers [] root root.at?_nil).1
      rw [render_eq_textOf (hcovers.draws []), textOf, hroot]
      rfl

/-- **The text of a trace.** Whatever its reports are, drawing it comes to an end with one result,
which is its text. The trace of a query that has a result shows all nodes of the query, in whatever
way that is evaluated. -/
theorem render_drawn (t : Trace) :
    (∃ lines, t.Draws 1 "" [] lines ∧ (∀ others, t.Draws 1 "" [] others → others = lines) ∧
      t.render = t.textOf lines) ∧
    ∀ (e : Engine) (root : Node) (title : Option String) (panel : Panel Float),
      ((e.execute root title).result = .ok (panel, t) → t.Shows root) ∧
      ∀ s, e.Executes root title s (.ok (panel, t)) → t.Shows root := by
  constructor
  · have hdrawn := t.draws_lines 1 "" []
    exact ⟨_, hdrawn, fun _ hothers => hdrawn.unique hothers, render_eq_textOf hdrawn⟩
  · intro e root title panel
    have hall : ∀ s, e.Executes root title s (.ok (panel, t)) → t.Shows root :=
      fun s h => shows_of_reportsOn h.trail.toReportsOn
    refine ⟨fun h => ?_, hall⟩
    -- the evaluation in order is one of these ways
    obtain ⟨s, -, -, hexecutes⟩ := e.exists_executes_sequential root title
    exact hall s (h ▸ hexecutes)

end Trace

/-- A query for the prices of a set of entities, with a formula that is none, together with the set
itself. -/
def Node.joined : Node :=
  ⟨.setOperation, [{ canonicalName := "Union", kind := .setOperation }],
    [.brokenFormula, .tech]⟩

/-- The text of its trace. -/
def Node.joinedText : String :=
  "EXECUTION TRACE for 'Set Operation (Universe -> Data -> Formula, Universe)':\n" ++
  "--------------------------------------------------\n" ++
  "[L1] Set Operation (Universe -> Data -> Formula, Universe) <Set Operation> = SetAlgebra " ++
  "[1 entities]\n" ++
  "|--[L2] Universe -> Data -> Formula <Formula> = Formula [1 entities]\n" ++
  "|  |  ! Formula: formula 'val1 ?' does not compile: Syntax error at 5: unexpected input '?'\n" ++
  "|  `--[L3] Universe -> Data <Data> = FetchFields [1 entities]\n" ++
  "|     `--[L4] Universe <Universe> = ResolveUniverse [1 entities]\n" ++
  "`--[L2] Universe <Universe> = ResolveUniverse [1 entities]\n"

/-- The trace of a query with two branches, one of which has a problem, shows all of its nodes. -/
theorem Trace.render_drawn_joined : ∃ panel trace,
    (Engine.execute { sources := Library.prices.sources false } .joined none).result =
      .ok (panel, trace) ∧ trace.Shows .joined ∧ trace.render = Node.joinedText := by
  have hshown : ((Engine.execute { sources := Library.prices.sources false } .joined
      none).result.toOption.map fun r => r.2.render) = some Node.joinedText := by decide +kernel
  cases hresult : (Engine.execute { sources := Library.prices.sources false } .joined
      none).result with
  | error cause =>
    rw [hresult] at hshown
    cases hshown
  | ok r =>
    rw [hresult] at hshown
    exact ⟨r.1, r.2, rfl, ((Trace.render_drawn r.2).2 _ .joined none r.1).1 hresult,
      Option.some.inj hshown⟩

end PanelQuery
