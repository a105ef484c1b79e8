import PanelQuery.Proofs.Query.Stages

/-! # Nodes in order

The evaluation of a query that takes one node after the other, children before their parent, and
sends each message at once, is made of moves like any other.

* **`Stage.extend`** — a stage after more nodes, on which the messages were sent in order;
* **`Engine.Evaluates`** — what the moves of an evaluation in order come to;
* **`Engine.exists_evaluates`** — the evaluation of a node and of all below it;
* **`Engine.exists_sequential`** — the evaluation of a query. -/

namespace PanelQuery

/-! ## (1) More nodes in order -/

namespace Stage

variable {s : Stage} {new : List (Path × Outcome)} {own : List Exchange}
  {causes : List (Path × QueryError)}

/-- `extend s new own causes`: a stage with more nodes that are complete, on which the messages were
sent in order, and more calls and failures. -/
def extend (s : Stage) (new : List (Path × Outcome)) (own : List Exchange)
    (causes : List (Path × QueryError)) : Stage :=
  { completed := s.completed ++ new
    sent := s.sent ++ List.range' s.completed.length new.length
    failed := s.failed ++ causes
    asked := s.asked ++ own }

/-- `s.extend [] [] [] = s`: nothing more. -/
theorem extend_nil (s : Stage) : s.extend [] [] [] = s := by
  simp only [extend, List.append_nil, List.length_nil, List.range'_zero]

/-- More, and still more: `(s.extend new own causes).extend new' own' causes'` is
`s.extend (new ++ new') (own ++ own') (causes ++ causes')`. -/
theorem extend_extend (s : Stage) (new new' : List (Path × Outcome)) (own own' : List Exchange)
    (causes causes' : List (Path × QueryError)) :
    (s.extend new own causes).extend new' own' causes' =
      s.extend (new ++ new') (own ++ own') (causes ++ causes') := by
  simp only [extend, List.append_assoc, List.length_append, List.range'_append_1]

/-- One more node: `s.extend [(path, o)] own [] = { s with completed := s.completed ++ [(path, o)]
sent := s.sent ++ [s.completed.length] asked := s.asked ++ own }`. -/
theorem extend_one (s : Stage) (path : Path) (o : Outcome) (own : List Exchange) :
    s.extend [(path, o)] own [] =
      { s with
        completed := s.completed ++ [(path, o)]
        sent := s.sent ++ [s.completed.length]
        asked := s.asked ++ own } := by
  simp only [extend, List.append_nil, List.length_singleton, List.range'_one]

/-- One more failure: `s.extend [] own [(path, cause)]` is
`{ s with failed := s.failed ++ [(path, cause)], asked := s.asked ++ own }`. -/
theorem extend_failure (s : Stage) (path : Path) (cause : QueryError) (own : List Exchange) :
    s.extend [] own [(path, cause)] =
      { s with failed := s.failed ++ [(path, cause)], asked := s.asked ++ own } := by
  simp only [extend, List.append_nil, List.length_nil, List.range'_zero]

/-- `(s.extend new own causes).paths = s.paths ++ new.map Prod.fst`: the complete nodes. -/
theorem paths_extend : (s.extend new own causes).paths = s.paths ++ new.map Prod.fst :=
  List.map_append

/-- What is new is handed on: `(s.extend new own causes).HandsOn path o`. -/
theorem handsOn_extend {path : Path} {o : Outcome} (h : (path, o) ∈ new) :
    (s.extend new own causes).HandsOn path o := by
  obtain ⟨k, hk⟩ := List.mem_iff_getElem?.1 h
  refine ⟨s.completed.length + k, List.mem_append_right _ (List.mem_range'_1.2 ⟨?_, ?_⟩), ?_⟩
  · exact Nat.le_add_right _ _
  · exact Nat.add_lt_add_left (List.getElem?_eq_some_iff.1 hk).1 _
  · show (s.completed ++ new)[s.completed.length + k]? = some (path, o)
    rw [List.getElem?_append_right (Nat.le_add_right _ _), Nat.add_sub_cancel_left, hk]

/-- The messages on nodes that were counted one after the other. -/
theorem filterMap_message? (before : List (Path × Outcome)) (h : s.completed = before ++ new)
    (total : Nat) :
    (List.range' before.length new.length).filterMap (s.message? total) =
      ((new.map fun c => c.2.title).zipIdx before.length).map
        fun (title, k) => ⟨title, fraction total k⟩ := by
  induction new generalizing before with
  | nil => rfl
  | cons c new ih =>
    have hmessage : s.message? total before.length =
        some ⟨c.2.title, fraction total before.length⟩ := by
      rw [message?, h, List.getElem?_append_right (Nat.le_refl _), Nat.sub_self]
      rfl
    have hrest : s.completed = before ++ [c] ++ new := by rw [h, List.append_assoc]; rfl
    have ih := ih (before ++ [c]) hrest
    rw [List.length_append, List.length_singleton] at ih
    rw [List.length_cons, List.range'_succ, List.filterMap_cons_some hmessage, ih]
    rfl

/-- **Messages in order** are those of nodes that are evaluated in order:
`(extend {} new own causes).messages total` is
`Engine.progressOf total (new.map fun c => c.2.title)`. -/
theorem messages_extend (new : List (Path × Outcome)) (own : List Exchange)
    (causes : List (Path × QueryError)) (total : Nat) :
    (extend {} new own causes).messages total =
      Engine.progressOf total (new.map fun c => c.2.title) :=
  filterMap_message? (s := extend {} new own causes) [] rfl total

/-- A stage from which the nodes at some paths may be computed, one after the other. -/
structure Fresh (s : Stage) (order : List Path) : Prop where
  nodup : order.Nodup
  paths : ∀ p ∈ order, p ∉ s.paths
  failed : s.failed = []
  sent_lt : ∀ k ∈ s.sent, k < s.completed.length

/-- The first of the nodes: `s.Fresh first`. -/
theorem Fresh.left {first second : List Path} (h : s.Fresh (first ++ second)) : s.Fresh first :=
  ⟨(List.nodup_append.1 h.nodup).1, fun p hp => h.paths p (List.mem_append_left _ hp), h.failed,
    h.sent_lt⟩

/-- The nodes that are left once the first of them are complete:
`(s.extend new own []).Fresh second`. -/
theorem Fresh.right {second : List Path} (h : s.Fresh (new.map Prod.fst ++ second))
    (own : List Exchange) : (s.extend new own []).Fresh second := by
  obtain ⟨-, hsecond, hdisjoint⟩ := List.nodup_append.1 h.nodup
  constructor
  case nodup => exact hsecond
  case paths =>
    intro p hp hmem
    rw [paths_extend] at hmem
    rcases List.mem_append.1 hmem with hmem | hmem
    · exact h.paths p (List.mem_append_right _ hp) hmem
    · exact hdisjoint p hmem p hp rfl
  case failed => exact (List.append_nil _).trans h.failed
  case sent_lt =>
    intro k hk
    show k < (s.completed ++ new).length
    rw [List.length_append]
    rcases List.mem_append.1 hk with hk | hk
    · exact Nat.lt_add_right _ (h.sent_lt k hk)
    · exact (List.mem_range'_1.1 hk).2

end Stage

/-! ## (2) Paths in order -/

namespace Node

/-- `n.postOrder.map (path ++ ·) = (postOrderFrom 0 n.children).map (path ++ ·) ++ [path]`: the
paths below a node, and its own. -/
theorem map_postOrder (path : Path) (n : Node) :
    n.postOrder.map (path ++ ·) = (postOrderFrom 0 n.children).map (path ++ ·) ++ [path] := by
  cases n with
  | mk kind arguments children =>
    rw [postOrder, List.map_append, List.map_singleton, List.append_nil]

/-- The paths of the first of several children, and those of the others:
`(postOrderFrom k (child :: rest)).map (path ++ ·)` is
`child.postOrder.map (path ++ [k] ++ ·) ++ (postOrderFrom (k + 1) rest).map (path ++ ·)`. -/
theorem map_postOrderFrom_cons (path : Path) (k : Nat) (child : Node) (rest : List Node) :
    (postOrderFrom k (child :: rest)).map (path ++ ·) =
      child.postOrder.map (path ++ [k] ++ ·) ++ (postOrderFrom (k + 1) rest).map (path ++ ·) := by
  rw [postOrderFrom, List.map_append, List.map_map]
  congr 1
  exact List.map_congr_left fun p _ => List.append_cons path k p

end Node

/-! ## (3) Runs as moves -/

namespace Engine

variable {e : Engine} {root n : Node} {s : Stage} {path : Path} {os : List Outcome}

/-- The moves that evaluate nodes in order, and what they come to. -/
structure Evaluates {β : Type} (e : Engine) (root : Node) (s : Stage) (order : List Path)
    (r : Run β) (new : List (Path × Outcome)) (own : List Exchange)
    (causes : List (Path × QueryError)) (done : β → Prop) : Prop where
  moves : Relation.ReflTransGen (e.Move root (Exchange.AnsweredBy e.sources)) s
    (s.extend new own causes)
  inOrder : new.map Prod.fst <+: order
  titles : new.map (fun c => c.2.title) = r.completed
  of_ok : ∀ b, r.result = .ok b → causes = [] ∧ new.map Prod.fst = order ∧ done b
  of_error : ∀ cause, r.result = .error cause → ∃ p, causes = [(p, cause)]

/-- Children of which the first has no outcome:
`e.runAll path k (child :: rest) = ⟨(e.run (path ++ [k]) child).completed, .error cause⟩`. -/
theorem runAll_of_error {k : Nat} {child : Node} {cause : QueryError} (rest : List Node)
    (h : (e.run (path ++ [k]) child).result = .error cause) :
    e.runAll path k (child :: rest) = ⟨(e.run (path ++ [k]) child).completed, .error cause⟩ := by
  rw [runAll]
  dsimp only
  rw [h]

/-- Children of which the first has an outcome. -/
theorem runAll_of_ok {k : Nat} {child : Node} {o : Outcome} (rest : List Node)
    (h : (e.run (path ++ [k]) child).result = .ok o) :
    e.runAll path k (child :: rest) =
      ⟨(e.run (path ++ [k]) child).completed ++ (e.runAll path (k + 1) rest).completed,
        (e.runAll path (k + 1) rest).result.map (o :: ·)⟩ := by
  rw [runAll]
  dsimp only
  rw [h]

/-- `e.run path n = ⟨(e.runAll path 0 n.children).completed, .error cause⟩`: a node whose children
have no outcomes. -/
theorem run_of_error {cause : QueryError}
    (h : (e.runAll path 0 n.children).result = .error cause) :
    e.run path n = ⟨(e.runAll path 0 n.children).completed, .error cause⟩ := by
  cases n with
  | mk kind arguments children =>
    rw [run]
    dsimp only at h ⊢
    rw [h]

/-- `e.run path n = ⟨(e.runAll path 0 n.children).completed, .error cause⟩`: a node whose children
have outcomes, and which has none. -/
theorem run_of_fails {cause : QueryError} (h : (e.runAll path 0 n.children).result = .ok os)
    (hfails : e.complete path n os = .error cause) :
    e.run path n = ⟨(e.runAll path 0 n.children).completed, .error cause⟩ := by
  cases n with
  | mk kind arguments children =>
    rw [run]
    dsimp only at h ⊢
    rw [h]
    dsimp only
    rw [hfails]

/-- `e.run path n = ⟨(e.runAll path 0 n.children).completed ++ [o.title], .ok o⟩`: a node whose
children have outcomes, and which has one itself. -/
theorem run_of_complete {o : Outcome} (h : (e.runAll path 0 n.children).result = .ok os)
    (hcomplete : e.complete path n os = .ok o) :
    e.run path n = ⟨(e.runAll path 0 n.children).completed ++ [o.title], .ok o⟩ := by
  cases n with
  | mk kind arguments children =>
    rw [run]
    dsimp only at h ⊢
    rw [h]
    dsimp only
    rw [hcomplete]

/-- A node that is computed, and the message on which is sent at once:
`Relation.ReflTransGen (e.Move root allowed) s (s.extend [(path, o)] own [])`. -/
theorem moves_complete {allowed : Exchange → Prop} {own : List Exchange} {o : Outcome}
    (hs : ∀ k ∈ s.sent, k < s.completed.length) (hready : s.Ready root path n os)
    (hheld : (e.converse path n os).Held own (.ok o)) (hallowed : ∀ x ∈ own, allowed x) :
    Relation.ReflTransGen (e.Move root allowed) s (s.extend [(path, o)] own []) := by
  rw [Stage.extend_one]
  refine (Relation.ReflTransGen.single (.complete hready hheld hallowed)).tail ?_
  refine .send ?_ fun hsent => absurd (hs _ hsent) (Nat.lt_irrefl _)
  rw [List.length_append, List.length_singleton]
  exact Nat.lt_succ_self _

/-- A node whose children have handed their outcomes on: `∃ new own causes, e.Evaluates root s
(n.postOrder.map (path ++ ·)) (e.run path n) new own causes fun o => (path, o) ∈ new`. -/
theorem evaluates_node {new : List (Path × Outcome)} {own : List Exchange}
    (h : e.Evaluates root s ((Node.postOrderFrom 0 n.children).map (path ++ ·))
      (e.runAll path 0 n.children) new own []
      fun os => Outcome.AtPlaces (fun o p _ => (p, o) ∈ new) path os n.children.zipIdx)
    (hn : root.at? path = some n) (hs : s.Fresh (n.postOrder.map (path ++ ·)))
    (hos : (e.runAll path 0 n.children).result = .ok os) :
    ∃ new own causes, e.Evaluates root s (n.postOrder.map (path ++ ·)) (e.run path n) new own causes
      fun o => (path, o) ∈ new := by
  obtain ⟨-, hall, hplaces⟩ := h.of_ok os hos
  rw [Node.map_postOrder] at hs ⊢
  rw [← hall] at hs ⊢
  have hlast := hs.right own
  -- all nodes below are complete now, and the messages on them are sent
  have hready : (s.extend new own []).Ready root path n os := by
    refine ⟨hn, hlast.paths path (List.mem_singleton_self path), ?_, ?_⟩
    · rw [Stage.failures, hlast.failed]
      exact List.not_mem_nil
    · exact hplaces.imp fun _ _ _ _ hmem => Stage.handsOn_extend hmem
  obtain ⟨own', r, hheld, hfollows⟩ :=
    (e.converse path n os).exists_held (fun _ => e.sources) []
  have hcomplete : e.complete path n os = r :=
    answered_converse.symm.trans (hheld.answered hfollows.answeredBy)
  cases r with
  | error cause =>
    rw [run_of_fails hos hcomplete]
    refine ⟨new, own ++ own', [(path, cause)], ?_, List.prefix_append _ _, h.titles, ?_, ?_⟩
    · have hmoves := h.moves.tail (.fail hready hheld hfollows.answeredBy)
      rwa [← Stage.extend_failure, Stage.extend_extend, List.append_nil, List.nil_append]
        at hmoves
    · intro o ho
      cases ho
    · intro cause' hcause
      cases hcause
      exact ⟨path, rfl⟩
  | ok o =>
    rw [run_of_complete hos hcomplete]
    refine ⟨new ++ [(path, o)], own ++ own', [], ?_, ?_, ?_, ?_, ?_⟩
    · have hmoves := h.moves.trans
        (moves_complete hlast.sent_lt hready hheld hfollows.answeredBy)
      rwa [Stage.extend_extend, List.append_nil] at hmoves
    · rw [List.map_append]
      exact List.prefix_rfl
    · rw [List.map_append, h.titles]
      rfl
    · intro o' ho'
      cases ho'
      exact ⟨rfl, List.map_append, List.mem_append_right _ (List.mem_singleton_self _)⟩
    · intro cause hcause
      cases hcause

/-- Children in order, each of which is evaluated by moves. -/
theorem exists_evaluates_all {k : Nat} {ns : List Node}
    (h : ∀ child ∈ ns, ∀ {s path}, root.at? path = some child →
      Stage.Fresh s (child.postOrder.map (path ++ ·)) → ∃ new own causes,
        e.Evaluates root s (child.postOrder.map (path ++ ·)) (e.run path child) new own causes
          fun o => (path, o) ∈ new)
    (hns : ∀ child ∈ ns.zipIdx k, root.at? (path ++ [child.2]) = some child.1)
    (hs : s.Fresh ((Node.postOrderFrom k ns).map (path ++ ·))) :
    ∃ new own causes, e.Evaluates root s ((Node.postOrderFrom k ns).map (path ++ ·))
      (e.runAll path k ns) new own causes
      fun os => Outcome.AtPlaces (fun o p _ => (p, o) ∈ new) path os (ns.zipIdx k) := by
  induction ns generalizing k s with
  | nil =>
    rw [runAll]
    refine ⟨[], [], [], ?_, List.nil_prefix, rfl, ?_, fun cause hcause => nomatch hcause⟩
    · rw [s.extend_nil]
    · intro os hos
      cases hos
      exact ⟨rfl, rfl, .nil⟩
  | cons child rest ih =>
    obtain ⟨hchild, hrest⟩ := List.forall_mem_cons.1 h
    obtain ⟨hat, hats⟩ := List.forall_mem_cons.1 hns
    rw [Node.map_postOrderFrom_cons] at hs ⊢
    obtain ⟨new, own, causes, hfirst⟩ := hchild hat hs.left
    cases hresult : (e.run (path ++ [k]) child).result with
    | error cause =>
      -- the other children are not computed
      rw [runAll_of_error rest hresult]
      refine ⟨new, own, causes, hfirst.moves, ?_, hfirst.titles, ?_, ?_⟩
      · exact hfirst.inOrder.trans (List.prefix_append _ _)
      · exact fun os hos => nomatch hos
      · intro cause' hcause
        cases hcause
        exact hfirst.of_error cause hresult
    | ok o =>
      -- the other children go on from the stage at which the first one is complete
      obtain ⟨rfl, hall, hdone⟩ := hfirst.of_ok o hresult
      rw [← hall] at hs ⊢
      obtain ⟨new', own', causes, hothers⟩ := ih hrest hats (hs.right own)
      rw [runAll_of_ok rest hresult]
      refine ⟨new ++ new', own ++ own', causes, ?_, ?_, ?_, ?_, ?_⟩
      · have hmoves := hfirst.moves.trans hothers.moves
        rwa [Stage.extend_extend, List.nil_append] at hmoves
      · rw [List.map_append]
        exact List.prefix_append_right_inj _ |>.2 hothers.inOrder
      · rw [List.map_append, hfirst.titles, hothers.titles]
      · intro os hos
        obtain ⟨os, hos', rfl⟩ := map_eq_ok.1 hos
        obtain ⟨rfl, hall', hplaces⟩ := hothers.of_ok os hos'
        refine ⟨rfl, ?_, .cons (List.mem_append_left _ hdone) ?_⟩
        · rw [List.map_append, hall']
        · exact hplaces.imp fun _ _ _ _ hmem => List.mem_append_right _ hmem
      · intro cause hcause
        refine hothers.of_error cause ?_
        cases hother : (e.runAll path (k + 1) rest).result with
        | ok os =>
          rw [hother] at hcause
          cases hcause
        | error cause' =>
          rw [hother] at hcause
          cases hcause
          rfl

/-- **The evaluation of a node and of all below it, in order, is made of moves**: `∃ new own causes,
e.Evaluates root s (n.postOrder.map (path ++ ·)) (e.run path n) new own causes fun o => (path, o) ∈
new`. -/
theorem exists_evaluates (hn : root.at? path = some n)
    (hs : s.Fresh (n.postOrder.map (path ++ ·))) : ∃ new own causes,
      e.Evaluates root s (n.postOrder.map (path ++ ·)) (e.run path n) new own causes
        fun o => (path, o) ∈ new := by
  induction n using Node.induction generalizing path s with
  | node n ih =>
    have hats : ∀ child ∈ n.children.zipIdx, root.at? (path ++ [child.2]) = some child.1 := by
      intro child hchild
      exact (Node.at?_concat hn _).trans (List.mem_zipIdx_iff_getElem?.1 hchild)
    have hbelow : s.Fresh ((Node.postOrderFrom 0 n.children).map (path ++ ·)) := by
      rw [Node.map_postOrder] at hs
      exact hs.left
    obtain ⟨new, own, causes, heval⟩ := exists_evaluates_all ih hats hbelow
    cases hresult : (e.runAll path 0 n.children).result with
    | error cause =>
      rw [run_of_error hresult, Node.map_postOrder]
      refine ⟨new, own, causes, heval.moves, ?_, heval.titles, ?_, ?_⟩
      · exact heval.inOrder.trans (List.prefix_append _ _)
      · exact fun o ho => nomatch ho
      · intro cause' hcause
        cases hcause
        exact heval.of_error cause hresult
    | ok os =>
      obtain ⟨rfl, -⟩ := heval.of_ok os hresult
      exact evaluates_node heval hn hs hresult

/-! ## (4) Queries -/

/-- A stage of the evaluation of a query in order. -/
structure Sequential (e : Engine) (root : Node) (s : Stage) : Prop where
  reaches : e.Reaches root (Exchange.AnsweredBy e.sources) s
  /-- The nodes are complete in their order, up to some node. -/
  paths : s.paths <+: root.postOrder
  /-- Each message is sent before the next node is counted. -/
  sent : s.sent = List.range s.completed.length

/-- At the beginning: `e.Sequential root {}`. -/
theorem sequential_empty (e : Engine) (root : Node) : e.Sequential root {} :=
  ⟨.refl, List.nil_prefix, rfl⟩

/-- **The evaluation of a query in order is made of moves**, with the same messages and the same
result: there is `s` with `e.Sequential root s`, `s.Returns (e.run [] root).result` and
`∀ total, s.messages total = progressOf total (e.run [] root).completed`. -/
theorem exists_sequential (e : Engine) (root : Node) :
    ∃ s, e.Sequential root s ∧ s.Returns (e.run [] root).result ∧
      ∀ total, s.messages total = progressOf total (e.run [] root).completed := by
  have horder : root.postOrder.map ([] ++ ·) = root.postOrder := List.map_id _
  have hfresh : Stage.Fresh {} (root.postOrder.map ([] ++ ·)) := by
    refine ⟨?_, fun p _ => List.not_mem_nil, rfl, List.forall_mem_nil _⟩
    rw [horder]
    exact root.postOrder_nodup
  obtain ⟨new, own, causes, heval⟩ := exists_evaluates root.at?_nil hfresh
  refine ⟨_, ⟨heval.moves, ?_, ?_⟩, ?_, fun total => ?_⟩
  · rw [← horder]
    exact heval.inOrder
  · exact List.range_eq_range'.symm
  · cases hresult : (e.run [] root).result with
    | ok o => exact .ok (Stage.handsOn_extend (heval.of_ok o hresult).2.2)
    | error cause =>
      obtain ⟨p, rfl⟩ := heval.of_error cause hresult
      exact .error (List.mem_append_right _ (List.mem_singleton_self _))
  · rw [Stage.messages_extend, heval.titles]

/-- `titledAs title o`: the result of a query whose root has an outcome, under another title if one
is given. -/
def titledAs (title : Option String) (o : Outcome) : Panel Float × Trace :=
  match title with
  | some title => retitled o title
  | none => (o.panel, o.trace)

/-- A valid query is evaluated: `e.execute root title = ⟨progressOf root.count (e.run []
root).completed, (e.run [] root).result.map (titledAs title)⟩`. -/
theorem execute_of_valid (hvalid : root.violations e.table e.settings.maxDepth = [])
    (title : Option String) :
    e.execute root title = ⟨progressOf root.count (e.run [] root).completed,
      (e.run [] root).result.map (titledAs title)⟩ := by
  unfold execute
  rw [hvalid, evaluate_eq]
  rfl

/-- A query that is not valid is not: `e.execute root title` is
`⟨[], .error (.malformed (root.violations e.table e.settings.maxDepth))⟩`. -/
theorem execute_of_invalid (hvalid : root.violations e.table e.settings.maxDepth ≠ [])
    (title : Option String) :
    e.execute root title =
      ⟨[], .error (.malformed (root.violations e.table e.settings.maxDepth))⟩ := by
  unfold execute
  split
  · rename_i hnil
    exact absurd hnil hvalid
  · rfl

end Engine

end PanelQuery
