import PanelQuery.Proofs.Query.Endings
import PanelQuery.Proofs.Query.Executions
import PanelQuery.Proofs.Query.Validity
import PanelQuery.Proofs.Query.WellFormed

/-! # What queries fail with

A query fails when it is malformed, which is told before anything is computed, when one of its calls
is cancelled, and when it comes to a step at which the computation is stopped. Nothing else keeps it
from having a result, whatever the sources answer and in whatever order its nodes are computed.

* **`Stage.StopsAt`** — the nodes at which an evaluation was stopped;
* **`Engine.Reaches.failures`, `Engine.Reaches.failed_ne_nil_iff`** — why nodes fail;
* **`Engine.FailsAs`, `Engine.execute_fails`** — all that queries fail with;
* **`Library.neverCancel_sources`** — sources that cancel no request;
* **`Engine.not_ok_farWindow`** — a query that is stopped. -/

namespace PanelQuery

/-- Sources that cancel no request. -/
structure Sources.NeverCancel (s : Sources) : Prop where
  series : ∀ key field, s.series key field ≠ .error .cancelled
  members : ∀ set, s.members set ≠ .error .cancelled

/-- An answer of such sources cancels no request: `¬x.Cancelled`. -/
theorem Exchange.AnsweredBy.not_cancelled {sources : Sources} {x : Exchange}
    (h : x.AnsweredBy sources) (hnever : sources.NeverCancel) : ¬x.Cancelled := by
  cases x with
  | series key field answer => exact fun hx => hnever.series key field (h.symm.trans hx)
  | members set answer => exact fun hx => hnever.members set (h.symm.trans hx)

/-- `Stage.StopsAt s e root path`: a node that has failed, and at which the computation is stopped
on what its children have handed on. -/
def Stage.StopsAt (s : Stage) (e : Engine) (root : Node) (path : Path) : Prop :=
  path ∈ s.failures ∧ ∃ n os, root.at? path = some n ∧
    Outcome.AtPlaces (fun o path _ => s.HandsOn path o) path os n.children.zipIdx ∧ e.Stops n os

namespace Engine

variable {e : Engine} {root n : Node} {allowed : Exchange → Prop} {s s' : Stage} {path : Path}
  {title : Option String}

/-! ## (1) Nodes that fail -/

/-- What a node is stopped at stays so when more nodes are complete and more messages are sent:
`s'.StopsAt e root path`. -/
theorem stopsAt_mono {new : List (Path × Outcome)} {more : List Nat}
    {causes : List (Path × QueryError)} (h : s.StopsAt e root path)
    (hcompleted : s'.completed = s.completed ++ new) (hsent : s'.sent = s.sent ++ more)
    (hfailed : s'.failed = s.failed ++ causes) : s'.StopsAt e root path := by
  obtain ⟨hmem, n, os, hn, hos, hstops⟩ := h
  refine ⟨?_, n, os, hn, hos.mono fun _ _ _ ho => ho.mono hcompleted hsent, hstops⟩
  rw [Stage.failures, hfailed, List.map_append]
  exact List.mem_append_left _ hmem

/-- **Why nodes fail**: each node of a valid query that has failed was cancelled at a call, or was
stopped. For all `f ∈ s.failed`,
`(f.2 = .cancelled ∧ ∃ x ∈ s.asked, x.Cancelled) ∨ (f.2 = .stopped ∧ s.StopsAt e root f.1)`. -/
theorem Reaches.failures (h : e.Reaches root allowed s)
    (hvalid : root.violations e.table e.settings.maxDepth = []) : ∀ f ∈ s.failed,
      (f.2 = .cancelled ∧ ∃ x ∈ s.asked, x.Cancelled) ∨
        (f.2 = .stopped ∧ s.StopsAt e root f.1) := by
  induction h with
  | refl => exact List.forall_mem_nil _
  | @tail t u _ hmove ih =>
    -- what has failed before has still done so for the same reason
    have hkeeps : ∀ {new : List (Path × Outcome)} {more : List Nat}
        {causes : List (Path × QueryError)} {own : List Exchange},
        u.completed = t.completed ++ new → u.sent = t.sent ++ more →
        u.failed = t.failed ++ causes → u.asked = t.asked ++ own → ∀ f ∈ t.failed,
        (f.2 = .cancelled ∧ ∃ x ∈ u.asked, x.Cancelled) ∨
          (f.2 = .stopped ∧ u.StopsAt e root f.1) := by
      intro new more causes own hcompleted hsent hfailed hasked f hf
      rcases ih f hf with ⟨hcause, x, hx, hc⟩ | ⟨hcause, hstops⟩
      · exact .inl ⟨hcause, x, hasked ▸ List.mem_append_left _ hx, hc⟩
      · exact .inr ⟨hcause, stopsAt_mono hstops hcompleted hsent hfailed⟩
    cases hmove with
    | complete hready hheld hallowed =>
      exact hkeeps rfl (List.append_nil _).symm (List.append_nil _).symm rfl
    | @fail path n os own cause hready hheld hallowed =>
      refine List.forall_mem_append.2
        ⟨hkeeps (List.append_nil _).symm (List.append_nil _).symm rfl rfl, ?_⟩
      refine List.forall_mem_singleton.2 ?_
      -- the node that fails now does so as its dialogue ends
      obtain ⟨hcancelled, hstopped, honly⟩ :=
        converse_ends (exists_stepOf hvalid hready.at?) hheld
      rcases honly cause rfl with rfl | rfl
      · obtain ⟨x, hx, hc⟩ := hcancelled.1 rfl
        exact .inl ⟨rfl, x, List.mem_append_right _ hx, hc⟩
      · refine .inr ⟨rfl, ?_, n, os, hready.at?, hready.children.mono fun _ _ _ ho => ?_,
          hstopped.1 rfl⟩
        · rw [Stage.failures, List.map_append]
          exact List.mem_append_right _ List.mem_cons_self
        · exact ho.mono (List.append_nil _).symm (List.append_nil _).symm
    | send hk hnew =>
      exact hkeeps (List.append_nil _).symm rfl (List.append_nil _).symm (List.append_nil _).symm

/-- A cancelled call makes a node of a valid query fail: `s.failed ≠ []`. -/
theorem Reaches.failed_ne_nil (h : e.Reaches root allowed s)
    (hvalid : root.violations e.table e.settings.maxDepth = []) {x : Exchange} (hx : x ∈ s.asked)
    (hc : x.Cancelled) : s.failed ≠ [] := by
  induction h with
  | refl => cases hx
  | tail _ hmove ih =>
    cases hmove with
    | complete hready hheld hallowed =>
      -- the node has an outcome, so none of its calls was cancelled
      have hends := converse_ends (exists_stepOf hvalid hready.at?) hheld
      have hown := mt hends.cancelled.2 fun heq => nomatch heq
      rcases List.mem_append.1 hx with hx | hx
      · exact ih hx
      · exact absurd ⟨x, hx, hc⟩ hown
    | fail hready hheld hallowed => exact List.append_ne_nil_of_right_ne_nil _ (List.cons_ne_nil _ _)
    | send hk hnew => exact ih hx

/-- **Some node of a valid query has failed** just when some call was cancelled or some node was
stopped: `s.failed ≠ [] ↔ (∃ x ∈ s.asked, x.Cancelled) ∨ ∃ path, s.StopsAt e root path`. -/
theorem Reaches.failed_ne_nil_iff (h : e.Reaches root allowed s)
    (hvalid : root.violations e.table e.settings.maxDepth = []) :
    s.failed ≠ [] ↔ (∃ x ∈ s.asked, x.Cancelled) ∨ ∃ path, s.StopsAt e root path := by
  constructor
  · intro hne
    obtain ⟨f, hf⟩ := List.exists_mem_of_ne_nil _ hne
    rcases h.failures hvalid f hf with ⟨-, hc⟩ | ⟨-, hstops⟩
    · exact .inl hc
    · exact .inr ⟨f.1, hstops⟩
  · rintro (⟨x, hx, hc⟩ | ⟨path, hmem, -⟩)
    · exact h.failed_ne_nil hvalid hx hc
    · obtain ⟨f, hf, -⟩ := List.mem_map.1 hmem
      exact List.ne_nil_of_mem hf

/-! ## (2) All failures -/

/-- What a query may fail with, at the stage at which its evaluation returns. -/
structure FailsAs (e : Engine) (root : Node) (s : Stage)
    (r : Except QueryError (Panel Float × Trace)) : Prop where
  /-- It is malformed just when something is wrong with it. -/
  malformed : ∀ vs, r = .error (.malformed vs) ↔
    vs = root.violations e.table e.settings.maxDepth ∧ vs ≠ []
  /-- A leaf without a step is found before. -/
  noStep : ∀ kind, r ≠ .error (.noStep kind)
  /-- Otherwise it has a result just when no call was cancelled and no node was stopped. -/
  ok : root.violations e.table e.settings.maxDepth = [] →
    ((∃ result, r = .ok result) ↔
      (¬∃ x ∈ s.asked, x.Cancelled) ∧ ¬∃ path, s.StopsAt e root path)
  /-- As long as no node was stopped, it is cancelled just when some call was. -/
  cancelled : root.violations e.table e.settings.maxDepth = [] →
    (¬∃ path, s.StopsAt e root path) →
      (r = .error .cancelled ↔ ∃ x ∈ s.asked, x.Cancelled)
  /-- As long as no call was cancelled, it is stopped just when some node was. -/
  stopped : root.violations e.table e.settings.maxDepth = [] → (¬∃ x ∈ s.asked, x.Cancelled) →
    (r = .error .stopped ↔ ∃ path, s.StopsAt e root path)
  /-- In any case it is not cancelled without such a call. -/
  cancelledBy : r = .error .cancelled → ∃ x ∈ s.asked, x.Cancelled
  /-- Nor is it stopped without such a node. -/
  stoppedBy : r = .error .stopped → ∃ path, s.StopsAt e root path

/-- **A malformed query** fails with what is wrong with it:
`e.FailsAs root {} (.error (.malformed (root.violations e.table e.settings.maxDepth)))`. -/
theorem failsAs_malformed (hvalid : root.violations e.table e.settings.maxDepth ≠ []) :
    e.FailsAs root {} (.error (.malformed (root.violations e.table e.settings.maxDepth))) where
  malformed vs := by
    rw [Except.error.injEq, QueryError.malformed.injEq]
    exact ⟨fun heq => ⟨heq.symm, heq ▸ hvalid⟩, fun heq => heq.1.symm⟩
  noStep _ heq := nomatch heq
  ok h := absurd h hvalid
  cancelled h := absurd h hvalid
  stopped h := absurd h hvalid
  cancelledBy heq := nomatch heq
  stoppedBy heq := nomatch heq

/-- **A valid query** whose root hands its outcome on has a result:
`e.FailsAs root s (.ok result)`. -/
theorem Reaches.failsAs_ok (h : e.Reaches root allowed s)
    (hvalid : root.violations e.table e.settings.maxDepth = []) {o : Outcome} (ho : s.HandsOn [] o)
    (result : Panel Float × Trace) : e.FailsAs root s (.ok result) := by
  obtain ⟨-, -, hnone, -⟩ := h.sound.counted ho
  obtain ⟨hcancelled, hstopped⟩ := not_or.1 (mt (h.failed_ne_nil_iff hvalid).2 (not_not.2 hnone))
  constructor
  case malformed =>
    exact fun vs => iff_of_false (fun heq => nomatch heq) fun ⟨heq, hne⟩ => hne (heq.trans hvalid)
  case noStep => exact fun kind heq => nomatch heq
  case ok => exact fun _ => iff_of_true ⟨result, rfl⟩ ⟨hcancelled, hstopped⟩
  case cancelled => exact fun _ _ => iff_of_false (fun heq => nomatch heq) hcancelled
  case stopped => exact fun _ _ => iff_of_false (fun heq => nomatch heq) hstopped
  case cancelledBy => exact fun heq => nomatch heq
  case stoppedBy => exact fun heq => nomatch heq

/-- **A valid query** of which some node has failed returns why:
`e.FailsAs root s (.error cause)`. -/
theorem Reaches.failsAs_error (h : e.Reaches root allowed s)
    (hvalid : root.violations e.table e.settings.maxDepth = []) {cause : QueryError}
    (hf : (path, cause) ∈ s.failed) : e.FailsAs root s (.error cause) := by
  have hne := (h.failed_ne_nil_iff hvalid).1 (List.ne_nil_of_mem hf)
  have hwhy := h.failures hvalid _ hf
  have hnot : ¬((¬∃ x ∈ s.asked, x.Cancelled) ∧ ¬∃ path, s.StopsAt e root path) :=
    fun ⟨hc, hs⟩ => hne.elim hc hs
  rcases hwhy with ⟨rfl, hc⟩ | ⟨rfl, hstops⟩
  · constructor
    case malformed =>
      exact fun vs => iff_of_false (fun heq => nomatch heq) fun ⟨heq, hne⟩ => hne (heq.trans hvalid)
    case noStep => exact fun kind heq => nomatch heq
    case ok => exact fun _ => iff_of_false (fun ⟨_, heq⟩ => nomatch heq) hnot
    case cancelled => exact fun _ _ => iff_of_true rfl hc
    case stopped => exact fun _ hnone => absurd hc hnone
    case cancelledBy => exact fun _ => hc
    case stoppedBy => exact fun heq => nomatch heq
  · constructor
    case malformed =>
      exact fun vs => iff_of_false (fun heq => nomatch heq) fun ⟨heq, hne⟩ => hne (heq.trans hvalid)
    case noStep => exact fun kind heq => nomatch heq
    case ok => exact fun _ => iff_of_false (fun ⟨_, heq⟩ => nomatch heq) hnot
    case cancelled => exact fun _ hnone => absurd ⟨_, hstops⟩ hnone
    case stopped => exact fun _ _ => iff_of_true rfl ⟨_, hstops⟩
    case cancelledBy => exact fun heq => nomatch heq
    case stoppedBy => exact fun _ => ⟨_, hstops⟩

/-- A query with sources of any kind, on any schedule, fails only so: `e.FailsAs root s r`. -/
theorem Executes.failsAs {r : Except QueryError (Panel Float × Trace)}
    (h : e.Executes root title s r) : e.FailsAs root s r := by
  cases h with
  | malformed hvalid => exact failsAs_malformed hvalid
  | evaluated hvalid hreaches hreturns =>
    cases hreturns with
    | ok ho => exact hreaches.failsAs_ok hvalid ho _
    | error hf => exact hreaches.failsAs_error hvalid hf

/-- **What queries fail with.** With sources of any kind and on any schedule every query has a
result or fails in one of three ways: it is malformed, some call was cancelled, or some node was
stopped. It has come so far after at most two moves for each node, and until then there is a move.
The evaluation in order is one of these. With the full table no step that needs two inputs is
without them. -/
theorem execute_fails (e : Engine) (root : Node) (title : Option String) :
    (∀ s r, e.Executes root title s r → e.FailsAs root s r) ∧
    (∀ answers : List Exchange → Sources,
      (∃ s r, e.Executes root title s r ∧ Dialogue.Follows answers [] s.asked) ∧
      ∀ s, e.Reaches root (fun _ => True) s → Dialogue.Follows answers [] s.asked →
        s.size ≤ 2 * root.count ∧ ((∃ r, s.Returns r) ∨
          ∃ s', e.Move root (fun _ => True) s s' ∧ Dialogue.Follows answers [] s'.asked)) ∧
    (∃ s, e.Sequential root s ∧ s.messages root.count = (e.execute root title).progress ∧
      e.Executes root title s (e.execute root title).result ∧
      e.FailsAs root s (e.execute root title).result) ∧
    (e.table = .standard → root.violations e.table e.settings.maxDepth = [] →
      ∀ (s : Stage) (path : Path) (n : Node) (os : List Outcome) (step : Step)
        (notes : List String), s.Ready root path n os → e.stepOf n = .ok (step, notes) →
        step.TakesTwo → ∀ (sources : Sources) (name : String),
          step.compute e.platform sources (os.map Outcome.panel) ≠
            .error (.missingInput name)) := by
  refine ⟨fun _ _ => Executes.failsAs, fun answers => ?_, ?_, ?_⟩
  · exact ⟨e.exists_executes root title answers, fun s hreaches hfollows =>
      ⟨hreaches.sound.size_le, e.exists_next root answers hfollows⟩⟩
  · obtain ⟨s, hs, hmessages, hexecutes⟩ := e.exists_executes_sequential root title
    exact ⟨s, hs, hmessages, hexecutes, hexecutes.failsAs⟩
  · intro htable hvalid s path n os step notes hready hstep htwo sources name
    have hlength : (os.map Outcome.panel).length = n.children.length := by
      rw [List.length_map, List.Forall₂.length_eq hready.children, List.length_zipIdx]
    obtain ⟨panel, hpanel⟩ :=
      exists_panel_of_standard htable hvalid hready.at? hstep htwo hlength sources
    rw [hpanel]
    exact fun heq => nomatch heq

end Engine

/-! ## (3) Libraries -/

namespace Library

variable {l : Library}

/-- An outage of a call has the cause of some entry: `∃ o ∈ l.outages, o.cause = cause`. -/
theorem outage?_eq_some {place name : String} {cause : FetchError}
    (h : l.outage? place name = some cause) : ∃ o ∈ l.outages, o.cause = cause := by
  obtain ⟨o, hfind, hcause⟩ := Option.map_eq_some_iff.1 h
  exact ⟨o, List.mem_of_find?_eq_some hfind, hcause⟩

/-- A field is found or not: `l.fetch key field ≠ .error .cancelled`. -/
theorem fetch_ne_cancelled (l : Library) (key : String) (field : Argument) :
    l.fetch key field ≠ .error .cancelled := by
  unfold fetch
  split
  · exact fun heq => nomatch heq
  · exact fun heq => nomatch heq

/-- A set is found or not: `l.members set ≠ .error .cancelled`. -/
theorem members_ne_cancelled (l : Library) (set : Argument) :
    l.members set ≠ .error .cancelled := by
  unfold members
  split
  · exact fun heq => nomatch heq
  · exact fun heq => nomatch heq

/-- A library cancels no request on its own, unless that is the cause of an outage:
`(l.sources false).NeverCancel`. -/
theorem neverCancel_sources (h : ∀ o ∈ l.outages, o.cause ≠ .cancelled) :
    (l.sources false).NeverCancel := by
  have houtage : ∀ {place name cause}, l.outage? place name = some cause → cause ≠ .cancelled := by
    intro place name cause hcause
    obtain ⟨o, hmem, rfl⟩ := outage?_eq_some hcause
    exact h o hmem
  constructor
  case series =>
    intro key field
    unfold sources
    rw [if_neg Bool.false_ne_true]
    dsimp only
    split
    · exact fun heq => houtage ‹_› (Except.error.inj heq)
    · exact l.fetch_ne_cancelled key field
  case members =>
    intro set
    unfold sources
    rw [if_neg Bool.false_ne_true]
    dsimp only
    split
    · exact fun heq => houtage ‹_› (Except.error.inj heq)
    · exact l.members_ne_cancelled set

end Library

/-- The prices of a library, but the request is cancelled at the set of entities. -/
def Library.cancelledSet : Library :=
  { Library.prices with outages := [⟨Outage.setsPlace, "Tech", .cancelled⟩] }

/-- A query that is cancelled at one of its calls. -/
theorem Engine.execute_fails_cancelledSet :
    (Engine.execute { sources := Library.cancelledSet.sources false } .prices none).result =
      .error .cancelled ∧
    ∃ s, Engine.Sequential { sources := Library.cancelledSet.sources false } .prices s ∧
      ∃ x ∈ s.asked, x.Cancelled := by
  have hvalid : Node.prices.violations StepTable.standard ({} : Settings).maxDepth = [] := by
    decide +kernel
  have hresult : (Engine.execute { sources := Library.cancelledSet.sources false } .prices
      none).result = .error .cancelled := by
    rfl
  obtain ⟨-, -, ⟨s, hs, -, -, hfails⟩, -⟩ := Engine.execute_fails
    { sources := Library.cancelledSet.sources false } .prices none
  exact ⟨hresult, s, hs, hfails.cancelledBy hresult⟩

/-- A library with the weight of one entity, from the start of 2020 on. -/
def Library.weights : Library :=
  { series := [(("a", "weight"), ⟨.labelled "Weight", [⟨Day.midnight 18262, 1⟩], false⟩)]
    sets := [("tech", [⟨"A", "a", false⟩])] }

/-- A query for the weights of a set of entities, aligned on the days from a hundred million before
the start of a weight on. -/
def Node.farWindow : Node :=
  ⟨.eventAlignment,
    [{ canonicalName := "Align Events", kind := .eventAlignment, parameters := ["100000000"] }],
    [⟨.data, [{ canonicalName := "Weight", kind := .data }], [.tech]⟩]⟩

/-- In order it is stopped:
`(Engine.execute { sources := Library.weights.sources false } .farWindow none).result` is
`.error .stopped`. -/
theorem Engine.execute_farWindow :
    (Engine.execute { sources := Library.weights.sources false } .farWindow none).result =
      .error .stopped := by
  rfl

/-- **A query that is stopped.** There is no name for the instant a hundred million days before the
start of 2020. So a valid query of which no call is cancelled has no result. -/
theorem Engine.not_ok_farWindow :
    Node.farWindow.violations StepTable.standard ({} : Settings).maxDepth = [] ∧
    ∃ s, Engine.Executes { sources := Library.weights.sources false } .farWindow none s
        (.error .stopped) ∧ ¬∃ x ∈ s.asked, x.Cancelled := by
  have hvalid : Node.farWindow.violations StepTable.standard ({} : Settings).maxDepth = [] := by
    decide +kernel
  have hnever : (Library.weights.sources false).NeverCancel :=
    Library.neverCancel_sources (List.forall_mem_nil _)
  obtain ⟨s, hs, -, hexecutes⟩ := Engine.exists_executes_sequential
    { sources := Library.weights.sources false } .farWindow none
  rw [Engine.execute_farWindow] at hexecutes
  exact ⟨hvalid, s, hexecutes, fun ⟨x, hx, hc⟩ => (hs.reaches.asked x hx).not_cancelled hnever hc⟩

end PanelQuery
