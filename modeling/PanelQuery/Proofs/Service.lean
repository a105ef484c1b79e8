import PanelQuery.Proofs.Query.Document
import PanelQuery.Proofs.Query.Failures
import PanelQuery.Service

/-! # What a service keeps

A service goes from event to event: queries are saved and run, requests are cancelled, and data come
and go. The result under a name is that of the last run that had one, the query under a name is the
last one saved, and the last message on a request tells how its run ended, unless that was stopped.

* **`Service.Move`** — one event, with runs on any schedule and with answers of any kind;
* **`Service.Ran`, `Service.Move.ran`** — what a run leaves as it was, and what it changes;
* **`Service.move_run`** — a run in order is one of them;
* **`Service.History`** — events one after the other;
* **`Service.History.lookup`** — the documents after a history;
* **`Service.store_follows_runs`** — results, queries and messages after any history;
* **`Service.not_told_farWindow`** — a run after which no message tells how it ended. -/

namespace PanelQuery.Service

/-! ## (1) Events -/

/-- What happens to a service. -/
inductive Event where
  /-- A query is saved under a name. -/
  | saved (name : String) (query : Node)
  /-- What is saved under a name is run for a request, with a result. -/
  | ran (name request : String) (result : Except ServiceError (Panel Float))
  /-- Requests are cancelled, or data come and go. -/
  | changed

/-- The query that an event saves under a name. -/
def Event.query? (name : String) : Event → Option Node
  | saved name' query => if name == name' then some query else none
  | ran .. | changed => none

/-- The result that an event has under a name. -/
def Event.result? (name : String) : Event → Option (Panel Float)
  | ran name' _ (.ok panel) => if name == name' then some panel else none
  | ran _ _ (.error _) | saved .. | changed => none

/-- One event, and the service after it. A query is evaluated on any schedule, with answers of any
kind and with any messages on the way. -/
inductive Move : Service → Event → Service → Prop
  | save (s : Service) (name : String) (query : Node) :
      Move s (.saved name query) { s with store := s.store.saveQuery name query }
  | refuse {s : Service} {name : String} {cause : StoreError} (request : String)
      (hload : s.store.loadQuery name = .error cause) :
      Move s (.ran name request (.error (.store cause))) s
  | evaluate {s : Service} {name request : String} {query : Node} {stage : Stage}
      {result : Except QueryError (Panel Float × Trace)} (messages : List Progress)
      (hload : s.store.loadQuery name = .ok query)
      (hexecutes : (s.engine request).Executes query none stage result) :
      Move s (.ran name request (s.finish name request ⟨messages, result⟩).2)
        (s.finish name request ⟨messages, result⟩).1
  | change (s : Service) (library : Library) (cancelled : List String) :
      Move s .changed { s with library, cancelled }

/-- A run of a query that is loaded: `s.run name request` is
`s.finish name request ((s.engine request).execute query none)`. -/
theorem run_of_load {s : Service} {name : String} {query : Node} (request : String)
    (hload : s.store.loadQuery name = .ok query) :
    s.run name request = s.finish name request ((s.engine request).execute query none) := by
  rw [run, hload]

/-- **A run in order** is one of the ways to run a query:
`s.Move (.ran name request (s.run name request).2) (s.run name request).1`. -/
theorem move_run (s : Service) (name request : String) :
    s.Move (.ran name request (s.run name request).2) (s.run name request).1 := by
  cases hload : s.store.loadQuery name with
  | error cause =>
    rw [run, hload]
    exact .refuse request hload
  | ok query =>
    rw [run_of_load request hload]
    obtain ⟨stage, -, -, hexecutes⟩ := (s.engine request).exists_executes_sequential query none
    exact .evaluate _ hload hexecutes

/-! ## (2) One run -/

/-- `(board.report request ⟨message, 1⟩).latest? request = some ⟨message, 1⟩`: the last message on a
request is that of the last report, which is held as it is. -/
theorem latest?_report (board : ProgressBoard) (request message : String) :
    (board.report request ⟨message, 1⟩).latest? request = some ⟨message, 1⟩ := by
  have hheld : Scalar.clamp 0 1 (1 : Float) = 1 := by decide
  simp [ProgressBoard.report, ProgressBoard.latest?, hheld]

/-- What a query fails with at a stage: its violations, a call that was cancelled, or a node at which
it was stopped. -/
def FailsWith (e : Engine) (query : Node) (stage : Stage) : QueryError → Prop
  | .malformed vs => vs = query.violations e.table e.settings.maxDepth ∧ vs ≠ []
  | .noStep _ => False
  | .cancelled => query.violations e.table e.settings.maxDepth = [] ∧ ∃ x ∈ stage.asked, x.Cancelled
  | .stopped => query.violations e.table e.settings.maxDepth = [] ∧
      ∃ path, stage.StopsAt e query path

/-- **What a query fails with**, on any schedule and with answers of any kind:
`FailsWith e query stage cause`. -/
theorem failsWith_of_executes {e : Engine} {query : Node} {stage : Stage} {cause : QueryError}
    (h : e.Executes query none stage (.error cause)) : FailsWith e query stage cause := by
  have hfails := h.failsAs
  -- what is malformed is not evaluated
  have hvalid : (∀ vs, cause ≠ .malformed vs) →
      query.violations e.table e.settings.maxDepth = [] := by
    intro hne
    by_contra hinvalid
    exact hne _ (Except.error.inj ((hfails.malformed _).2 ⟨rfl, hinvalid⟩))
  cases cause with
  | malformed vs => exact (hfails.malformed vs).1 rfl
  | noStep kind => exact hfails.noStep kind rfl
  | cancelled => exact ⟨hvalid (fun _ heq => nomatch heq), hfails.cancelledBy rfl⟩
  | stopped => exact ⟨hvalid (fun _ heq => nomatch heq), hfails.stoppedBy rfl⟩

/-- What there is after a run, given what it returned. -/
structure Ran (s : Service) (name request : String) (result : Except ServiceError (Panel Float))
    (s' : Service) : Prop where
  /-- Without a query that can be loaded, nothing happens. -/
  refused : ∀ cause, s.store.loadQuery name = .error cause →
    result = .error (.store cause) ∧ s' = s
  /-- Saved queries stay. -/
  queries : s'.store.queries = s.store.queries
  /-- Without a result all documents stay. -/
  failed : ∀ cause, result = .error cause → s'.store = s.store
  /-- A result is saved under the name of the query. -/
  completed : ∀ panel, result = .ok panel → s'.store = s.store.saveResult name panel
  /-- A query that is loaded has a result or fails for a reason. The last message on the request
  tells how it ended, unless it was stopped. Then there are only the messages on its nodes. -/
  told : ∀ query, s.store.loadQuery name = .ok query →
    (∃ panel, result = .ok panel ∧
      s'.board.latest? request = some ⟨"Completed: " ++ panel.title, 1⟩) ∨
    (∃ stage cause, result = .error (.query cause) ∧ cause ≠ .stopped ∧
      FailsWith (s.engine request) query stage cause ∧
      s'.board.latest? request = some ⟨"Failed: " ++ cause.message, 1⟩) ∨
    ∃ stage messages, result = .error (.query .stopped) ∧
      FailsWith (s.engine request) query stage .stopped ∧
      s' = { s with board := s.board.reportAll request messages }

variable {s s' : Service} {name request : String}

/-- A run without a query that can be loaded: `s.Ran name request (.error (.store cause)) s`. -/
theorem ran_refused {cause : StoreError} (hload : s.store.loadQuery name = .error cause) :
    s.Ran name request (.error (.store cause)) s where
  refused cause' h := by
    rw [Except.error.inj (hload.symm.trans h)]
    exact ⟨rfl, rfl⟩
  queries := rfl
  failed _ _ := rfl
  completed _ h := nomatch h
  told _ h := nomatch hload.symm.trans h

/-- What is left of a run that fails. -/
theorem finish_error (s : Service) (name request : String) (messages : List Progress)
    {cause : QueryError} (hcause : cause ≠ .stopped) :
    s.finish name request ⟨messages, .error cause⟩ =
      ({ s with
          board := (s.board.reportAll request messages).report request
            ⟨"Failed: " ++ cause.message, 1⟩ }, .error (.query cause)) := by
  cases cause with
  | stopped => exact absurd rfl hcause
  | _ => rfl

/-- A run of a query that was evaluated: `s.Ran name request (s.finish name request ⟨messages,
result⟩).2 (s.finish name request ⟨messages, result⟩).1`. -/
theorem ran_finish {query : Node} {stage : Stage}
    {result : Except QueryError (Panel Float × Trace)} (messages : List Progress)
    (hload : s.store.loadQuery name = .ok query)
    (hexecutes : (s.engine request).Executes query none stage result) :
    s.Ran name request (s.finish name request ⟨messages, result⟩).2
      (s.finish name request ⟨messages, result⟩).1 := by
  have hloaded : ∀ cause, s.store.loadQuery name ≠ .error cause :=
    fun _ h => nomatch hload.symm.trans h
  cases result with
  | error cause =>
    have hfails := failsWith_of_executes hexecutes
    by_cases hcause : cause = .stopped
    · subst hcause
      constructor
      case refused => exact fun cause h => absurd h (hloaded cause)
      case queries => rfl
      case failed => exact fun _ _ => rfl
      case completed => exact fun _ h => nomatch h
      case told =>
        intro query' h
        obtain rfl := Except.ok.inj (hload.symm.trans h)
        exact .inr (.inr ⟨stage, messages, rfl, hfails, rfl⟩)
    · rw [finish_error s name request messages hcause]
      constructor
      case refused => exact fun cause h => absurd h (hloaded cause)
      case queries => rfl
      case failed => exact fun _ _ => rfl
      case completed => exact fun _ h => nomatch h
      case told =>
        intro query' h
        obtain rfl := Except.ok.inj (hload.symm.trans h)
        exact .inr (.inl ⟨stage, cause, rfl, hcause, hfails, latest?_report _ _ _⟩)
  | ok outcome =>
    constructor
    case refused => exact fun cause h => absurd h (hloaded cause)
    case queries => rfl
    case failed => exact fun _ h => nomatch h
    case completed =>
      intro panel h
      rw [← Except.ok.inj h]
      rfl
    case told => exact fun _ _ => .inl ⟨outcome.1, rfl, latest?_report _ _ _⟩

/-- **What a run leaves as it was, and what it changes**: `s.Ran name request result s'`. -/
theorem Move.ran {result : Except ServiceError (Panel Float)}
    (h : s.Move (.ran name request result) s') : s.Ran name request result s' := by
  cases h with
  | refuse _ hload => exact ran_refused hload
  | evaluate messages hload hexecutes => exact ran_finish messages hload hexecutes

/-! ## (3) Histories -/

/-- Events one after the other, and the service after them. -/
inductive History (s : Service) : List Event → Service → Prop
  | start : History s [] s
  | move {events : List Event} {event : Event} {s' s'' : Service}
      (hevents : History s events s') (hmove : s'.Move event s'') :
      History s (events ++ [event]) s''

/-- `lastQuery? name events`: the query that was saved last under a name. -/
def lastQuery? (name : String) (events : List Event) : Option Node :=
  (events.filterMap (Event.query? name)).getLast?

/-- `lastResult? name events`: the result of the last run under a name that had one. -/
def lastResult? (name : String) (events : List Event) : Option (Panel Float) :=
  (events.filterMap (Event.result? name)).getLast?

/-- The document of a name, in documents with one more: `((name', text) :: documents).lookup name`
is `(if name == name' then some text else none).or (documents.lookup name)`. -/
theorem lookup_cons {documents : List (String × String)} {name name' text : String} :
    ((name', text) :: documents).lookup name =
      (if name == name' then some text else none).or (documents.lookup name) := by
  rw [List.lookup_cons]
  cases name == name' <;> rfl

/-- The query of a name after one event: `s'.store.queries.lookup name` is
`((event.query? name).map Node.render).or (s.store.queries.lookup name)`. -/
theorem Move.lookup_queries {event : Event} (h : s.Move event s') (name : String) :
    s'.store.queries.lookup name =
      ((event.query? name).map Node.render).or (s.store.queries.lookup name) := by
  cases event with
  | saved name' query =>
    cases h
    rw [Event.query?, Store.saveQuery, lookup_cons]
    split <;> rfl
  | ran name' request result =>
    rw [h.ran.queries]
    rfl
  | changed =>
    cases h
    rfl

/-- The result of a name after one event: `s'.store.results.lookup name` is
`((event.result? name).map Panel.render).or (s.store.results.lookup name)`. -/
theorem Move.lookup_results {event : Event} (h : s.Move event s') (name : String) :
    s'.store.results.lookup name =
      ((event.result? name).map Panel.render).or (s.store.results.lookup name) := by
  cases event with
  | saved name' query =>
    cases h
    rfl
  | ran name' request result =>
    cases result with
    | error cause =>
      rw [h.ran.failed cause rfl]
      rfl
    | ok panel =>
      rw [h.ran.completed panel rfl, Event.result?, Store.saveResult, lookup_cons]
      split <;> rfl
  | changed =>
    cases h
    rfl

/-- **The document of a name after a history** is the last one that was written, if each event
writes one of what it has for the name, and otherwise leaves it: `(documents s').lookup name` is
`((events.filterMap written?).getLast?.map render).or ((documents s).lookup name)`. -/
theorem History.lookup {β : Type} (documents : Service → List (String × String))
    {written? : Event → Option β} {render : β → String} {name : String}
    (hmove : ∀ s event s', Move s event s' → (documents s').lookup name =
      ((written? event).map render).or ((documents s).lookup name))
    {events : List Event} (h : s.History events s') : (documents s').lookup name =
      ((events.filterMap written?).getLast?.map render).or ((documents s).lookup name) := by
  induction h with
  | start => rfl
  | @move events event s' s'' _ hlast ih =>
    rw [hmove _ _ _ hlast, ih, List.filterMap_append, List.getLast?_append]
    -- either the last event has written, or what was there before it stays
    cases hwritten : written? event with
    | none => simp [hwritten]
    | some b => simp [hwritten]

/-- **Results follow runs.** Whatever has happened to a service, the result under a name is that of
the last run under this name that had one, or what there was at the start if none had, and the query
is the last one saved. From there on a query can be run in order, a run that fails leaves all
documents as they were, no run changes a query, and the last message on its request tells how it
ended, just as long as it was not stopped. -/
theorem store_follows_runs (s : Service) (events : List Event) (s' : Service)
    (h : s.History events s') (name : String) :
    s'.store.results.lookup name =
      ((lastResult? name events).map Panel.render).or (s.store.results.lookup name) ∧
    s'.store.queries.lookup name =
      ((lastQuery? name events).map Node.render).or (s.store.queries.lookup name) ∧
    ∀ request, s'.Move (.ran name request (s'.run name request).2) (s'.run name request).1 ∧
      ∀ result s'', s'.Move (.ran name request result) s'' → s'.Ran name request result s'' := by
  refine ⟨?_, ?_, fun request => ⟨s'.move_run name request, fun result s'' hmove => hmove.ran⟩⟩
  · exact History.lookup (fun s => s.store.results)
      (fun _ _ _ hmove => hmove.lookup_results name) h
  · exact History.lookup (fun s => s.store.queries)
      (fun _ _ _ hmove => hmove.lookup_queries name) h

/-- A service with a query for the members of a set. -/
def withMembers : Service :=
  { library := .prices
    store := ({} : Store).saveQuery "members" .tech }

/-- Whether a run was cancelled. -/
def wasCancelled : Except ServiceError (Panel Float) → Bool
  | .error (.query .cancelled) => true
  | _ => false

/-- The members are asked for twice. The result of the first request stays when the second one is
cancelled. -/
theorem store_follows_runs_withMembers : ∃ first second panel events,
    withMembers.run "members" "first" = first ∧ first.2 = .ok panel ∧
      (first.1.cancel "second").run "members" "second" = second ∧
      withMembers.History events second.1 ∧
      second.1.store.results.lookup "members" = some panel.render ∧
      second.1.board.latest? "second" = some ⟨"Failed: request cancelled", 1⟩ := by
  have hruns : (withMembers.run "members" "first").2.toOption.isSome = true ∧
      wasCancelled (((withMembers.run "members" "first").1.cancel "second").run
        "members" "second").2 = true := by
    decide +kernel
  obtain ⟨hfirst, hsecond⟩ := hruns
  -- from here on, nothing but the theorem tells about the runs
  obtain ⟨hmoved, -⟩ := (store_follows_runs _ _ _ .start "members").2.2 "first"
  generalize withMembers.run "members" "first" = first at hfirst hsecond hmoved ⊢
  have hcancelled : withMembers.History [.ran "members" "first" first.2, .changed]
      (first.1.cancel "second") :=
    .move (.move .start hmoved) (.change first.1 first.1.library ("second" :: first.1.cancelled))
  obtain ⟨hmoved', hran⟩ := (store_follows_runs _ _ _ hcancelled "members").2.2 "second"
  generalize hrun : (first.1.cancel "second").run "members" "second" = second at hsecond hmoved'
  have hhistory := hcancelled.move hmoved'
  have hresult := (store_follows_runs _ _ _ hhistory "members").1
  obtain ⟨hrefused, -, -, -, htold⟩ := hran _ _ hmoved'
  obtain ⟨panel, hpanel⟩ := exists_ok_of_isSome hfirst
  have herror : second.2 = .error (.query .cancelled) := by
    unfold wasCancelled at hsecond
    split at hsecond
    · assumption
    · cases hsecond
  refine ⟨first, second, panel, _, rfl, hpanel, hrun, hhistory, ?_, ?_⟩
  · rw [hresult, hpanel, herror]
    rfl
  · cases hload : (first.1.cancel "second").store.loadQuery "members" with
    | error cause => cases herror.symm.trans (hrefused cause hload).1
    | ok query =>
      rcases htold query hload with ⟨panel, hok, -⟩ | ⟨-, cause, hcause, -, -, hlast⟩ |
        ⟨-, -, hstopped, -, -⟩
      · cases herror.symm.trans hok
      · cases herror.symm.trans hcause
        exact hlast
      · cases herror.symm.trans hstopped

/-- A service with a query that is stopped. -/
def withFarWindow : Service :=
  { library := .weights, store := ({} : Store).saveQuery "window" .farWindow }

/-- Whether a run was stopped. -/
def wasStopped : Except ServiceError (Panel Float) → Bool
  | .error (.query .stopped) => true
  | _ => false

/-- **A run after which no message tells how it ended.** Its query is loaded, but the last message on
the request is that on the second of its three nodes. -/
theorem not_told_farWindow :
    (withFarWindow.store.loadQuery "window").toOption.isSome = true ∧
      wasStopped (withFarWindow.run "window" "first").2 = true ∧
      ((withFarWindow.run "window" "first").1.board.latest? "first").map Progress.message =
        some "Universe -> Data" ∧
      ((withFarWindow.run "window" "first").1.board.latest? "first").map Progress.fraction ≠
        some 1 := by
  have hload : withFarWindow.store.loadQuery "window" = .ok .farWindow :=
    Store.loadQuery_of_depth (by decide) {} "window"
  rw [hload, run_of_load "first" hload]
  decide +kernel

end PanelQuery.Service
