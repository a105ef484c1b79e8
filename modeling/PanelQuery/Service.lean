import PanelQuery.Panel.Document
import PanelQuery.Query.Document
import PanelQuery.Query.Evaluation

/-! # The query service

Saved queries, their results and the progress of requests. Queries and results are kept as
documents.

* **`Store`** — the documents, by name;
* **`Service`** — a store with what evaluates its queries;
* **`Service.run`** — the evaluation of a saved query, whose result is saved under the same name. -/

namespace PanelQuery

/-! ### Documents -/

/-- Saved queries and results. Of equal names the first entry counts. -/
structure Store where
  queries : List (String × String) := []
  results : List (String × String) := []

/-- Why a document cannot be loaded. -/
inductive StoreError where
  | missing (name : String)
  /-- It cannot be read. -/
  | unreadable
  deriving DecidableEq, Repr

/-- The text of a store error. -/
def StoreError.message : StoreError → String
  | missing name => "no saved entry '" ++ name ++ "'"
  | unreadable => "storage failure"

/-- `loadDocument read documents name`: the document of a name, read. -/
def loadDocument {β : Type} (read : String → Option β) (documents : List (String × String))
    (name : String) : Except StoreError β :=
  match documents.lookup name with
  | none => .error (.missing name)
  | some source =>
      match read source with
      | some b => .ok b
      | none => .error .unreadable

namespace Store

/-- `saveQuery s name n`: the store with a query. -/
def saveQuery (s : Store) (name : String) (n : Node) : Store :=
  { s with queries := (name, n.render) :: s.queries }

/-- `saveResult s name p`: the store with a result. -/
def saveResult (s : Store) (name : String) (p : Panel Float) : Store :=
  { s with results := (name, p.render) :: s.results }

/-- `loadQuery s name`: a saved query. -/
def loadQuery (s : Store) (name : String) : Except StoreError Node :=
  loadDocument Node.parse? s.queries name

/-- `loadResult s name`: a saved result. -/
def loadResult (s : Store) (name : String) : Except StoreError (Panel Float) :=
  loadDocument Panel.parse? s.results name

end Store

/-! ### Service -/

/-- Why a saved query has no result. -/
inductive ServiceError where
  | store (cause : StoreError)
  | query (cause : QueryError)

/-- What runs saved queries. -/
structure Service where
  table : StepTable := .standard
  settings : Settings := {}
  library : Library := {}
  store : Store := {}
  board : ProgressBoard := []
  /-- The requests that were cancelled. -/
  cancelled : List String := []
  platform : Platform := {}

namespace Service

/-- `cancel s request`: the service with a request cancelled. -/
def cancel (s : Service) (request : String) : Service :=
  { s with cancelled := request :: s.cancelled }

/-- `engine s request`: what evaluates the queries of a request. -/
def engine (s : Service) (request : String) : Engine :=
  ⟨s.table, s.settings, s.library.sources (s.cancelled.contains request), s.platform⟩

/-- `finish s name request x`: the service after the evaluation of a query for a request. A result
is saved; the last message tells whether there is one. Where the computation was stopped, there is
no such message. -/
def finish (s : Service) (name request : String) (x : Engine.Execution) :
    Service × Except ServiceError (Panel Float) :=
  let board := s.board.reportAll request x.progress
  match x.result with
  | .error .stopped => ({ s with board }, .error (.query .stopped))
  | .error cause =>
      ({ s with board := board.report request ⟨"Failed: " ++ cause.message, 1⟩ },
        .error (.query cause))
  | .ok (panel, _) =>
      ({ s with
          store := s.store.saveResult name panel
          board := board.report request ⟨"Completed: " ++ panel.title, 1⟩ },
        .ok panel)

/-- `run s name request`: runs a saved query for a request. -/
def run (s : Service) (name request : String) : Service × Except ServiceError (Panel Float) :=
  match s.store.loadQuery name with
  | .error cause => (s, .error (.store cause))
  | .ok query => s.finish name request ((s.engine request).execute query none)

end Service

end PanelQuery
