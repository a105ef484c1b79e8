import PanelQuery.Entity
import PanelQuery.Query.Node

/-! # Sources

Where entities and series come from. The sources of an engine that runs answer by the arguments of a
call alone.

* **`Sources`** — the calls that a query may make;
* **`FetchError`** — what a call may answer instead of data;
* **`Library`** — entities and series in memory;
* **`Library.sources`** — the calls that it answers, but for outages and cancelled requests. -/

namespace PanelQuery

/-- What a call may answer instead of data. -/
inductive FetchError where
  | notFound (entity field : String)
  /-- The request was cancelled. -/
  | cancelled
  | unavailable (reason : String)
  deriving DecidableEq, Repr

/-- The text of a fetch error. -/
def FetchError.message : FetchError → String
  | notFound entity field => "'" ++ field ++ "' not found for " ++ entity
  | cancelled => "request cancelled"
  | unavailable reason => "upstream failure: " ++ reason

/-- A series as it comes from a source. -/
structure Fetched where
  series : Series Float
  /-- What readers call it, unless empty. -/
  displayName : String

/-- The fetched series under its display name. -/
def Fetched.field (f : Fetched) : Series Float :=
  if f.displayName.isEmpty then f.series
  else { f.series with header := { f.series.header with label := f.displayName } }

/-- The calls that a query may make. -/
structure Sources where
  /-- A field of the entity with a key. -/
  series : (key : String) → (field : Argument) → Except FetchError Fetched
  /-- The members of a named set of entities. -/
  members : (set : Argument) → Except FetchError (List Identity)

/-- Sources for a cancelled request. -/
def Sources.cancelled : Sources := ⟨fun _ _ => .error .cancelled, fun _ => .error .cancelled⟩

/-! ### Sources in memory -/

/-- A name as it is looked up: without blanks around it and in lower case. -/
def lookupName (s : String) : String := Text.asciiLower (Text.trim s)

/-- A call that is known to fail: for a field of an entity, or for a set of entities. -/
structure Outage where
  /-- The key of the entity, or the place of sets. -/
  place : String
  /-- The name of the field or the set, to the letter. -/
  name : String
  cause : FetchError

/-- The place of sets of entities. -/
def Outage.setsPlace : String := "universe"

/-- Entities and series in memory. Of equal names the first entry counts, and an outage comes before
any entry. -/
structure Library where
  series : List ((String × String) × Series Float) := []
  sets : List (String × List Identity) := []
  outages : List Outage := []

namespace Library

/-- `insertSeries l key field s`: the library with a series as a field of the entity with a key. -/
def insertSeries (l : Library) (key field : String) (s : Series Float) : Library :=
  { l with series := ((key, lookupName field), s) :: l.series }

/-- `insertSet l name members`: the library with a named set of entities. -/
def insertSet (l : Library) (name : String) (members : List Identity) : Library :=
  { l with sets := (lookupName name, members) :: l.sets }

/-- `fetch l key field`: a field of an entity. -/
def fetch (l : Library) (key : String) (field : Argument) : Except FetchError Fetched :=
  match l.series.lookup (key, lookupName field.canonicalName) with
  | some s => .ok ⟨s, s.label⟩
  | none => .error (.notFound key field.canonicalName)

/-- `members l set`: the members of a set. -/
def members (l : Library) (set : Argument) : Except FetchError (List Identity) :=
  match l.sets.lookup (lookupName set.canonicalName) with
  | some ids => .ok ids
  | none => .error (.notFound set.canonicalName "members")

/-- `outage? l place name`: the first outage of a call. -/
def outage? (l : Library) (place name : String) : Option FetchError :=
  (l.outages.find? fun o => o.place == place && o.name == name).map Outage.cause

/-- `sources l isCancelled`: the library as sources, for a request that may be cancelled. -/
def sources (l : Library) (isCancelled : Bool) : Sources :=
  let calls : Sources := if isCancelled then .cancelled else ⟨l.fetch, l.members⟩
  { series := fun key field =>
      match l.outage? key field.canonicalName with
      | some cause => .error cause
      | none => calls.series key field
    members := fun set =>
      match l.outage? Outage.setsPlace set.canonicalName with
      | some cause => .error cause
      | none => calls.members set }

end Library

end PanelQuery
