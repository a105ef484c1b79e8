import PanelQuery.Json.Reading
import PanelQuery.Json.Record
import PanelQuery.Number.Power
import PanelQuery.Settings

/-! # Settings documents

Settings as JSON, in which every member may be left out.

* **`Settings.ofJson?`** — the settings of a document;
* **`Settings.load`** — the settings of a document's text, or why there are none;
* **`Settings.loadOrDefault`** — the same for a document that may be missing or of no use. -/

namespace PanelQuery.Settings

/-- The settings of a document. -/
def ofJson? (j : Json) : Option Settings :=
  match j.record? ["default_time_range", "default_event_before_days", "default_event_after_days",
    "default_rolling_window", "default_classification_count", "parallel_children",
    "max_tree_depth"] with
  | some [timeRange, daysBefore, daysAfter, rollingWindow, rankCount, parallel, maxDepth] => do
      let plain : Settings := {}
      let days := Json.integerWithin? (-(twoPow 63)) (twoPow 63)
      let count := Json.count? 64
      return {
        timeRange := ← Json.withDefault? plain.timeRange Json.string? timeRange
        daysBefore := ← Json.withDefault? plain.daysBefore days daysBefore
        daysAfter := ← Json.withDefault? plain.daysAfter days daysAfter
        rollingWindow := ← Json.withDefault? plain.rollingWindow count rollingWindow
        rankCount := ← Json.withDefault? plain.rankCount count rankCount
        parallel := ← Json.withDefault? plain.parallel Json.bool? parallel
        maxDepth := ← Json.withDefault? plain.maxDepth count maxDepth }
  | _ => none

/-- Why a document gives no settings. -/
inductive LoadError where
  | unreadable
  | fault (f : Fault)
  deriving DecidableEq, Repr

/-- The settings of a document, once they are free of faults. -/
def checked (j : Option Json) : Except LoadError Settings :=
  match j.bind ofJson? with
  | none => .error .unreadable
  | some s =>
      match s.fault? with
      | some f => .error (.fault f)
      | none => .ok s

/-- The settings of a document's text. -/
def load (source : String) : Except LoadError Settings := checked (Json.parse? source)

/-- The settings of a document that may be missing; without use of it, the defaults. -/
def loadOrDefault (source : Option String) : Settings :=
  match source.map load with
  | some (.ok s) => s
  | _ => {}

end PanelQuery.Settings
