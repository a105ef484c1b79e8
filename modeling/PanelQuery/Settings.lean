/-! # Settings

What the engine assumes where a query is silent, and how deep a query may be.

* **`Settings`** — the settings, with their defaults;
* **`Settings.fault?`** — why settings cannot be used. -/

namespace PanelQuery

/-- The settings of the engine. -/
structure Settings where
  /-- The window of a node that names none. -/
  timeRange : String := "Last Twelve Months"
  /-- The days kept before an event. -/
  daysBefore : Int := 5
  /-- The days kept after an event. -/
  daysAfter : Int := 5
  /-- The observations of a rolling figure. -/
  rollingWindow : Nat := 60
  /-- The entities that a ranking keeps. -/
  rankCount : Nat := 10
  /-- Whether children may be evaluated at the same time. -/
  parallel : Bool := false
  /-- The greatest depth of a query. -/
  maxDepth : Nat := 64
  deriving DecidableEq, Repr

/-- Why settings cannot be used. -/
inductive Settings.Fault where
  | zeroDepth
  | shortWindow
  | negativeDays
  deriving DecidableEq, Repr

/-- The text of a fault. -/
def Settings.Fault.message : Settings.Fault → String
  | zeroDepth => "invalid configuration: max_tree_depth must be positive"
  | shortWindow => "invalid configuration: default_rolling_window must be at least 2"
  | negativeDays => "invalid configuration: event window days must not be negative"

/-- The first reason why settings cannot be used. -/
def Settings.fault? (s : Settings) : Option Settings.Fault :=
  if s.maxDepth = 0 then some .zeroDepth
  else if s.rollingWindow < 2 then some .shortWindow
  else if s.daysBefore < 0 ∨ s.daysAfter < 0 then some .negativeDays
  else none

end PanelQuery
