import PanelQuery.Number.Reading
import PanelQuery.Text.Quoted
import PanelQuery.Time.Text

/-! # Query nodes

A query is a tree. Its leaves fetch entities, and every other node computes a panel from those of
its children.

* **`NodeKind`** — the kinds of computation, with their names and labels;
* **`Argument`** — what a node is about: a field, a set of entities, a window, with parameters;
* **`Node`** — a kind, its arguments and its children. -/

namespace PanelQuery

/-! ### Kinds -/

/-- What a node computes. -/
inductive NodeKind where
  /-- The entities of named universes. -/
  | entities
  | data
  | timeRange
  | formula
  | calendarAlignment
  | resample
  | rebalance
  | eventAlignment
  | aggregation
  | classification
  | setOperation
  | regression
  | transformation
  deriving DecidableEq, Inhabited, Repr

namespace NodeKind

/-- All kinds. -/
def all : List NodeKind :=
  [entities, data, timeRange, formula, calendarAlignment, resample, rebalance, eventAlignment,
    aggregation, classification, setOperation, regression, transformation]

/-- The name of a kind in documents. -/
def name : NodeKind → String
  | entities => "Universe"
  | data => "Data"
  | timeRange => "TimeRange"
  | formula => "Formula"
  | calendarAlignment => "CalendarAlignment"
  | resample => "Resample"
  | rebalance => "Rebalance"
  | eventAlignment => "EventAlignment"
  | aggregation => "Aggregation"
  | classification => "Classification"
  | setOperation => "SetOperation"
  | regression => "Regression"
  | transformation => "TimeSeriesTransformation"

/-- The kind with a name. -/
def ofName? (s : String) : Option NodeKind := all.find? fun k => k.name == s

/-- What readers call a kind. -/
def label : NodeKind → String
  | timeRange => "Time Range"
  | calendarAlignment => "Calendar Alignment"
  | eventAlignment => "Event Alignment"
  | setOperation => "Set Operation"
  | transformation => "Transformation"
  | k => k.name

/-- The number of children that a node of the kind must have, when it is fixed. -/
def requiredChildren? : NodeKind → Option Nat
  | setOperation | regression => some 2
  | _ => none

end NodeKind

/-! ### Arguments -/

/-- One thing that a query names. -/
structure Argument where
  /-- The name under which it is known. -/
  canonicalName : String
  /-- The kind of node that it is for. -/
  kind : NodeKind
  /-- Its key at the provider. -/
  providerId : String := ""
  source : String := ""
  /-- The words in which it was asked for. -/
  originalText : String := ""
  parameters : List String := []
  deriving DecidableEq, Repr

namespace Argument

/-- `isNamed a name`: whether an argument has a name, in either case of letters. -/
def isNamed (a : Argument) (name : String) : Bool :=
  Text.asciiLower a.canonicalName == Text.asciiLower name

/-- `parameter? a n`: a parameter without blanks around it, unless it is blank. -/
def parameter? (a : Argument) (n : Nat) : Option String :=
  (a.parameters[n]?.map Text.trim).filter fun s => !s.isEmpty

/-- `number? a n`: a parameter that is a number. -/
def number? (a : Argument) (n : Nat) : Option Float := (a.parameter? n).bind readFloat?

/-- `count? a n`: a parameter that is a count. -/
def count? (a : Argument) (n : Nat) : Option Nat := (a.parameter? n).bind readCount?

/-- `day? a n`: a parameter that is a day. -/
def day? (a : Argument) (n : Nat) : Option Day := (a.parameter? n).bind readDay?

end Argument

/-! ### Nodes -/

/-- A node of a query. -/
structure Node where
  kind : NodeKind
  arguments : List Argument := []
  children : List Node := []
  deriving Inhabited

namespace Node

/-- Whether a node has no children. -/
def isLeaf (n : Node) : Bool := n.children.isEmpty

/-- The name of the first argument. -/
def primaryName? (n : Node) : Option String := n.arguments.head?.map Argument.canonicalName

end Node

end PanelQuery
