import PanelQuery.Aggregation.Reducer
import PanelQuery.Query.Node
import PanelQuery.Regression
import PanelQuery.SetAlgebra
import PanelQuery.Time.Calendar
import PanelQuery.Transform

/-! # Kinds of steps

What a node does, before its parameters are read, and which node does what.

* **`StepKind`** — the kinds of steps;
* **`StepTable`** — the steps that kinds of nodes may take, by name of their first argument;
* **`StepTable.resolve?`** — the step of a node;
* **`StepTable.standard`** — the full table. -/

namespace PanelQuery

/-- A way to keep or to label entities by their rank. -/
inductive Classifier where
  | top
  | bottom
  /-- Buckets, whose number may be a parameter of the node. -/
  | quantile (buckets : Option Nat)
  deriving DecidableEq, Repr

/-- What a node does. -/
inductive StepKind where
  | resolveEntities
  | fetchWeight
  | fetchFields
  | timeWindow
  | formula
  | calendarAlign (f : Frequency)
  | resample (f : Frequency)
  | rebalance (f : Frequency)
  /-- Cuts episodes, with anchors moved to market dates or not. -/
  | eventAlign (snap : Bool)
  | aggregate (r : Reducer)
  | classify (c : Classifier)
  | setAlgebra (op : SetOperation)
  | regression (kind : Regression)
  | transform (kind : Transform)
  deriving DecidableEq, Repr

/-! ### Tables -/

/-- A step that nodes of a kind may take. -/
structure StepEntry where
  node : NodeKind
  /-- The name of the first argument that asks for it; without one, it is only a default. -/
  name : Option String
  step : StepKind
  deriving DecidableEq, Repr

/-- The steps that nodes may take, in order of preference. -/
abbrev StepTable := List StepEntry

namespace StepTable

/-- `register table entry`: the table with one more entry. -/
def register (table : StepTable) (entry : StepEntry) : StepTable := table ++ [entry]

/-- `entriesFor table k`: the entries for a kind of node. -/
def entriesFor (table : StepTable) (k : NodeKind) : List StepEntry :=
  table.filter fun e => e.node == k

/-- `hasStepFor table k`: whether nodes of a kind have a step. -/
def hasStepFor (table : StepTable) (k : NodeKind) : Bool := table.any fun e => e.node == k

/-- `matchesName e name`: whether an entry has a name, in either case of letters and with blanks
around it. -/
def matchesName (e : StepEntry) (name : String) : Bool :=
  match e.name with
  | some n => Text.asciiLower n == Text.asciiLower (Text.trim name)
  | none => false

/-- The step of a node: the one that its first argument names, or else the first one of its
kind. -/
def resolve? (table : StepTable) (n : Node) : Option StepKind :=
  let entries := table.entriesFor n.kind
  let exact := n.primaryName?.bind fun name => entries.find? fun e => matchesName e name
  (exact.or entries.head?).map StepEntry.step

/-- `named k steps`: entries for one kind of node, each with its name. -/
def named (k : NodeKind) (steps : List (String × StepKind)) : StepTable :=
  steps.map fun (name, step) => ⟨k, some name, step⟩

/-- `perFrequency k step`: entries for one kind of node, one for each frequency. -/
def perFrequency (k : NodeKind) (step : Frequency → StepKind) : StepTable :=
  Frequency.all.map fun f => ⟨k, some f.name, step f⟩

/-- The full table. Fields come before weights, which makes them the default for unknown names. -/
def standard : StepTable :=
  [⟨.entities, none, .resolveEntities⟩, ⟨.data, none, .fetchFields⟩] ++
  named .data [("Weight", .fetchWeight), ("Membership", .fetchWeight)] ++
  named .timeRange [("Last Twelve Months", .timeWindow), ("Year To Date", .timeWindow),
    ("Last N Years", .timeWindow), ("Last N Months", .timeWindow), ("Date Range", .timeWindow),
    ("All Time", .timeWindow)] ++
  [⟨.formula, none, .formula⟩] ++
  perFrequency .calendarAlignment .calendarAlign ++
  perFrequency .resample .resample ++
  perFrequency .rebalance .rebalance ++
  named .eventAlignment [("Align Events", .eventAlign false),
    ("Market Aligned Events", .eventAlign true)] ++
  named .aggregation [("Sum", .aggregate .sum), ("Average", .aggregate .average),
    ("Mean", .aggregate .average), ("Count", .aggregate .count),
    ("Percent Positive", .aggregate .percentPositive), ("Median", .aggregate .median),
    ("Boxplot", .aggregate .boxplot)] ++
  named .classification [("Top N", .classify .top), ("Bottom N", .classify .bottom),
    ("Quantile", .classify (.quantile none)), ("Quartile", .classify (.quantile (some 4))),
    ("Quintile", .classify (.quantile (some 5))), ("Decile", .classify (.quantile (some 10)))] ++
  named .setOperation (SetOperation.all.map fun op => (op.label, .setAlgebra op)) ++
  named .regression (Regression.all.map fun kind => (kind.label, .regression kind)) ++
  named .transformation (Transform.all.map fun kind => (kind.label, .transform kind))

end StepTable

end PanelQuery
