import PanelQuery.Episode
import PanelQuery.Number.Power
import PanelQuery.Settings
import PanelQuery.Step.Kind
import PanelQuery.TimeWindow

/-! # Prepared steps

Steps with their parameters read. A parameter that is missing or of no use never stops a query: a
default takes its place, and a note says so.

* **`Step`** — what a node does, with all its parameters;
* **`Note`** — a parameter that had to be replaced;
* **`readTimeWindow?`** — the window that an argument names;
* **`StepKind.prepare`** — the step of a node, and the notes on its parameters. -/

namespace PanelQuery

/-- What a node does, with all its parameters. -/
inductive Step where
  | resolveEntities (sets : List Argument)
  | fetchWeight (field : Argument)
  | fetchFields (fields : List Argument)
  | timeWindow (w : TimeWindow)
  | formula (text : String)
  | calendarAlign (f : Frequency)
  | resample (f : Frequency)
  | rebalance (f : Frequency)
  | eventAlign (w : Episode.Window)
  | aggregate (r : Reducer)
  | setAlgebra (op : SetOperation)
  | regression (kind : Regression) (window : Nat)
  | transform (kind : Transform) (window : Nat)
  /-- Passes the first input on. -/
  | identity
  deriving DecidableEq, Repr

/-- The name of a step in reports. -/
def Step.name : Step → String
  | resolveEntities _ => "ResolveUniverse"
  | fetchWeight _ => "FetchWeight"
  | fetchFields _ => "FetchFields"
  | timeWindow _ => "TimeWindow"
  | formula _ => "Formula"
  | calendarAlign _ => "CalendarAlign"
  | resample _ => "Resample"
  | rebalance _ => "Rebalance"
  | eventAlign _ => "EventAlign"
  | aggregate _ => "Aggregate"
  | setAlgebra _ => "SetAlgebra"
  | regression _ _ => "Regression"
  | transform _ _ => "Transform"
  | identity => "Identity"

/-! ### Notes -/

/-- A parameter that a default took the place of. -/
inductive Note where
  | missing (step what default : String)
  | invalid (step what value default : String)
  deriving DecidableEq, Repr

/-- The text of a note. -/
def Note.message : Note → String
  | missing step what default => step ++ ": missing " ++ what ++ ", using " ++ default
  | invalid step what value default =>
      step ++ ": invalid " ++ what ++ " '" ++ value ++ "', using " ++ default

/-! ### Parameters -/

/-- The first parameter as a count of at least `least`. -/
def readCountFrom (first : Option Argument) (step : String) (least default : Nat) :
    Nat × List Note :=
  match first.bind fun a => a.parameter? 0 with
  | none => (default, [.missing step "count" (toString default)])
  | some text =>
      match (readCount? text).filter fun n => decide (least ≤ n) with
      | some n => (n, [])
      | none => (default, [.invalid step "count" text (toString default)])

/-- `readDays first place what default`: a parameter as a number of days, none of them negative. A
missing one needs no note. -/
def readDays (first : Option Argument) (place : Nat) (what : String) (default : Int) :
    Int × List Note :=
  match first.bind fun a => a.parameter? place with
  | none => (default, [])
  | some text =>
      match (readInteger? text).filter fun n => decide (0 ≤ n) with
      | some n => (n, [])
      | none => (default, [.invalid "Event Alignment" what text (toString default)])

/-- A positive first parameter within 32 bits. -/
def readPeriods? (a : Option Argument) : Option Nat :=
  (a.bind fun a => a.count? 0).filter fun n => decide (0 < n) && decide (n < twoPow 32)

/-- The window between two days. -/
def readDateRange? (a : Argument) : Option TimeWindow := do
  let first ← a.day? 0
  let last ← a.day? 1
  if first ≤ last then return .between (Day.midnight first) (Day.midnight last) else failure

/-- `readTimeWindow? name a`: the window of a name, with the parameters of an argument if there is
one. -/
def readTimeWindow? (name : String) (a : Option Argument) : Option TimeWindow :=
  match Text.asciiLower (Text.trim name) with
  | "last twelve months" => some (.lastMonths 12)
  | "year to date" => some .yearToDate
  | "last n years" =>
      ((readPeriods? a).map (· * 12)).bind fun n =>
        if n < twoPow 32 then some (.lastMonths n) else none
  | "last n months" => (readPeriods? a).map .lastMonths
  | "date range" => a.bind readDateRange?
  | "all time" => some .allTime
  | _ => none

/-- The window that the settings name, or twelve months. -/
def Settings.defaultWindow (s : Settings) : TimeWindow :=
  (readTimeWindow? s.timeRange none).getD (.lastMonths 12)

/-- An argument as a reader sees it. -/
def Argument.shown (a : Argument) : String :=
  if a.parameters.isEmpty then a.canonicalName
  else a.canonicalName ++ " " ++ " ".intercalate a.parameters

/-- The window that an argument asks for. -/
def prepareWindow (s : Settings) : Option Argument → TimeWindow × List Note
  | none => (s.defaultWindow, [.missing "Time Range" "window" s.timeRange])
  | some a =>
      match readTimeWindow? a.canonicalName (some a) with
      | some w => (w, [])
      | none => (s.defaultWindow, [.invalid "Time Range" "window" a.shown s.timeRange])

/-- The formula that an argument holds, in its first parameter or else in its words. -/
def formulaText? (a : Argument) : Option String :=
  some (Text.trim ((a.parameter? 0).getD a.originalText)) |>.filter fun s => !s.isEmpty

/-! ### Steps -/

/-- The weight that is fetched when a node names none. -/
def defaultWeight (k : NodeKind) : Argument :=
  { canonicalName := "Weight", kind := k, originalText := "Weight" }

/-- `Classifier.prepare c first s`: the reducer of a ranking or a classification. -/
def Classifier.prepare (c : Classifier) (first : Option Argument) (s : Settings) :
    Reducer × List Note :=
  match c with
  | top =>
      let (n, notes) := readCountFrom first "Top N" 1 s.rankCount
      (.top n, notes)
  | bottom =>
      let (n, notes) := readCountFrom first "Bottom N" 1 s.rankCount
      (.bottom n, notes)
  | quantile (some n) => (.quantile n, [])
  | quantile none =>
      let (n, notes) := readCountFrom first "Quantile" 1 4
      (.quantile n, notes)

/-- `Regression.prepareWindow kind first s`: the window of a regression, which has none when it is
static. -/
def Regression.prepareWindow (kind : Regression) (first : Option Argument) (s : Settings) :
    Nat × List Note :=
  match kind with
  | static => (0, [])
  | _ => readCountFrom first kind.label 2 s.rollingWindow

/-- `Transform.prepareWindow kind first s`: the window of a transform. A deviation needs two
observations, and a lag is one by default. -/
def Transform.prepareWindow (kind : Transform) (first : Option Argument) (s : Settings) :
    Nat × List Note :=
  match kind with
  | movingAverage => readCountFrom first kind.label 1 s.rollingWindow
  | rollingStddev => readCountFrom first kind.label 2 s.rollingWindow
  | lag => readCountFrom first kind.label 1 1
  | _ => (1, [])

/-- `StepKind.prepare kind n s`: the step of a node, and the notes on its parameters. -/
def StepKind.prepare (kind : StepKind) (n : Node) (s : Settings) : Step × List Note :=
  let first := n.arguments.head?
  match kind with
  | resolveEntities => (.resolveEntities n.arguments, [])
  | fetchWeight => (.fetchWeight (first.getD (defaultWeight n.kind)), [])
  | fetchFields => (.fetchFields n.arguments, [])
  | timeWindow =>
      let (w, notes) := prepareWindow s first
      (.timeWindow w, notes)
  | formula =>
      match first.bind formulaText? with
      | some text => (.formula text, [])
      | none => (.identity, [.missing "Formula" "formula text" "the input unchanged"])
  | calendarAlign f => (.calendarAlign f, [])
  | resample f => (.resample f, [])
  | rebalance f => (.rebalance f, [])
  | eventAlign snap =>
      let (before, notes) := readDays first 0 "before days" s.daysBefore
      let (after, more) := readDays first 1 "after days" s.daysAfter
      (.eventAlign ⟨before, after, snap⟩, notes ++ more)
  | aggregate r => (.aggregate r, [])
  | classify c =>
      let (r, notes) := c.prepare first s
      (.aggregate r, notes)
  | setAlgebra op => (.setAlgebra op, [])
  | regression kind =>
      let (window, notes) := kind.prepareWindow first s
      (.regression kind window, notes)
  | transform kind =>
      let (window, notes) := kind.prepareWindow first s
      (.transform kind window, notes)

end PanelQuery
