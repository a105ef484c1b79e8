import PanelQuery.Category
import PanelQuery.Formula.Expr
import PanelQuery.Number.Dyadic
import PanelQuery.Number.Overflow
import PanelQuery.Series
import PanelQuery.Statistics

/-! # What a formula reads

The data around one output position, and what references, operators and functions make of it.

* **`EvalError`** — why a value cannot be computed; some causes concern one position alone;
* **`Context`** — fields, output dates, category, position and the output so far;
* **`Context.pointAt`, `Context.cutBetween`, `Context.categoryAt`** — loads;
* **`ArithOp.apply`, `CompareOp.apply`, `Fold.apply`, `PairFold.apply`** — operators and
  functions. -/

namespace PanelQuery.Formula

/-! ### Errors -/

/-- Why a formula has no value at a position. -/
inductive EvalError where
  /-- An index outside a series. -/
  | outOfBounds (index : Int) (length : Nat)
  /-- A range whose end comes before its begin. -/
  | invalidRange (low high : Int)
  | divisionByZero
  /-- A function of too few values. -/
  | emptyArgument (function : String)
  /-- A field that the entity does not have, counted from one. -/
  | missingField (number : Nat)
  /-- No series to broadcast over. -/
  | missingBroadcast
  /-- An output value that was left out. -/
  | missingOutput (position : Nat)
  | stackUnderflow
  | stackOverflow
  /-- A load whose index is not in the program's table. -/
  | missingIndex (slot : Nat)
  /-- A program that has not ended within its budget of steps. -/
  | unfinished
  /-- A sum or difference in an index that has no 64 bits, in a build that stops there. -/
  | indexOverflow
  deriving DecidableEq, Repr

namespace EvalError

/-- Whether an error only leaves out the position it arises at. -/
def isPointLocal : EvalError → Bool
  | outOfBounds .. | invalidRange .. | divisionByZero | emptyArgument _ | missingOutput _ => true
  | _ => false

/-- The class of an error. -/
def kind : EvalError → String
  | outOfBounds .. => "OutOfBounds"
  | invalidRange .. => "InvalidRange"
  | divisionByZero => "DivisionByZero"
  | emptyArgument _ => "EmptyArgument"
  | missingField _ => "MissingSeries"
  | missingBroadcast => "MissingGeneral"
  | missingOutput _ => "MissingLedgerValue"
  | stackUnderflow => "StackUnderflow"
  | stackOverflow => "StackOverflow"
  | missingIndex _ => "MissingIndex"
  | unfinished => "Unfinished"
  | indexOverflow => "Panic"

/-- The text of an error. -/
def message : EvalError → String
  | outOfBounds i n => "Index " ++ toString i ++ " out of bounds for length " ++ toString n
  | invalidRange a b => "Invalid range [" ++ toString a ++ ":" ++ toString b ++ "]"
  | divisionByZero => "Division by zero"
  | emptyArgument f => "Empty argument to '" ++ f ++ "'"
  | missingField n => "Series val" ++ toString n ++ " is not available"
  | missingBroadcast => "No general series to broadcast over"
  | missingOutput n => "Output value at position " ++ toString n ++ " is not available"
  | stackUnderflow => "Stack underflow"
  | stackOverflow => "Stack overflow"
  | missingIndex n => "Index " ++ toString n ++ " is not in the table"
  | unfinished => "Step budget exhausted"
  | indexOverflow => "Overflow in an index"

end EvalError

/-- The sum or difference `n` in an index, as the build settles it. -/
def indexSum (o : Overflow) (n : Int) : Except EvalError Int :=
  match o.settle? n with
  | some n => .ok n
  | none => .error .indexOverflow

/-! ### Context -/

/-- The output so far: one entry for each position, empty where it was left out. -/
abbrev Ledger := List (Option Float)

/-- What a formula can see at one output position. -/
structure Context where
  /-- The fields of the entity. -/
  fields : List (Points Float)
  /-- The series that `val` stands for. -/
  broadcast : Option (Points Float)
  /-- The points whose dates are the dates of the output. -/
  driver : Points Float
  category : Option Category
  position : Nat
  ledger : Ledger
  /-- What the build does with indices that have no 64 bits. -/
  overflow : Overflow := .wraps

/-- A stretch of values and the days it spans. -/
structure Cut where
  values : List Float
  days : Float

namespace Context

/-- The points of a series. The output so far has the dates of the driver. -/
def points (ctx : Context) : Reference → Except EvalError (Points Float)
  | .broadcast => match ctx.broadcast with
    | some ps => .ok ps
    | none => .error .missingBroadcast
  | .field n => match ctx.fields[n]? with
    | some ps => .ok ps
    | none => .error (.missingField (n + 1))
  | .output => .ok ctx.driver

/-- The length of a series that a formula sees; of the output, what there is so far. -/
def length (ctx : Context) : Reference → Except EvalError Nat
  | .output => .ok ctx.ledger.length
  | reference => (ctx.points reference).map List.length

/-- `checked index length`: an index that has to be within a length. -/
def checked (index : Int) (length : Nat) : Except EvalError Nat :=
  if index < 0 ∨ (length : Int) ≤ index then .error (.outOfBounds index length)
  else .ok index.toNat

/-- `valueAt ctx reference n`: the value of a series at a position within it. -/
def valueAt (ctx : Context) (reference : Reference) (n : Nat) : Except EvalError Float :=
  match reference with
  | .output => match ctx.ledger[n]? with
    | some (some v) => .ok v
    | _ => .error (.missingOutput n)
  | reference => do
      let ps ← ctx.points reference
      match ps[n]? with
      | some p => return p.value
      | none => throw (.outOfBounds n ps.length)

/-- The value of a series at an index that `resolve` finds from the series' length. -/
def pointAt (ctx : Context) (reference : Reference) (resolve : Nat → Except EvalError Int) :
    Except EvalError Float := do
  let length ← ctx.length reference
  let n ← checked (← resolve length) length
  ctx.valueAt reference n

/-- `daysBetween ps low high`: the days between two positions of a series, by whole seconds; zero
where it has no such positions. -/
def daysBetween (ps : Points Float) (low high : Nat) : Float :=
  match ps[low]?, ps[high]? with
  | some p, some q => Float.ofInt (Int.tdiv (q.time - p.time) nanosPerSecond) / 86400.0
  | _, _ => 0.0

/-- The values of a series between the two indices that `resolve` finds from its length. -/
def cutBetween (ctx : Context) (reference : Reference)
    (resolve : Nat → Except EvalError (Int × Int)) : Except EvalError Cut := do
  let length ← ctx.length reference
  let (low, high) ← resolve length
  if high < low then throw (.invalidRange low high)
  let low ← checked low length
  let high ← checked high length
  let values ← (List.range' low (high + 1 - low)).mapM (ctx.valueAt reference)
  let ps ← ctx.points reference
  return ⟨values, daysBetween ps low high⟩

/-- The category on the date of an index that `resolve` finds from the number of dates. -/
def categoryAt (ctx : Context) (resolve : Nat → Except EvalError Int) :
    Except EvalError String := do
  let length := ctx.driver.length
  let n ← checked (← resolve length) length
  match ctx.driver[n]? with
  | some p => return ((ctx.category.bind (·.labelAt? p.time)).getD defaultCategory)
  | none => throw (.outOfBounds n length)

end Context

/-! ### Operators and functions -/

/-- `ArithOp.apply op a b`: an operator on two numbers. Nothing is divided by zero. -/
def ArithOp.apply (op : ArithOp) (a b : Float) : Except EvalError Float :=
  match op with
  | add => .ok (a + b)
  | sub => .ok (a - b)
  | mul => .ok (a * b)
  | div => if b == 0.0 then .error .divisionByZero else .ok (a / b)
  | mod => if b == 0.0 then .error .divisionByZero else .ok (remainder a b)
  | pow => .ok (Float.pow a b)

/-- `CompareOp.apply op a b`: a comparison of two numbers. -/
def CompareOp.apply (op : CompareOp) (a b : Float) : Bool :=
  match op with
  | less => decide (a < b)
  | lessEqual => decide (a ≤ b)
  | greater => decide (b < a)
  | greaterEqual => decide (b ≤ a)
  | equal => a == b
  | unequal => !(a == b)

/-- A figure that a function gives, or the error that its argument is too short. -/
def figure (name : String) : Option Float → Except EvalError Float
  | some x => .ok x
  | none => .error (.emptyArgument name)

/-- `Fold.apply f a`: a function of one stretch. -/
def Fold.apply (f : Fold) (a : Cut) : Except EvalError Float :=
  let xs := a.values
  match f with
  | count => .ok (Float.ofNat xs.length)
  | sum => figure f.name (if xs.isEmpty then none else some (Statistics.sum xs))
  | average => figure f.name (Statistics.mean xs)
  | stddev => figure f.name (Statistics.stddev xs)
  | variance => figure f.name (Statistics.variance xs)
  | median => figure f.name (Statistics.median xs)
  | minimum => figure f.name (Statistics.minimum xs)
  | maximum => figure f.name (Statistics.maximum xs)
  | compound => figure f.name (Statistics.compound xs)
  | product => figure f.name (Statistics.product xs)
  | cagr => figure f.name (Statistics.annualGrowth xs a.days)

/-- `PairFold.apply f a b`: a function of two stretches; in the last three the second picks from the
first. -/
def PairFold.apply (f : PairFold) (a b : Cut) : Except EvalError Float :=
  let picked := Statistics.masked a.values b.values
  match f with
  | sumProduct =>
      figure f.name (if a.values.isEmpty || b.values.isEmpty then none
        else some (Statistics.sumProduct a.values b.values))
  | sumIf => figure f.name (if picked.isEmpty then none else some (Statistics.sum picked))
  | averageIf => figure f.name (Statistics.mean picked)
  | medianIf => figure f.name (Statistics.median picked)

end PanelQuery.Formula
