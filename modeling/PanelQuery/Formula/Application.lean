import PanelQuery.Alignment
import PanelQuery.Formula.Compiler
import PanelQuery.Formula.Machine
import PanelQuery.Formula.Report
import PanelQuery.Panel

/-! # Formulas on panels

A formula makes new fields of each entity's fields. One that reads `val` makes a field of every
field; any other makes one field.

* **`runAt`** — the output of one run, position by position;
* **`Entity.applyFormula`** — the new fields of an entity;
* **`Panel.applyFormula`** — all entities; an entity that cannot be computed loses its fields and
  leaves a message;
* **`Panel.stopsOn`** — whether a build that stops on overflow stops here. -/

namespace PanelQuery.Formula

/-- What one run reads, apart from position and output so far. -/
structure Inputs where
  fields : List (Points Float)
  broadcast : Option (Points Float)
  driver : Points Float
  category : Option Category
  /-- What the build does with indices that have no 64 bits. -/
  overflow : Overflow := .wraps

/-- `Inputs.context x position ledger`: what the formula sees at a position. -/
def Inputs.context (x : Inputs) (position : Nat) (ledger : Ledger) : Context :=
  ⟨x.fields, x.broadcast, x.driver, x.category, position, ledger, x.overflow⟩

/-- A value, or none where only the position is at fault. -/
def settle (r : Except EvalError Float) : Except EvalError (Option Float) :=
  match r with
  | .ok v => .ok (some v)
  | .error e => if e.isPointLocal then .ok none else .error e

/-- `pointValue p ctx`: the value at a position, or none where only the position is at fault. -/
def pointValue (p : Program) (ctx : Context) : Except EvalError (Option Float) :=
  settle (p.evaluate ctx)

/-- `runAt p x`: the output at given positions, with what it has so far at each of them. -/
def runAt (p : Program) (x : Inputs) : Ledger → List (Nat × Instant) →
    Except EvalError (Points Float)
  | _, [] => .ok []
  | ledger, (position, time) :: rest => do
      let value ← pointValue p (x.context position ledger)
      let later ← runAt p x (ledger ++ [value]) rest
      return match value with
        | some v => ⟨time, v⟩ :: later
        | none => later

/-- The positions of the output with their dates: all, or the last one when the value cannot differ
between them. -/
def positions (r : Report) (driver : Points Float) : List (Nat × Instant) :=
  let all := driver.times.zipIdx.map fun (t, n) => (n, t)
  if r.isTimeVarying then all else all.drop (all.length - 1)

/-- `alignedInputs r driver fields`: the driver and the fields, of which several that are read move
onto the driver's dates. -/
def alignedInputs (r : Report) (driver : Series Float) (fields : List (Series Float)) :
    Series Float × List (Series Float) :=
  if r.needsAlignment then
    let read := r.fields.filterMap fun n => fields[n]?
    match Series.alignCommon (driver :: read) with
    | [] => (driver, fields)
    | driver :: aligned =>
        (driver, (r.fields.zip aligned).foldl (fun fs (n, s) => fs.set n s) fields)
  else (driver, fields)

/-- `runOver p r e fields driver isBroadcast`: the output over a driver. -/
def runOver (p : Program) (r : Report) (e : Entity Float) (fields : List (Series Float))
    (driver : Series Float) (isBroadcast : Bool) (o : Overflow := .wraps) :
    Except EvalError (Points Float) :=
  let (driver, fields) := alignedInputs r driver fields
  let category := if e.category.isEmpty then none else some e.category
  let broadcast := if isBroadcast then some driver.points else none
  runAt p ⟨fields.map Series.points, broadcast, driver.points, category, o⟩ []
    (positions r driver.points)

/-- The header of the one output of a formula that is not broadcast: combined from the fields it
reads, and labelled with its text. -/
def outputHeader (source : String) (first : Series Float) (read : List (Series Float)) : Header :=
  let combined := match read with
    | [] => first.header
    | s :: rest => rest.foldl (fun (h : Header) (t : Series Float) => h.combine t.header) s.header
  { combined with label := source, transformed := true }

/-- `outputs p r e`: the fields that a formula makes of an entity's fields. -/
def outputs (p : Program) (r : Report) (e : Entity Float) (o : Overflow := .wraps) :
    Except EvalError (List (Series Float)) :=
  let fields := e.fields
  match r.fields.getLast? with
  | some greatest =>
      if fields.length ≤ greatest then .error (.missingField (greatest + 1)) else make fields
  | none => make fields
where
  /-- The output fields, once all fields that are read are there. -/
  make (fields : List (Series Float)) : Except EvalError (List (Series Float)) :=
    if r.usesBroadcast then
      fields.mapM fun s => do
        let ps ← runOver p r e fields s true o
        return .ofWrites { s.header with transformed := true } ps
    else
      match fields[r.lowestField?.getD 0]? with
      | none => .ok []
      | some first => do
          let ps ← runOver p r e fields first false o
          let read := r.fields.filterMap fun n => fields[n]?
          return [.ofWrites (outputHeader p.source first read) ps]

end PanelQuery.Formula

namespace PanelQuery

open Formula

/-- `Entity.applyFormula e p r`: an entity with the fields that a formula makes; or without fields,
and why. -/
def Entity.applyFormula (e : Entity Float) (p : Program) (r : Report) :
    Entity Float × Option String :=
  match outputs p r e with
  | .ok fields => (e.replaceFields fields, none)
  | .error cause =>
      (e.replaceFields [], some ("Formula '" ++ p.source ++ "' failed for " ++ e.identity.name
        ++ ": " ++ cause.message))

/-- `Panel.applyFormula panel p`: the panel with the fields that a formula makes. -/
def Panel.applyFormula (panel : Panel Float) (p : Program) : Panel Float :=
  let results := panel.entities.map fun e => e.applyFormula p (.of p)
  { panel with
    entities := results.map Prod.fst
    errors := panel.errors ++ results.filterMap Prod.snd }

/-- `Panel.stopsOn panel p`: whether an index of a formula overflows for some entity, so that a
build that stops there makes no panel of it. -/
def Panel.stopsOn (panel : Panel Float) (p : Program) : Bool :=
  panel.entities.any fun e => match outputs p (.of p) e .stops with
    | .error .indexOverflow => true
    | _ => false

end PanelQuery
