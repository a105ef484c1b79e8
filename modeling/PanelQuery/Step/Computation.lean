import PanelQuery.Cadence
import PanelQuery.Formula.Application
import PanelQuery.Platform
import PanelQuery.Sources
import PanelQuery.Step.Preparation

/-! # Computing steps

What a prepared step makes of the panels of a node's children.

* **`StepError`** — why a step has no result;
* **`resolveEntities`, `Panel.fetchFields`, `Panel.fetchWeight`** — the steps that ask sources;
* **`Step.compute`** — all steps. -/

namespace PanelQuery

/-- Why a step has no result. -/
inductive StepError where
  /-- The formula has no program. -/
  | formula (text : String) (cause : Formula.CompileError)
  /-- The step needs more inputs. -/
  | missingInput (step : String)
  /-- The request was cancelled. -/
  | cancelled
  /-- An instant that cannot be named, or an index that overflows in a build that stops there. The
  whole computation ends, and leaves no message. -/
  | stopped

/-- The text of a step error. -/
def StepError.message : StepError → String
  | formula text cause => "formula '" ++ text ++ "' does not compile: " ++ cause.message
  | missingInput step => step ++ " needs input from a child node"
  | cancelled => "request cancelled"
  | stopped => "computation stopped"

/-! ### Entities -/

/-- `resolveSet sources acc set`: a roster with the members of one more set, and the problems so
far. -/
def resolveSet (sources : Sources) (acc : Roster Float × List String) (set : Argument) :
    Except StepError (Roster Float × List String) :=
  let (roster, problems) := acc
  match sources.members set with
  | .ok members =>
      .ok (roster.addAll (members.map fun i => { identity := i }) none, problems)
  | .error .cancelled => .error .cancelled
  | .error e =>
      .ok (roster, problems ++ ["Universe '" ++ set.originalText ++ "': " ++ e.message])

/-- `resolveEntities sources sets inputs`: the entities of the inputs and the members of sets, each
once. -/
def resolveEntities (sources : Sources) (sets : List Argument) (inputs : List (Panel Float)) :
    Except StepError (Panel Float) := do
  let present := (Roster.empty .key).addAll (inputs.flatMap Panel.entities) none
  let (roster, problems) ← sets.foldlM (resolveSet sources) (present, [])
  return { entities := roster.entities, errors := inputs.flatMap Panel.errors ++ problems }

/-! ### Series -/

/-- `fetchField sources acc field`: an entity with one more field, and the problems so far. A field
that cannot be fetched is left empty. -/
def fetchField (sources : Sources) (acc : Entity Float × List String) (field : Argument) :
    Except StepError (Entity Float × List String) :=
  let (e, problems) := acc
  match sources.series e.identity.key field with
  | .ok f => .ok (e.pushField f.field, problems)
  | .error .cancelled => .error .cancelled
  | .error cause =>
      .ok (e.pushField (.ofWrites (.labelled field.canonicalName) []),
        problems ++ [e.identity.name ++ ": " ++ cause.message])

/-- `fetchEntityWeight sources field e`: an entity with a fetched weight, and the problems. -/
def fetchEntityWeight (sources : Sources) (field : Argument) (e : Entity Float) :
    Except StepError (Entity Float × List String) :=
  match sources.series e.identity.key field with
  | .ok f => .ok (e.setWeight f.series, [])
  | .error .cancelled => .error .cancelled
  | .error cause => .ok (e, [e.identity.name ++ ": " ++ cause.message])

namespace Panel

/-- `mapEntitiesM p f`: the panel with its entities changed, and the problems of that. -/
def mapEntitiesM (p : Panel Float)
    (f : Entity Float → Except StepError (Entity Float × List String)) :
    Except StepError (Panel Float) := do
  let results ← p.entities.mapM f
  return { p with
    entities := results.map Prod.fst
    errors := p.errors ++ results.flatMap Prod.snd }

/-- `fetchFields p sources fields`: the panel with fields fetched for each entity. -/
def fetchFields (p : Panel Float) (sources : Sources) (fields : List Argument) :
    Except StepError (Panel Float) :=
  p.mapEntitiesM fun e => fields.foldlM (fetchField sources) (e, [])

/-- `fetchWeight p sources field`: the panel with a weight fetched for each entity. -/
def fetchWeight (p : Panel Float) (sources : Sources) (field : Argument) :
    Except StepError (Panel Float) :=
  p.mapEntitiesM (fetchEntityWeight sources field)

/-! ### Steps -/

/-- `applyFormulaText p text o`: the panel with the fields that a formula makes. -/
def applyFormulaText (p : Panel Float) (text : String) (o : Overflow) :
    Except StepError (Panel Float) :=
  match Formula.compile text with
  | .ok program =>
      if o = .stops ∧ p.stopsOn program then .error .stopped else .ok (p.applyFormula program)
  | .error cause => .error (.formula text cause)

/-- `alignEpisodesIn p w zone`: the panel of the episodes of a panel, shown as lines. -/
def alignEpisodesIn (p : Panel Float) (w : Episode.Window) (zone : Zone) :
    Except StepError (Panel Float) :=
  match p.alignEpisodes w zone with
  | .ok aligned => .ok { aligned with hint := .line }
  | .error .outOfRange => .error .stopped

end Panel

/-- `Reducer.hint r input`: how a reduced panel is best shown, given the hint of its input. -/
def Reducer.hint (r : Reducer) (input : Hint) : Hint :=
  if r.keepsEntities then input else if r = .boxplot then .boxPlot else .column

/-- The first input, which a step by that name needs. -/
def firstInput (step : String) : List (Panel Float) → Except StepError (Panel Float)
  | [] => .error (.missingInput step)
  | p :: _ => .ok p

/-- The first two inputs, which a step by that name needs. -/
def twoInputs (step : String) :
    List (Panel Float) → Except StepError (Panel Float × Panel Float)
  | left :: right :: _ => .ok (left, right)
  | _ => .error (.missingInput step)

/-- `Step.compute platform sources inputs`: the result of a step on the panels of the children. -/
def Step.compute (platform : Platform) (sources : Sources) (inputs : List (Panel Float)) :
    Step → Except StepError (Panel Float)
  | resolveEntities sets => PanelQuery.resolveEntities sources sets inputs
  | fetchWeight field => do (← firstInput "Data" inputs).fetchWeight sources field
  | fetchFields fields => do (← firstInput "Data" inputs).fetchFields sources fields
  | timeWindow w => do return (← firstInput "Time Range" inputs).clip w
  | formula text => do (← firstInput "Formula" inputs).applyFormulaText text platform.overflow
  | calendarAlign f => do return (← firstInput "Calendar Alignment" inputs).alignTo f
  | resample f => do return (← firstInput "Resample" inputs).resampleTo f
  | rebalance f => do return (← firstInput "Rebalance" inputs).rebalance f
  | eventAlign w => do (← firstInput "Event Alignment" inputs).alignEpisodesIn w platform.zone
  | aggregate r => do
      let p ← firstInput "Aggregation" inputs
      return { p.aggregate r with hint := r.hint p.hint }
  | setAlgebra op => do
      let (left, right) ← twoInputs "Set Operation" inputs
      return Panel.setOperation op left right
  | regression kind window => do
      let (left, right) ← twoInputs "Regression" inputs
      return Panel.regress kind window left right
  | transform kind window => do
      return (← firstInput "Transformation" inputs).transform kind window
  | identity => .ok (inputs.headD .empty)

end PanelQuery
