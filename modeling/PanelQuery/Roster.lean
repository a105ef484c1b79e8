import PanelQuery.Panel

/-! # Rosters

Entities gathered from several collections, in which equal keys are one entity.

* **`Roster`** — the entities so far, each with the labels it has taken;
* **`Roster.add`** — the roster with one more entity, merged into the one with its key. -/

namespace PanelQuery

/-- What makes two entities the same. -/
inductive MergeKey where
  | key
  | name
  deriving DecidableEq, Repr

/-- `MergeKey.of k i`: the text that tells entities apart. -/
def MergeKey.of (k : MergeKey) (i : Identity) : String :=
  match k with
  | key => i.key
  | name => i.name

/-- An entity in a roster. -/
structure Roster.Entry (α : Type) where
  entity : Entity α
  /-- The labels that its fields were given, in order; nothing but membership is asked of them. -/
  used : List String

/-- Entities with different keys, in order of their first addition. -/
structure Roster (α : Type) where
  mergeBy : MergeKey
  entries : List (Roster.Entry α) := []

namespace Roster

variable {α : Type}

/-- No entities. -/
def empty (k : MergeKey) : Roster α := { mergeBy := k }

/-- The gathered entities. -/
def entities (r : Roster α) : List (Entity α) := r.entries.map Entry.entity

/-! ### Labels -/

/-- The first of `label_n`, `label_(n+1)` and so on that is not in use. Among one more than there
are labels in use, one is free. -/
def countedLabel (label : String) (used : List String) : (fuel : Nat) → Nat → String
  | 0, n => label ++ "_" ++ toString n
  | fuel + 1, n =>
      let candidate := label ++ "_" ++ toString n
      if used.contains candidate then countedLabel label used fuel (n + 1) else candidate

/-- The label that a new field gets: its own, or with its source, or with a number. -/
def freshLabel (label : String) (source : Option String) (used : List String) : String :=
  let candidate := match source with
    | some s => if used.contains label then label ++ " (" ++ s ++ ")" else label
    | none => label
  if used.contains candidate then countedLabel label used (used.length + 1) 1 else candidate

/-! ### Merging -/

/-- A weight filled with points of another: where it has no point or zero, the other's count. -/
def fillWeight [Scalar α] (w : Series α) (points : Points α) : Series α :=
  points.foldl (fun w p =>
    match w.points.valueAt? p.time with
    | some v => if v == 0 then w.insert p else w
    | none => w.insert p) w

/-- `Entry.addSeries x source s`: an entity with one more series, whose source may become part of
its label. -/
def Entry.addSeries [Scalar α] (x : Entry α) (source : Option String) (s : Series α) : Entry α :=
  if s.isWeight then
    match x.entity.weight? with
    | none => { x with entity := x.entity.setWeight s }
    | some _ =>
        { x with entity := x.entity.mapWeight (fillWeight · s.points) }
  else
    let label := freshLabel s.label source x.used
    { x with
      entity := x.entity.pushField { s with header := { s.header with label := label } }
      used := x.used ++ [label] }

/-- `Entry.merge x source e`: an entity with the series of another, and its category when it has
none. -/
def Entry.merge [Scalar α] (x : Entry α) (source : Option String) (e : Entity α) : Entry α :=
  let category := if x.entity.category.isEmpty && !e.category.isEmpty then e.category
    else x.entity.category
  e.series.foldl (fun x s => x.addSeries source s)
    { x with entity := { x.entity with category := category } }

/-- A new entity as it is. -/
def Entry.ofEntity (e : Entity α) : Entry α := ⟨e, e.fields.map Series.label⟩

/-- `r.place? i` is the place of the entity that is the same as `i`. No index from keys to places is
kept beside the entries. It would give the same place: an entry is added for a key that has none, in
`add`, and keeps its key when others are merged into it. -/
def place? (r : Roster α) (i : Identity) : Option Nat :=
  r.entries.findIdx? fun x => r.mergeBy.of x.entity.identity == r.mergeBy.of i

/-- `add r e source`: the roster with one more entity, and the entity's place. -/
def add [Scalar α] (r : Roster α) (e : Entity α) (source : Option String) : Roster α × Nat :=
  match r.place? e.identity with
  | some n => ({ r with entries := r.entries.modify n fun x => x.merge source e }, n)
  | none => ({ r with entries := r.entries ++ [Entry.ofEntity e] }, r.entries.length)

/-- `addAll r es source`: the roster with more entities of one source. -/
def addAll [Scalar α] (r : Roster α) (es : List (Entity α)) (source : Option String) : Roster α :=
  es.foldl (fun r e => (r.add e source).1) r

end Roster

end PanelQuery
