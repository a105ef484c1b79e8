import PanelQuery.Roster
import PanelQuery.Time.NewYork
import PanelQuery.Time.Text

/-! # Episodes

Stretches of time in which an entity's weight is other than zero, and panels cut into such episodes
and moved to one origin.

* **`Episode`, `Points.episodes`** — the stretches of a weight;
* **`Episode.Window`** — how much time around an episode is kept, and what it is anchored on;
* **`Panel.alignEpisodes`** — one entity per episode, with time counted from its anchor, as long as
  every instant on the way can be named. -/

namespace PanelQuery

/-- A stretch of nonzero weight. -/
structure Episode where
  /-- The first time with weight. -/
  start : Instant
  /-- The first time without weight after it, or the last time of all. -/
  stop : Instant
  deriving DecidableEq, Repr

variable {α : Type} [Scalar α]

/-- `Points.episodesFrom underWay last`: the episodes of weight points, given the start of one that
is under way, and the last time seen. -/
def Points.episodesFrom (underWay : Option Instant) (last : Instant) : Points α → List Episode
  | [] => match underWay with
    | some start => [⟨start, last⟩]
    | none => []
  | p :: rest =>
      match underWay, p.value == 0 with
      | none, false => episodesFrom (some p.time) p.time rest
      | some start, true => ⟨start, p.time⟩ :: episodesFrom none p.time rest
      | _, _ => episodesFrom underWay p.time rest

/-- The maximal stretches of nonzero points. -/
def Points.episodes (ps : Points α) : List Episode := episodesFrom none 0 ps

/-- The first and the last day of an episode. -/
def Episode.name (e : Episode) : String :=
  Day.text (Instant.day e.start) ++ " to " ++ Day.text (Instant.day e.stop)

/-- How much time around an episode is kept, and what it is anchored on. -/
structure Episode.Window where
  /-- The days before the anchor. -/
  before : Int
  /-- The days after the end. -/
  after : Int
  /-- Whether the anchor is the first market date that the start affects, rather than the start. -/
  snap : Bool
  deriving DecidableEq, Repr

/-- `Episode.anchor? w zone marketDates e`: the anchor of an episode. There may be no market date
for it, and no market day that can be named. -/
def Episode.anchor? (w : Window) (zone : Zone) (marketDates : List Instant) (e : Episode) :
    Except TimeError (Option Instant) :=
  if w.snap then
    if hasMarketBucket e.start zone then .ok (snapToMarket? e.start marketDates zone)
    else .error .outOfRange
  else .ok (some e.start)

/-- `Points.moved ps span`: points with their times moved by a span. -/
def Points.moved (ps : Points α) (span : Int) : Except TimeError (Points α) :=
  ps.mapM fun p => do return ⟨← Instant.later p.time span, p.value⟩

/-- The entity of one episode of `x` with given fields, and a weight of one on every date of
theirs. -/
def Entity.ofEpisode (x : Entity α) (e : Episode) (fields : List (Series α)) : Entity α :=
  let weight : Points α := fields.flatMap fun s => s.points.map fun p => ⟨p.time, 1⟩
  { identity := ⟨e.name, e.name, true⟩
    series := fields ++ [.weight weight]
    category := match x.category.labelAt? e.start with
      | some label => .constant label
      | none => .empty }

/-- `Entity.cut x w e anchor`: one episode of an entity, moved so that its anchor is the origin.
Every instant on the way has to be one that can be named. -/
def Entity.cut (x : Entity α) (w : Episode.Window) (e : Episode) (anchor : Instant) :
    Except TimeError (Entity α) := do
  let low ← anchor.laterDays (-w.before)
  let high ← e.stop.laterDays w.after
  let fields ← x.fields.mapM fun s => do
    let ps ← (s.points.between low high).moved (Instant.epoch - anchor)
    return { s.withPoints ps with isWeight := false }
  return x.ofEpisode e fields

/-- `Entity.cuts x w zone marketDates`: the episodes of an entity that have an anchor, one after the
other. -/
def Entity.cuts (x : Entity α) (w : Episode.Window) (zone : Zone) (marketDates : List Instant) :
    List Episode → Except TimeError (List (Entity α))
  | [] => .ok []
  | e :: rest => do
      let anchor ← e.anchor? w zone marketDates
      let cut ← anchor.mapM fun anchor => x.cut w e anchor
      return cut.toList ++ (← x.cuts w zone marketDates rest)

/-- `Panel.alignEpisodes p w`: the panel with one entity per episode name, whose fields come from
all entities with such an episode. -/
def Panel.alignEpisodes (p : Panel α) (w : Episode.Window) (zone : Zone := newYork) :
    Except TimeError (Panel α) := do
  let marketDates := if w.snap then p.allDates else []
  let roster ← p.entities.foldlM (fun (r : Roster α) x => do
    match x.weight? with
    | some weight =>
        let cuts ← x.cuts w zone marketDates weight.points.episodes
        return r.addAll cuts (some x.identity.name)
    | none => return r) (.empty .name)
  let missing := p.entities.filterMap fun x =>
    if x.weight?.isSome then none else some (x.identity.name ++ " has no event dates")
  return { p with entities := roster.entities, errors := p.errors ++ missing }

end PanelQuery
