import PanelQuery.Episode
import PanelQuery.Proofs.Yields

/-! # When episodes can be cut

Cutting the episodes of a panel takes steps in time, and each has to lead to an instant that can be
named. Where one does not there is no panel of episodes at all, and otherwise it is the one that
plain sums of instants make.

* **`Entity.excerpt`, `Entity.CutFits`, `Entity.cut_yields`** — one episode;
* **`AnchoredEpisode`, `Panel.anchoredEpisodes`** — the episodes that are kept, with their anchors;
* **`Panel.episodePanel`, `Panel.EpisodesFit`, `Panel.alignEpisodes_yields`** — all episodes. -/

namespace PanelQuery

/-! ## (1) Steps in time -/

/-- `t.later span` is `t + span`, where that can be named. -/
theorem Instant.later_yields (t : Instant) (span : Int) :
    Yields (t.later span) (Instant.isNamed (t + span)) (t + span) := .ite _ _

variable {α : Type}

/-- The points with `p.time + span` for `p.time`. -/
def Points.shift (ps : Points α) (span : Int) : Points α := ps.map fun p => ⟨p.time + span, p.value⟩

/-- `ps.moved span` is `ps.shift span`, where all its times can be named. -/
theorem Points.moved_yields (ps : Points α) (span : Int) :
    Yields (ps.moved span) (∀ q ∈ ps, Instant.isNamed (q.time + span)) (ps.shift span) := by
  unfold moved shift
  refine .mapM (fun q => ?_) ps
  exact (Instant.later_yields q.time span).map fun t => (⟨t, q.value⟩ : Point α)

/-! ## (2) One episode -/

/-- The first instant of what is kept of an episode: `w.before` days before its anchor. -/
def Episode.Window.low (w : Episode.Window) (anchor : Instant) : Instant :=
  anchor - w.before * nanosPerDay

/-- The last instant of what is kept of an episode: `w.after` days after its end. -/
def Episode.Window.high (w : Episode.Window) (e : Episode) : Instant :=
  e.stop + w.after * nanosPerDay

/-- `Points.excerpt ps w e anchor`: what is kept of the points of a series, moved by what takes the
anchor to the origin. -/
def Points.excerpt (ps : Points α) (w : Episode.Window) (e : Episode) (anchor : Instant) :
    Points α :=
  (ps.between (w.low anchor) (w.high e)).shift (Instant.epoch - anchor)

/-- All instants on the way to what is kept of an episode can be named. -/
structure Entity.CutFits (x : Entity α) (w : Episode.Window) (e : Episode) (anchor : Instant) :
    Prop where
  low : Instant.isNamed (w.low anchor)
  high : Instant.isNamed (w.high e)
  moved : ∀ s ∈ x.fields, ∀ q ∈ s.points.between (w.low anchor) (w.high e),
    Instant.isNamed (q.time + (Instant.epoch - anchor))

variable [Scalar α]

/-- `Entity.excerpt x w e anchor`: what is kept of an episode of an entity, by plain sums of
instants. -/
def Entity.excerpt (x : Entity α) (w : Episode.Window) (e : Episode) (anchor : Instant) :
    Entity α :=
  x.ofEpisode e (x.fields.map fun s =>
    { s.withPoints (s.points.excerpt w e anchor) with isWeight := false })

/-- **One episode**: `x.cut w e anchor` is `x.excerpt w e anchor`, where `x.CutFits w e anchor`. -/
theorem Entity.cut_yields (x : Entity α) (w : Episode.Window) (e : Episode) (anchor : Instant) :
    Yields (x.cut w e anchor) (x.CutFits w e anchor) (x.excerpt w e anchor) := by
  have hlow : anchor + -w.before * nanosPerDay = w.low anchor := by
    rw [Int.neg_mul]
    rfl
  refine Yields.congr (p := _ ∧ _ ∧ _) ?_
    ⟨fun ⟨hlow, hhigh, hmoved⟩ => ⟨hlow, hhigh, hmoved⟩, fun h => ⟨h.low, h.high, h.moved⟩⟩
  unfold cut excerpt Instant.laterDays Points.excerpt
  rw [← hlow]
  refine (anchor.later_yields _).bind ((e.stop.later_yields _).bind (.map (.mapM (fun s => ?_) _) _))
  exact (Points.moved_yields _ _).map fun ps => { s.withPoints ps with isWeight := false }

/-! ## (3) Anchors -/

/-- The anchor of an episode, if there is one: its start, or the market date that this affects. -/
def Episode.anchorOn? (w : Window) (zone : Zone) (marketDates : List Instant) (e : Episode) :
    Option Instant :=
  if w.snap then snapToMarket? e.start marketDates zone else some e.start

/-- `e.anchor? w zone dates` is `e.anchorOn? w zone dates`, where the market day of the start can be
named. -/
theorem Episode.anchor?_yields (w : Window) (zone : Zone) (dates : List Instant) (e : Episode) :
    Yields (e.anchor? w zone dates) (w.snap = true → hasMarketBucket e.start zone)
      (e.anchorOn? w zone dates) := by
  unfold anchor? anchorOn?
  cases w.snap with
  | false => exact (Yields.ok _).congr (by simp)
  | true => exact (Yields.ite _ _).congr (by simp)

/-- `e.anchorOn? w zone (if w.snap then dates else []) = e.anchorOn? w zone dates`: dates are asked
for only where an episode is anchored on one. -/
theorem Episode.anchorOn?_ite (w : Window) (zone : Zone) (dates : List Instant) (e : Episode) :
    e.anchorOn? w zone (if w.snap then dates else []) = e.anchorOn? w zone dates := by
  cases hsnap : w.snap <;> simp [anchorOn?, hsnap]

/-- An episode of an entity, with its anchor. -/
structure AnchoredEpisode (α : Type) where
  entity : Entity α
  episode : Episode
  anchor : Instant

/-- `Entity.anchoredEpisodes x w zone marketDates`: the episodes of an entity that have an
anchor. -/
def Entity.anchoredEpisodes (x : Entity α) (w : Episode.Window) (zone : Zone)
    (marketDates : List Instant) : List (AnchoredEpisode α) :=
  match x.weight? with
  | none => []
  | some weight => weight.points.episodes.filterMap fun e =>
      (e.anchorOn? w zone marketDates).map fun anchor => ⟨x, e, anchor⟩

/-- The episodes of a panel that are kept: those that are anchored on their start, or whose start
affects a date of the panel. -/
def Panel.anchoredEpisodes (p : Panel α) (w : Episode.Window) (zone : Zone) :
    List (AnchoredEpisode α) :=
  p.entities.flatMap fun x => x.anchoredEpisodes w zone p.allDates

/-! ## (4) All episodes -/

/-- `Entity.excerpts x w zone marketDates es`: episodes of an entity that have an anchor, by plain
sums of instants. -/
def Entity.excerpts (x : Entity α) (w : Episode.Window) (zone : Zone)
    (marketDates : List Instant) (es : List Episode) : List (Entity α) :=
  es.filterMap fun e => (e.anchorOn? w zone marketDates).map fun anchor => x.excerpt w e anchor

/-- One more episode, in front of the others: `x.excerpts w zone dates (e :: es) = ((e.anchorOn? w
zone dates).map fun anchor => x.excerpt w e anchor).toList ++ x.excerpts w zone dates es`. -/
theorem Entity.excerpts_cons (x : Entity α) (w : Episode.Window) (zone : Zone)
    (dates : List Instant) (e : Episode) (es : List Episode) :
    x.excerpts w zone dates (e :: es) =
      ((e.anchorOn? w zone dates).map fun anchor => x.excerpt w e anchor).toList ++
        x.excerpts w zone dates es := by
  unfold excerpts
  rw [List.filterMap_cons]
  cases e.anchorOn? w zone dates <;> rfl

/-- **Episodes of an entity**: each needs its market day, if it is anchored by that, and where it
has an anchor, it has to be one that can be cut there. -/
theorem Entity.cuts_yields (x : Entity α) (w : Episode.Window) (zone : Zone)
    (dates : List Instant) (es : List Episode) :
    Yields (x.cuts w zone dates es)
      (∀ e ∈ es, (w.snap = true → hasMarketBucket e.start zone) ∧
        ∀ anchor, e.anchorOn? w zone dates = some anchor → x.CutFits w e anchor)
      (x.excerpts w zone dates es) := by
  induction es with
  | nil => exact (Yields.ok _).congr (by simp)
  | cons e es ih =>
    -- an episode without an anchor is dropped, whatever can be named
    have hcut : Yields ((e.anchorOn? w zone dates).mapM fun anchor => x.cut w e anchor)
        (∀ anchor, e.anchorOn? w zone dates = some anchor → x.CutFits w e anchor)
        ((e.anchorOn? w zone dates).map fun anchor => x.excerpt w e anchor) := by
      cases e.anchorOn? w zone dates with
      | none => exact (Yields.ok _).congr (by simp)
      | some anchor => exact ((x.cut_yields w e anchor).map some).congr (by simp)
    rw [excerpts_cons, cuts]
    refine Yields.congr ((e.anchor?_yields w zone dates).bind (hcut.bind (ih.map _))) ?_
    rw [List.forall_mem_cons, and_assoc]

/-- `Panel.episodePanel p w zone`: the panel with one entity per episode name, by plain sums of
instants. -/
def Panel.episodePanel (p : Panel α) (w : Episode.Window) (zone : Zone) : Panel α :=
  let marketDates := if w.snap then p.allDates else []
  let roster := p.entities.foldl (fun (r : Roster α) x =>
    match x.weight? with
    | some weight =>
        r.addAll (x.excerpts w zone marketDates weight.points.episodes) (some x.identity.name)
    | none => r) (.empty .name)
  let missing := p.entities.filterMap fun x =>
    if x.weight?.isSome then none else some (x.identity.name ++ " has no event dates")
  { p with entities := roster.entities, errors := p.errors ++ missing }

/-- All instants on the way to the episodes of a panel can be named. -/
structure Panel.EpisodesFit (p : Panel α) (w : Episode.Window) (zone : Zone) : Prop where
  /-- Where episodes are anchored on market dates, each start has a market day. -/
  buckets : w.snap = true → ∀ x ∈ p.entities, ∀ weight, x.weight? = some weight →
    ∀ e ∈ weight.points.episodes, hasMarketBucket e.start zone
  /-- Each episode that is kept can be cut. -/
  cuts : ∀ k ∈ p.anchoredEpisodes w zone, k.entity.CutFits w k.episode k.anchor

/-- The episodes of a panel can be cut when those of each entity can: `p.EpisodesFit w zone` just
when for all `x ∈ p.entities`, for all `weight`, `x.weight? = some weight` gives for all
`e ∈ weight.points.episodes`, `(w.snap = true → hasMarketBucket e.start zone)` and
`∀ anchor, e.anchorOn? w zone p.allDates = some anchor → x.CutFits w e anchor`. -/
theorem Panel.episodesFit_iff (p : Panel α) (w : Episode.Window) (zone : Zone) :
    p.EpisodesFit w zone ↔ ∀ x ∈ p.entities, ∀ weight, x.weight? = some weight →
      ∀ e ∈ weight.points.episodes, (w.snap = true → hasMarketBucket e.start zone) ∧
        ∀ anchor, e.anchorOn? w zone p.allDates = some anchor → x.CutFits w e anchor := by
  constructor
  · intro h x hx weight hweight e he
    refine ⟨fun hsnap => h.buckets hsnap x hx weight hweight e he, fun anchor hanchor => ?_⟩
    refine h.cuts ⟨x, e, anchor⟩ (List.mem_flatMap.2 ⟨x, hx, ?_⟩)
    rw [Entity.anchoredEpisodes, hweight]
    exact List.mem_filterMap.2 ⟨e, he, by rw [hanchor]; rfl⟩
  · intro h
    refine ⟨fun hsnap x hx weight hweight e he => (h x hx weight hweight e he).1 hsnap, ?_⟩
    intro k hk
    obtain ⟨x, hx, hk⟩ := List.mem_flatMap.1 hk
    unfold Entity.anchoredEpisodes at hk
    split at hk
    next => cases hk
    next weight hweight =>
      obtain ⟨e, he, hk⟩ := List.mem_filterMap.1 hk
      obtain ⟨anchor, hanchor, rfl⟩ := Option.map_eq_some_iff.1 hk
      exact (h x hx weight hweight e he).2 anchor hanchor

/-- **All episodes**: `p.alignEpisodes w zone` is `p.episodePanel w zone`, where
`p.EpisodesFit w zone`, and otherwise there is no panel. -/
theorem Panel.alignEpisodes_yields (p : Panel α) (w : Episode.Window) (zone : Zone) :
    Yields (p.alignEpisodes w zone) (p.EpisodesFit w zone) (p.episodePanel w zone) := by
  refine Yields.congr ?_ (p.episodesFit_iff w zone).symm
  unfold alignEpisodes episodePanel
  refine Yields.map (.foldlM (fun r x => ?_) _ p.entities) _
  cases x.weight? with
  | none => exact (Yields.ok _).congr (by simp)
  | some weight =>
    refine ((x.cuts_yields w zone _ _).map _).congr ?_
    simp only [Episode.anchorOn?_ite, Option.some.injEq, forall_eq']

end PanelQuery
