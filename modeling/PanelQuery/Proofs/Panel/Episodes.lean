import Mathlib
import PanelQuery.Proofs.Panel.Cuts
import PanelQuery.Proofs.Roster.Gathering
import PanelQuery.Proofs.Series.Cutting
import PanelQuery.Proofs.Series.OnDates

/-! # Episodes lose and invent nothing

A panel that is aligned on its episodes has one entity for each episode name. Every field of every
episode that is kept is in the one of its name, cut and moved, and there is nothing else.

* **`AnchoredEpisode.moved`, `AnchoredEpisode.addition`** — what there is of an episode that is kept;
* **`Panel.entities_episodePanel`** — they are gathered by their names;
* **`Entity.CountsOnDates`** — a weight of one on every date that there is, which a roster keeps;
* **`sum_groups`** — what is grouped by keys is counted once;
* **`Panel.Conserved`, `Panel.alignEpisodes_conserved`** — what a panel of episodes is made of. -/

namespace PanelQuery

/-! ## (1) The episodes that are kept -/

namespace AnchoredEpisode

variable {α : Type}

/-- What there is of a series: the points from some days before the anchor to some days after the
end, moved by what takes the anchor to the origin. -/
def moved (k : AnchoredEpisode α) (w : Episode.Window) (s : Series α) : Points α :=
  let low := k.anchor - w.before * nanosPerDay
  let high := k.episode.stop + w.after * nanosPerDay
  (s.points.filter fun p => decide (low ≤ p.time) && decide (p.time ≤ high)).map fun p =>
    ⟨p.time + (Instant.epoch - k.anchor), p.value⟩

/-- The fields of the entity, each with the episode. -/
def fields (k : AnchoredEpisode α) : List (AnchoredEpisode α × Series α) :=
  k.entity.fields.map fun s => (k, s)

/-- Points that are moved stay in order: `(k.moved w s).Increasing`. -/
theorem increasing_moved (k : AnchoredEpisode α) (w : Episode.Window) {s : Series α}
    (hs : s.Increasing) : (k.moved w s).Increasing := by
  refine List.pairwise_map.2 ((Points.Increasing.filter hs _).imp fun hlt => ?_)
  exact Int.add_lt_add_right hlt _

end AnchoredEpisode

section Kept

variable {α : Type} [Scalar α]

/-- `AnchoredEpisode.addition w k`: the entity that an episode adds to the roster. -/
def AnchoredEpisode.addition (w : Episode.Window) (k : AnchoredEpisode α) : Roster.Addition α :=
  ⟨k.entity.excerpt w k.episode k.anchor, some k.entity.identity.name⟩

/-- The episodes that are cut from an entity with a weight:
`x.excerpts w zone (if w.snap then dates else []) weight.points.episodes` is
`(x.anchoredEpisodes w zone dates).map fun k => k.entity.excerpt w k.episode k.anchor`. -/
theorem Entity.excerpts_eq {x : Entity α} {weight : Series α} (hweight : x.weight? = some weight)
    (w : Episode.Window) (zone : Zone) (dates : List Instant) :
    x.excerpts w zone (if w.snap then dates else []) weight.points.episodes =
      (x.anchoredEpisodes w zone dates).map fun k => k.entity.excerpt w k.episode k.anchor := by
  simp only [excerpts, anchoredEpisodes, hweight, Episode.anchorOn?_ite, List.map_filterMap,
    Option.map_map, Function.comp_def]

/-- The series of an episode: the fields of the entity, cut and moved, and a weight on their
dates. -/
theorem Entity.series_excerpt (x : Entity α) (w : Episode.Window) (e : Episode) (anchor : Instant) :
    let fields := x.fields.map fun s =>
      { s.withPoints (s.points.excerpt w e anchor) with isWeight := false }
    (x.excerpt w e anchor).weights =
        [.weight (fields.flatMap fun s => s.points.map fun p => ⟨p.time, 1⟩)] ∧
      (x.excerpt w e anchor).fields = fields := by
  intro fields
  have hfields : ∀ s ∈ fields, s.isWeight = false := by
    intro s hs
    obtain ⟨s', -, rfl⟩ := List.mem_map.1 hs
    rfl
  have hseries : (x.excerpt w e anchor).series =
      fields ++ [.weight (fields.flatMap fun s => s.points.map fun p => ⟨p.time, 1⟩)] := rfl
  -- no field counts as a weight, so the last series is the only one
  constructor
  · rw [weights, hseries, List.filter_append, List.filter_eq_nil_iff.2 fun s hs => ?_]
    · rfl
    · simp [hfields s hs]
  · rw [Entity.fields, hseries, List.filter_append, List.filter_eq_self.2 fun s hs => ?_]
    · exact List.append_nil _
    · simp [hfields s hs]

/-- `k.entity = x`: they all come from this entity. -/
theorem Entity.entity_of_mem_anchoredEpisodes {x : Entity α} {w : Episode.Window} {zone : Zone}
    {dates : List Instant} {k : AnchoredEpisode α} (hk : k ∈ x.anchoredEpisodes w zone dates) :
    k.entity = x := by
  unfold anchoredEpisodes at hk
  split at hk
  · cases hk
  · obtain ⟨e, -, he⟩ := List.mem_filterMap.1 hk
    obtain ⟨anchor, -, rfl⟩ := Option.map_eq_some_iff.1 he
    rfl

/-- **A panel of episodes is what a roster gathers**, by name, of the episodes that are kept:
`(p.episodePanel w zone).entities = (Roster.gather .name ((p.anchoredEpisodes w zone).map
(AnchoredEpisode.addition w))).entities`. -/
theorem Panel.entities_episodePanel (p : Panel α) (w : Episode.Window) (zone : Zone) :
    (p.episodePanel w zone).entities = (Roster.gather .name
      ((p.anchoredEpisodes w zone).map (AnchoredEpisode.addition w))).entities := by
  rw [Roster.gather, List.foldl_map, anchoredEpisodes, List.foldl_flatMap]
  refine congrArg Roster.entities (List.foldl_ext _ _ (Roster.empty .name) fun r x _ => ?_)
  -- an entity without a weight adds nothing, as it has no episodes
  cases hweight : x.weight? with
  | none => rw [Entity.anchoredEpisodes, hweight, List.foldl_nil]
  | some weight =>
    dsimp only
    rw [Entity.excerpts_eq hweight, Roster.addAll, List.foldl_map]
    refine List.foldl_ext _ _ _ fun r k hk => ?_
    rw [AnchoredEpisode.addition, Entity.entity_of_mem_anchoredEpisodes hk]

end Kept

/-! ## (2) Weights of one -/

section Weights

variable {α : Type}

/-- The dates of the fields of an entity. -/
def Entity.dates (e : Entity α) : List Instant :=
  distinctSorted (e.fields.flatMap fun s => s.points.times)

/-- They are in order: `e.dates.Pairwise (· < ·)`. -/
theorem Entity.pairwise_dates (e : Entity α) : e.dates.Pairwise (· < ·) :=
  distinctSorted_pairwise _

/-- An entity whose weight is one on the dates of its fields, and has no other date. -/
def Entity.CountsOnDates [Scalar α] (e : Entity α) : Prop :=
  ∃ w, e.weights = [w] ∧ w.points = e.dates.map fun t => ⟨t, 1⟩

/-- `e.weight? = e.weights.head?`: the weight is the first of those that there are. -/
theorem Entity.weight?_eq_head? (e : Entity α) : e.weight? = e.weights.head? :=
  List.head?_filter.symm

/-- `e.weights = [w]`: where there is one weight at most, it is the only one. -/
theorem Entity.weights_eq_singleton {e : Entity α} (h : e.weights.length ≤ 1) {w : Series α}
    (hw : e.weight? = some w) : e.weights = [w] := by
  rw [weight?_eq_head?] at hw
  obtain ⟨rest, hrest⟩ := List.head?_eq_some_iff.1 hw
  rw [hrest, List.length_cons] at h
  rw [hrest, List.length_eq_zero_iff.1 (Nat.le_zero.1 (Nat.le_of_succ_le_succ h))]

namespace Points

variable {ts : List Instant} {v : α} {t : Instant}

/-- Points of one value are told by the dates on which it is found: `ps = ts.map (fun t => ⟨t, v⟩)`
just when `ps.Increasing ∧ ∀ t, ps.valueAt? t = if t ∈ ts then some v else none`. -/
theorem eq_map_iff (hts : ts.Pairwise (· < ·)) {ps : Points α} :
    ps = ts.map (fun t => ⟨t, v⟩) ↔
      ps.Increasing ∧ ∀ t, ps.valueAt? t = if t ∈ ts then some v else none := by
  have hdates : ts.map (fun t => (⟨t, v⟩ : Point α)) = onDates ts fun _ => some v :=
    (congrFun List.filterMap_eq_map' ts).symm
  rw [hdates]
  constructor
  · rintro rfl
    exact ⟨increasing_onDates hts _, valueAt?_onDates hts _⟩
  · rintro ⟨hps, hvalue⟩
    exact hps.ext (increasing_onDates hts _) fun t => by rw [hvalue, valueAt?_onDates hts]

/-- `lastWrite? (ts.map fun t => ⟨t, v⟩) t = if t ∈ ts then some v else none`: the last of some
writes of one value. -/
theorem lastWrite?_map (ts : List Instant) (v : α) (t : Instant) :
    lastWrite? (ts.map fun t => ⟨t, v⟩) t = if t ∈ ts then some v else none := by
  induction ts with
  | nil => rfl
  | cons s ts ih =>
    rw [List.map_cons, lastWrite?_cons, ih]
    by_cases hts : t ∈ ts
    · simp [hts]
    · simp [hts, eq_comm]

/-- **What is left of writes of one value**: the dates, each once.
`ofWrites (ts.map fun t => ⟨t, v⟩) = (distinctSorted ts).map fun t => ⟨t, v⟩`. -/
theorem ofWrites_map (ts : List Instant) (v : α) :
    ofWrites (ts.map fun t => ⟨t, v⟩) = (distinctSorted ts).map fun t => ⟨t, v⟩ := by
  refine (eq_map_iff (distinctSorted_pairwise ts)).2 ⟨increasing_ofWrites _, fun t => ?_⟩
  rw [valueAt?_ofWrites, lastWrite?_map]
  simp only [mem_distinctSorted]

end Points

variable [Scalar α]

/-- The weight of an episode is one on the dates of its fields:
`(x.excerpt w e anchor).CountsOnDates`. -/
theorem Entity.countsOnDates_excerpt (x : Entity α) (w : Episode.Window) (e : Episode)
    (anchor : Instant) : (x.excerpt w e anchor).CountsOnDates := by
  have hwrites : ∀ fields : List (Series α),
      (fields.flatMap fun s => s.points.map fun p => (⟨p.time, 1⟩ : Point α)) =
        (fields.flatMap fun s => s.points.times).map fun t => ⟨t, 1⟩ := by
    intro fields
    rw [List.map_flatMap]
    simp only [Points.times, List.map_map, Function.comp_def]
  obtain ⟨hweights, hfields⟩ := x.series_excerpt w e anchor
  refine ⟨_, hweights, ?_⟩
  rw [Series.weight, hwrites, Points.ofWrites_map, dates, hfields]

/-! ### Weights of one that are gathered -/

namespace Roster

/-- `firstWeight? vs = if vs = [] then none else some v`: of some weights that are all one, one
counts. -/
theorem firstWeight?_of_forall_eq {v : α} (hv : (v == 0) = false) {vs : List α}
    (h : ∀ u ∈ vs, u = v) : firstWeight? vs = if vs = [] then none else some v := by
  cases vs with
  | nil => rfl
  | cons u vs =>
    obtain rfl := h u List.mem_cons_self
    rw [firstWeight?, List.find?_cons_of_pos (by simp [hv]), Option.some_or,
      if_neg (List.cons_ne_nil _ _)]

omit [Scalar α] in
/-- `fs.map Series.points = ss.map Series.points`: fields that are labelled anew have the same
points. -/
theorem map_points_of_relabel {ss fs : List (Series α)}
    (h : List.Forall₂ (fun s f => f = relabel s f.label) ss fs) :
    fs.map Series.points = ss.map Series.points := by
  induction h with
  | nil => rfl
  | cons hf _ ih => rw [List.map_cons, List.map_cons, ih, hf]; rfl

variable {x : Entry α} {adds : List (Addition α)}

/-- `t ∈ x.entity.dates ↔ ∃ a ∈ adds, t ∈ a.entity.dates`: the dates of an entry are those of its
additions. -/
theorem Entry.Keeps.mem_dates (h : x.Keeps adds) (t : Instant) :
    t ∈ x.entity.dates ↔ ∃ a ∈ adds, t ∈ a.entity.dates := by
  have htimes : ∀ ss : List (Series α), (ss.flatMap fun s => s.points.times) =
      (ss.map Series.points).flatMap Points.times := fun ss => (List.flatMap_map _ _ _).symm
  simp only [Entity.dates, mem_distinctSorted]
  -- a field may have got another label on the way, but it has the same points
  rw [htimes, map_points_of_relabel h.fields, ← htimes]
  simp only [List.mem_flatMap]
  constructor
  · rintro ⟨s, ⟨a, ha, hs⟩, ht⟩
    exact ⟨a, ha, s, hs, ht⟩
  · rintro ⟨a, ha, s, hs, ht⟩
    exact ⟨s, ⟨a, ha, hs⟩, ht⟩

/-- `Series.observed? e.weight? t = if t ∈ e.dates then some 1 else none`: what the weight of an
entity has that counts on its dates. -/
theorem observed?_of_countsOnDates {e : Entity α} (h : e.CountsOnDates) (t : Instant) :
    Series.observed? e.weight? t = if t ∈ e.dates then some 1 else none := by
  obtain ⟨w, hw, hpoints⟩ := h
  rw [Entity.weight?_eq_head?, hw, List.head?_cons, Series.observed?, Option.bind_some]
  exact ((Points.eq_map_iff e.pairwise_dates).1 hpoints).2 t

/-- The first weight of additions that count on their dates is one on any of them:
`firstWeight? (addedWeights adds t)` is
`if adds.any (fun a => decide (t ∈ a.entity.dates)) then some 1 else none`. -/
theorem firstWeight?_addedWeights (hone : ((1 : α) == 0) = false)
    (hadds : ∀ a ∈ adds, a.entity.CountsOnDates) (t : Instant) :
    firstWeight? (addedWeights adds t) =
      if adds.any (fun a => decide (t ∈ a.entity.dates)) then some 1 else none := by
  have hall : ∀ v ∈ addedWeights adds t, v = 1 := by
    intro v hv
    obtain ⟨a, ha, hav⟩ := List.mem_filterMap.1 hv
    rw [observed?_of_countsOnDates (hadds a ha)] at hav
    split at hav
    · exact (Option.some.inj hav).symm
    · cases hav
  have hnone : addedWeights adds t = [] ↔
      ¬adds.any (fun a => decide (t ∈ a.entity.dates)) = true := by
    rw [addedWeights, List.filterMap_eq_nil_iff, Bool.not_eq_true, List.any_eq_false]
    refine forall₂_congr fun a ha => ?_
    rw [observed?_of_countsOnDates (hadds a ha)]
    simp
  rw [firstWeight?_of_forall_eq hone hall]
  split
  next hnil => rw [if_neg (hnone.1 hnil)]
  next hcons => rw [if_pos (not_not.1 fun h => hcons (hnone.2 h))]

/-- **Weights of one on the dates of each addition** are one on the dates of all:
`x.entity.CountsOnDates`. -/
theorem Entry.Keeps.countsOnDates (hone : ((1 : α) == 0) = false) (h : x.Keeps adds)
    (hadds : ∀ a ∈ adds, a.entity.CountsOnDates) : x.entity.CountsOnDates := by
  -- there is a weight, since the first addition has one
  have hsome : x.entity.weight?.isSome := by
    obtain ⟨a, ha, -⟩ := Option.map_eq_some_iff.1 h.identity
    obtain ⟨w, hw, -⟩ := hadds a (List.mem_of_mem_head? ha)
    rw [h.weighted]
    refine List.any_eq_true.2 ⟨a, List.mem_of_mem_head? ha, ?_⟩
    rw [Entity.weight?_eq_head?, hw, List.head?_cons, Option.isSome_some]
  obtain ⟨w, hw⟩ := Option.isSome_iff_exists.1 hsome
  refine ⟨w, ?_, (Points.eq_map_iff x.entity.pairwise_dates).2 ⟨h.increasing w hw, fun t => ?_⟩⟩
  · exact Entity.weights_eq_singleton h.weights hw
  · have hvalue := h.weight t
    rw [hw, Series.observed?, Option.bind_some, firstWeight?_addedWeights hone hadds] at hvalue
    rw [hvalue]
    simp only [h.mem_dates, List.any_eq_true, decide_eq_true_eq]

end Roster

end Weights

/-! ## (3) Groups -/

/-- **What is grouped by keys is counted once**:
`(keys.map fun k => ((bs.filter fun b => key b == k).map size).sum).sum = (bs.map size).sum`. -/
theorem sum_groups {β : Type} {keys : List String} (hkeys : keys.Nodup) (key : β → String)
    (size : β → Nat) {bs : List β} (h : ∀ b ∈ bs, key b ∈ keys) :
    (keys.map fun k => ((bs.filter fun b => key b == k).map size).sum).sum =
      (bs.map size).sum := by
  induction bs with
  | nil => simp
  | cons b bs ih =>
    obtain ⟨hb, hbs⟩ := List.forall_mem_cons.1 h
    have hstep : ∀ k, (((b :: bs).filter fun b => key b == k).map size).sum =
        (if k = key b then size b else 0) + ((bs.filter fun b => key b == k).map size).sum := by
      intro k
      by_cases hk : key b = k
      · simp [hk]
      · simp [hk, Ne.symm hk]
    -- the key of the element is one of the keys, and only one
    have hfirst : keys.filter (fun k => decide (k = key b)) = [key b] := by
      rw [List.filter_eq, List.count_eq_one_of_mem hkeys hb, List.replicate_one]
    simp only [hstep, List.sum_map_add, ih hbs, List.sum_map_ite, hfirst]
    simp

/-! ## (4) Panels of episodes -/

section Panels

variable {α : Type} [Scalar α]

/-- **What a panel of episodes is made of.** -/
structure Panel.Conserved (p : Panel α) (w : Episode.Window) (zone : Zone) (out : Panel α) :
    Prop where
  /-- There are as many fields as the entities of all episodes have. -/
  count : (out.entities.map fun e => e.fields.length).sum =
    ((p.anchoredEpisodes w zone).map fun k => k.entity.fields.length).sum
  /-- There is one entity for each name of an episode, and no other. -/
  identities : out.entities.map Entity.identity =
    ((p.anchoredEpisodes w zone).map fun k => k.episode.name).eraseDups.map fun n => ⟨n, n, true⟩
  /-- It has each field of each episode of its name, cut and moved, and nothing of the field
  changes but the label. -/
  fields : ∀ e ∈ out.entities, List.Forall₂
    (fun source f => f.points = source.1.moved w source.2 ∧ f.isWeight = false ∧
      f.header = { source.2.header with label := f.label })
    (((p.anchoredEpisodes w zone).filter fun k => k.episode.name == e.identity.name).flatMap
      AnchoredEpisode.fields) e.fields
  /-- Its weight is one on the dates of its fields, and has no other date. -/
  weight : ∀ e ∈ out.entities, e.CountsOnDates

namespace AnchoredEpisode

variable {k : AnchoredEpisode α} {w : Episode.Window}

/-- `(k.addition w).entity.identity = ⟨k.episode.name, k.episode.name, true⟩`: the entity that an
episode adds is named after it. -/
theorem identity_addition (w : Episode.Window) (k : AnchoredEpisode α) :
    (k.addition w).entity.identity = ⟨k.episode.name, k.episode.name, true⟩ := rfl

/-- It has one weight, in order: `(k.addition w).Weighted`. -/
theorem weighted_addition (w : Episode.Window) (k : AnchoredEpisode α) :
    (k.addition w).Weighted := by
  have hweights := (k.entity.series_excerpt w k.episode k.anchor).1
  constructor
  · rw [addition, hweights, List.length_singleton]
  · rw [addition, hweights]
    exact List.forall_mem_singleton.2 (Series.increasing_weight _)

/-- Its fields are cut and moved: `(k.addition w).entity.fields` is
`k.entity.fields.map fun s => { s with points := k.moved w s, isWeight := false }`. -/
theorem fields_addition (hk : ∀ s ∈ k.entity.fields, s.Increasing) (w : Episode.Window) :
    (k.addition w).entity.fields = k.entity.fields.map fun s =>
      { s with points := k.moved w s, isWeight := false } := by
  rw [addition, (k.entity.series_excerpt w k.episode k.anchor).2]
  refine List.map_congr_left fun s hs => ?_
  have hmoved := Points.ofWrites_of_increasing (k.increasing_moved w (hk s hs))
  exact congrArg (Series.mk s.header · false) hmoved

end AnchoredEpisode

namespace Panel

variable {p : Panel α} {w : Episode.Window} {zone : Zone}

/-- **Episodes are gathered by their names**: each entity keeps what the episodes of its name
add. -/
theorem episodePanel_groups (p : Panel α) (w : Episode.Window) (zone : Zone) :
    (p.episodePanel w zone).entities.map (fun e => e.identity.name) =
        ((p.anchoredEpisodes w zone).map fun k => k.episode.name).eraseDups ∧
      ∀ e ∈ (p.episodePanel w zone).entities, ∃ x : Roster.Entry α, x.entity = e ∧
        x.Keeps (((p.anchoredEpisodes w zone).filter fun k => k.episode.name == e.identity.name).map
          (AnchoredEpisode.addition w)) := by
  have hadds : ∀ a ∈ (p.anchoredEpisodes w zone).map (AnchoredEpisode.addition w), a.Weighted :=
    List.forall_mem_map.2 fun k _ => k.weighted_addition w
  obtain ⟨hnames, hentities⟩ := Roster.entities_gather Roster.lasting_keeps .name hadds
  rw [entities_episodePanel]
  rw [List.map_map] at hnames
  refine ⟨hnames, fun e he => ?_⟩
  obtain ⟨x, rfl, hkeeps⟩ := hentities e he
  rw [List.filter_map] at hkeeps
  exact ⟨x, rfl, hkeeps⟩

/-- `e.identity = ⟨e.identity.name, e.identity.name, true⟩`: an entity of episodes is named after
them. -/
theorem identity_of_mem_episodePanel {e : Entity α} (he : e ∈ (p.episodePanel w zone).entities) :
    e.identity = ⟨e.identity.name, e.identity.name, true⟩ := by
  obtain ⟨x, rfl, hkeeps⟩ := (episodePanel_groups p w zone).2 e he
  obtain ⟨a, ha, hidentity⟩ := Option.map_eq_some_iff.1 hkeeps.identity
  obtain ⟨k, -, rfl⟩ := List.mem_map.1 (List.mem_of_mem_head? ha)
  rw [← hidentity, AnchoredEpisode.identity_addition]

/-- It has as many fields as the episodes of its name: `e.fields.length = (((p.anchoredEpisodes w
zone).filter fun k => k.episode.name == e.identity.name).map fun k => k.entity.fields.length).sum`.
-/
theorem length_fields_of_mem_episodePanel {e : Entity α}
    (he : e ∈ (p.episodePanel w zone).entities) : e.fields.length =
      (((p.anchoredEpisodes w zone).filter fun k => k.episode.name == e.identity.name).map
        fun k => k.entity.fields.length).sum := by
  obtain ⟨x, rfl, hkeeps⟩ := (episodePanel_groups p w zone).2 e he
  -- a field without points in the stretch is kept as well
  have hlength : ∀ k : AnchoredEpisode α,
      (k.addition w).entity.fields.length = k.entity.fields.length := by
    intro k
    rw [AnchoredEpisode.addition, (k.entity.series_excerpt w k.episode k.anchor).2, List.length_map]
  rw [← hkeeps.fields.length_eq, List.length_flatMap, List.map_map]
  exact congrArg List.sum (List.map_congr_left fun k _ => hlength k)

/-- They are those of the episodes, cut and moved. -/
theorem fields_of_mem_episodePanel (hp : ∀ x ∈ p.entities, ∀ s ∈ x.fields, s.Increasing)
    {e : Entity α} (he : e ∈ (p.episodePanel w zone).entities) : List.Forall₂
      (fun source f => f.points = source.1.moved w source.2 ∧ f.isWeight = false ∧
        f.header = { source.2.header with label := f.label })
      (((p.anchoredEpisodes w zone).filter fun k => k.episode.name == e.identity.name).flatMap
        AnchoredEpisode.fields) e.fields := by
  obtain ⟨x, rfl, hkeeps⟩ := (episodePanel_groups p w zone).2 e he
  have hfields : ∀ k ∈ p.anchoredEpisodes w zone, (k.addition w).entity.fields =
      k.fields.map fun source =>
        { source.2 with points := source.1.moved w source.2, isWeight := false } := by
    intro k hk
    obtain ⟨y, hy, hk⟩ := List.mem_flatMap.1 hk
    rw [AnchoredEpisode.fields_addition, AnchoredEpisode.fields, List.map_map]
    · rfl
    · rw [Entity.entity_of_mem_anchoredEpisodes hk]
      exact hp y hy
  have hadded := hkeeps.fields
  rw [List.flatMap_map, List.flatMap_congr fun k hk => hfields k (List.mem_of_mem_filter hk),
    ← List.map_flatMap, List.forall₂_map_left_iff] at hadded
  exact hadded.imp fun source f hf => ⟨by rw [hf]; rfl, by rw [hf]; rfl, by rw [hf]; rfl⟩

/-- Entities that are all made of episodes share them out:
`((p.episodePanel w zone).entities.map fun e => e.fields.length).sum` is
`((p.anchoredEpisodes w zone).map fun k => k.entity.fields.length).sum`. -/
theorem sum_fields_episodePanel (p : Panel α) (w : Episode.Window) (zone : Zone) :
    ((p.episodePanel w zone).entities.map fun e => e.fields.length).sum =
      ((p.anchoredEpisodes w zone).map fun k => k.entity.fields.length).sum := by
  have hnames := (episodePanel_groups p w zone).1
  have hnodup : ((p.episodePanel w zone).entities.map fun e => e.identity.name).Nodup :=
    hnames ▸ Roster.nodup_eraseDups _
  -- every episode is counted under its name, and no name comes up twice
  have hnamed : ∀ k ∈ p.anchoredEpisodes w zone,
      k.episode.name ∈ (p.episodePanel w zone).entities.map fun e => e.identity.name := by
    intro k hk
    rw [hnames]
    exact List.mem_eraseDups.2 (List.mem_map_of_mem hk)
  have hgroups := sum_groups hnodup _ (fun k : AnchoredEpisode α => k.entity.fields.length) hnamed
  rw [List.map_map] at hgroups
  refine Eq.trans (congrArg List.sum ?_) hgroups
  exact List.map_congr_left fun e he => length_fields_of_mem_episodePanel he

end Panel

end Panels

/-! ### Floats -/

/-- What there is of the episodes of a panel, by plain sums of instants:
`p.Conserved w zone (p.episodePanel w zone)`. -/
theorem Panel.conserved_episodePanel {p : Panel Float}
    (hp : ∀ x ∈ p.entities, ∀ s ∈ x.fields, s.Increasing) (w : Episode.Window) (zone : Zone) :
    p.Conserved w zone (p.episodePanel w zone) where
  count := sum_fields_episodePanel p w zone
  identities := by
    rw [← (episodePanel_groups p w zone).1, List.map_map]
    exact List.map_congr_left fun e he => identity_of_mem_episodePanel he
  fields _ he := fields_of_mem_episodePanel hp he
  weight e he := by
    obtain ⟨x, rfl, hkeeps⟩ := (episodePanel_groups p w zone).2 e he
    refine hkeeps.countsOnDates (by decide) (List.forall_mem_map.2 fun k _ => ?_)
    exact k.entity.countsOnDates_excerpt w k.episode k.anchor

/-- **A panel of episodes loses and invents nothing**: `p.Conserved w zone out` whenever
`p.alignEpisodes w zone = .ok out`. There is such an `out` just when `p.EpisodesFit w zone`, that
is, when every instant on the way to it can be named. -/
theorem Panel.alignEpisodes_conserved {p : Panel Float}
    (hp : ∀ x ∈ p.entities, ∀ s ∈ x.fields, s.Increasing) (w : Episode.Window) (zone : Zone) :
    (∀ out, p.alignEpisodes w zone = .ok out → p.Conserved w zone out) ∧
      ((∃ out, p.alignEpisodes w zone = .ok out) ↔ p.EpisodesFit w zone) := by
  have hyields := p.alignEpisodes_yields w zone
  refine ⟨fun out hout => ?_, hyields.exists_iff⟩
  obtain ⟨-, rfl⟩ := (hyields out).1 hout
  exact Panel.conserved_episodePanel hp w zone

/-- Two entities with one event on the same days, of which the second one has no price before. -/
def Panel.sharedEvent : Panel Float :=
  let day (n : Nat) : Instant := n * nanosPerDay
  { entities := [{
      identity := ⟨"A", "a", false⟩
      series := [⟨.labelled "Price", [⟨day 1, 1⟩, ⟨day 2, 2⟩, ⟨day 4, 4⟩], false⟩,
        ⟨.labelled "Weight", [⟨day 2, 1⟩, ⟨day 3, 0⟩], true⟩] }, {
      identity := ⟨"B", "b", false⟩
      series := [⟨.labelled "Price", [⟨day 3, 8⟩], false⟩,
        ⟨.labelled "Weight", [⟨day 2, 5⟩, ⟨day 3, 0⟩], true⟩] }] }

/-- Their prices are two fields of one entity. -/
theorem Panel.alignEpisodes_conserved_sharedEvent : ∃ out,
    Panel.sharedEvent.alignEpisodes ⟨1, 0, false⟩ = .ok out ∧
      out.entities.map Entity.identity =
        [⟨"1970-01-03 to 1970-01-04", "1970-01-03 to 1970-01-04", true⟩] ∧
      (out.entities.map fun e => e.fields.length).sum = 2 ∧
      ∀ e ∈ out.entities, e.CountsOnDates := by
  have hincreasing : ∀ x ∈ Panel.sharedEvent.entities, ∀ s ∈ x.fields, s.Increasing := by decide
  have hsome : (Panel.sharedEvent.alignEpisodes ⟨1, 0, false⟩).toOption.isSome = true := by
    decide +kernel
  obtain ⟨out, hout⟩ := exists_ok_of_isSome hsome
  obtain ⟨hconserved, -⟩ := Panel.alignEpisodes_conserved hincreasing ⟨1, 0, false⟩ newYork
  obtain ⟨hcount, hidentities, -, hweight⟩ := hconserved out hout
  refine ⟨out, hout, ?_, ?_, hweight⟩
  · rw [hidentities]
    decide +kernel
  · rw [hcount]
    decide +kernel

/-- With 100000000 days before the anchor there is no first instant, and no panel of episodes. -/
theorem Panel.not_conserved_sharedEvent :
    ¬∃ out, Panel.sharedEvent.alignEpisodes ⟨100000000, 0, false⟩ = .ok out ∧
      Panel.sharedEvent.Conserved ⟨100000000, 0, false⟩ newYork out := by
  rintro ⟨out, hout, -⟩
  have hnone : (Panel.sharedEvent.alignEpisodes ⟨100000000, 0, false⟩).toOption.isSome = false := by
    decide +kernel
  rw [hout] at hnone
  cases hnone

end PanelQuery
