import PanelQuery.Proofs.Episode
import PanelQuery.Proofs.Panel.Episodes
import PanelQuery.Proofs.Time.NewYork

/-! # Episodes that are anchored on market dates

The market dates of a panel are the dates of all its series, and the weights that tell its events
are among them. So the anchor of an event is the first date on which anything is observed from its
market day on, and that may be a date of weights alone. The clocks of New York are any `zone`.

* **`Panel.Observes`, `Panel.Trades`** — the times of all series, and those of fields;
* **`Panel.mem_anchoredEpisodes_iff`** — the episodes that are kept, and their anchors;
* **`Panel.anchor_eq_start`** — an event at midnight, which is a date itself;
* **`Panel.AnchorsOnDates`, `Panel.anchorsOnDates`** — anchors are the first dates of all series;
* **`Panel.not_trades_weekendEvent`** — an anchor on which no field has a point. -/

namespace PanelQuery

variable {α : Type}

namespace Panel

/-- `Observes p t`: some series has a point at a time, be it a field or a weight. -/
def Observes (p : Panel α) (t : Instant) : Prop :=
  ∃ x ∈ p.entities, ∃ s ∈ x.series, t ∈ s.points.times

/-- `Trades p t`: some field has a point at a time. -/
def Trades (p : Panel α) (t : Instant) : Prop :=
  ∃ x ∈ p.entities, ∃ s ∈ x.fields, t ∈ s.points.times

instance (p : Panel α) (t : Instant) : Decidable (p.Observes t) :=
  inferInstanceAs (Decidable (∃ x ∈ p.entities, ∃ s ∈ x.series, t ∈ s.points.times))

instance (p : Panel α) (t : Instant) : Decidable (p.Trades t) :=
  inferInstanceAs (Decidable (∃ x ∈ p.entities, ∃ s ∈ x.fields, t ∈ s.points.times))

variable {p : Panel α} {t : Instant}

/-- What trades is observed: `p.Observes t`. -/
theorem Trades.observes (h : p.Trades t) : p.Observes t := by
  obtain ⟨x, hx, s, hs, ht⟩ := h
  exact ⟨x, hx, s, List.mem_of_mem_filter hs, ht⟩

/-- **The market dates are the times of all series**, the weights among them:
`t ∈ p.allDates ↔ p.Observes t`. -/
theorem mem_allDates : t ∈ p.allDates ↔ p.Observes t := by
  simp only [allDates, mem_distinctSorted, List.mem_flatMap, Observes]

variable {w : Episode.Window} {zone : Zone}

/-- **The anchor on a market date** is the first time of any series from the market day on, which
does not come before all of them: `e.anchorOn? w zone p.allDates = some anchor` just when
`(∃ t, p.Observes t ∧ t ≤ marketBucket e.start zone)` and
`IsLeast {t | p.Observes t ∧ marketBucket e.start zone ≤ t} anchor`. -/
theorem anchorOn?_eq_some_iff (hsnap : w.snap = true) {e : Episode} {anchor : Instant} :
    e.anchorOn? w zone p.allDates = some anchor ↔
      (∃ t, p.Observes t ∧ t ≤ marketBucket e.start zone) ∧
        IsLeast {t | p.Observes t ∧ marketBucket e.start zone ≤ t} anchor := by
  have hsorted : p.allDates.Pairwise (· ≤ ·) := (distinctSorted_pairwise _).imp Int.le_of_lt
  rw [Episode.anchorOn?, if_pos hsnap, snapToMarket?_eq_some_iff hsorted]
  simp only [mem_allDates]
  refine and_congr_left fun _ => ?_
  constructor
  · rintro ⟨first, hfirst, hle⟩
    exact ⟨first, mem_allDates.1 (List.mem_of_head? hfirst), hle⟩
  · rintro ⟨t, ht, hle⟩
    -- the first date is no later than any other
    have hmem := mem_allDates.2 ht
    cases hdates : p.allDates with
    | nil => rw [hdates] at hmem; cases hmem
    | cons first rest =>
      rw [hdates] at hmem hsorted
      refine ⟨first, rfl, ?_⟩
      rcases List.mem_cons.1 hmem with rfl | hmem
      · exact hle
      · exact Int.le_trans ((List.pairwise_cons.1 hsorted).1 t hmem) hle

variable [Scalar α] {k : AnchoredEpisode α}

/-- **The episodes that are kept** are those of the weights of entities that have an anchor:
`k ∈ p.anchoredEpisodes w zone` just when `k.entity ∈ p.entities`,
`(∃ weight, k.entity.weight? = some weight ∧ k.episode ∈ weight.points.episodes)` and
`k.episode.anchorOn? w zone p.allDates = some k.anchor`. -/
theorem mem_anchoredEpisodes_iff : k ∈ p.anchoredEpisodes w zone ↔
    k.entity ∈ p.entities ∧
      (∃ weight, k.entity.weight? = some weight ∧ k.episode ∈ weight.points.episodes) ∧
        k.episode.anchorOn? w zone p.allDates = some k.anchor := by
  rw [anchoredEpisodes, List.mem_flatMap]
  constructor
  · rintro ⟨x, hx, hk⟩
    unfold Entity.anchoredEpisodes at hk
    split at hk
    next => cases hk
    next weight hweight =>
      obtain ⟨e, he, hsome⟩ := List.mem_filterMap.1 hk
      obtain ⟨anchor, hanchor, rfl⟩ := Option.map_eq_some_iff.1 hsome
      exact ⟨hx, ⟨weight, hweight, he⟩, hanchor⟩
  · rintro ⟨hx, ⟨weight, hweight, he⟩, hanchor⟩
    refine ⟨k.entity, hx, ?_⟩
    rw [Entity.anchoredEpisodes, hweight]
    exact List.mem_filterMap.2 ⟨k.episode, he, by rw [hanchor]; rfl⟩

/-- An episode starts at a time of the weight that it is one of: `p.Observes k.episode.start`. -/
theorem observes_start (hx : k.entity ∈ p.entities) {weight : Series α}
    (hweight : k.entity.weight? = some weight) (he : k.episode ∈ weight.points.episodes) :
    p.Observes k.episode.start := by
  obtain ⟨q, hq, htime⟩ := Points.exists_start_eq_of_mem_episodes he
  exact ⟨k.entity, hx, weight, List.mem_of_find?_eq_some hweight,
    List.mem_map.2 ⟨q, hq, htime⟩⟩

/-- **An event at midnight is anchored on its start**, whether or not anything trades then:
`k.anchor = k.episode.start`. -/
theorem anchor_eq_start (hsnap : w.snap = true) (hk : k ∈ p.anchoredEpisodes w zone)
    (hmidnight : Instant.timeOfDay k.episode.start = 0) : k.anchor = k.episode.start := by
  obtain ⟨hx, ⟨weight, hweight, he⟩, hanchor⟩ := mem_anchoredEpisodes_iff.1 hk
  obtain ⟨-, hleast⟩ := (anchorOn?_eq_some_iff hsnap).1 hanchor
  rw [marketBucket, if_pos hmidnight] at hleast
  exact hleast.unique ⟨⟨observes_start hx hweight he, Int.le_refl _⟩, fun t ht => ht.2⟩

/-! ### What the anchors are -/

/-- How the episodes in a panel `out` of those of `p` are anchored on market dates. -/
structure AnchorsOnDates (p : Panel α) (w : Episode.Window) (zone : Zone) (out : Panel α) :
    Prop where
  /-- The entities are gathered from the episodes that are kept, cut and moved by their anchors. -/
  entities : out.entities = (Roster.gather .name
    ((p.anchoredEpisodes w zone).map (AnchoredEpisode.addition w))).entities
  /-- An episode is kept with an anchor when this is the first time of any series from the market
  day of its start on, and that day does not come before all times. -/
  kept_iff : ∀ k : AnchoredEpisode α, k ∈ p.anchoredEpisodes w zone ↔
    k.entity ∈ p.entities ∧
      (∃ weight, k.entity.weight? = some weight ∧ k.episode ∈ weight.points.episodes) ∧
        (∃ t, p.Observes t ∧ t ≤ marketBucket k.episode.start zone) ∧
          IsLeast {t | p.Observes t ∧ marketBucket k.episode.start zone ≤ t} k.anchor
  /-- A field has a point at the anchor when, from the market day on, no weight has one before all
  fields. -/
  trades_iff : ∀ k ∈ p.anchoredEpisodes w zone, p.Trades k.anchor ↔
    ∀ t, p.Observes t → marketBucket k.episode.start zone ≤ t →
      ∃ u, p.Trades u ∧ marketBucket k.episode.start zone ≤ u ∧ u ≤ t

/-- How they are anchored by plain sums of instants:
`p.AnchorsOnDates w zone (p.episodePanel w zone)`. -/
theorem anchorsOnDates_episodePanel (p : Panel α) (hsnap : w.snap = true) (zone : Zone) :
    p.AnchorsOnDates w zone (p.episodePanel w zone) where
  entities := entities_episodePanel p w zone
  kept_iff k := by rw [mem_anchoredEpisodes_iff, anchorOn?_eq_some_iff hsnap]
  trades_iff k hk := by
    obtain ⟨-, -, hanchor⟩ := mem_anchoredEpisodes_iff.1 hk
    obtain ⟨-, hmem, hleast⟩ := (anchorOn?_eq_some_iff hsnap).1 hanchor
    constructor
    · intro htrades t ht hle
      exact ⟨k.anchor, htrades, hmem.2, hleast ⟨ht, hle⟩⟩
    · intro h
      obtain ⟨u, hu, hle, hu'⟩ := h k.anchor hmem.1 hmem.2
      rwa [Int.le_antisymm hu' (hleast ⟨hu.observes, hle⟩)] at hu

/-- **Episodes are anchored on the first dates of all series**, by the clocks of any zone:
`p.AnchorsOnDates w zone out` whenever `p.alignEpisodes w zone = .ok out`. There is such an `out`
just when `p.EpisodesFit w zone`. -/
theorem anchorsOnDates (p : Panel α) (hsnap : w.snap = true) (zone : Zone) :
    (∀ out, p.alignEpisodes w zone = .ok out → p.AnchorsOnDates w zone out) ∧
      ((∃ out, p.alignEpisodes w zone = .ok out) ↔ p.EpisodesFit w zone) := by
  have hyields := p.alignEpisodes_yields w zone
  refine ⟨fun out hout => ?_, hyields.exists_iff⟩
  obtain ⟨-, rfl⟩ := (hyields out).1 hout
  exact p.anchorsOnDates_episodePanel hsnap zone

end Panel

/-! ### A weekend -/

/-- Prices on a Friday and a Monday, and an event that starts on the Saturday in between. -/
def Entity.weekendEvent : Entity Float where
  identity := ⟨"A", "a", false⟩
  series := [⟨.labelled "Price", [⟨Day.midnight 1, 1⟩, ⟨Day.midnight 4, 2⟩], false⟩,
    ⟨.labelled "Weight", [⟨Day.midnight 2, 1⟩, ⟨Day.midnight 4, 0⟩], true⟩]

namespace Panel

/-- One entity with such an event. -/
def weekendEvent : Panel Float := { entities := [.weekendEvent] }

/-- `x = .weekendEvent ∧ e = ⟨Day.midnight 2, Day.midnight 4⟩`: it has one episode, which starts on
the Saturday. -/
theorem eq_of_mem_weekendEvent {x : Entity Float} (hx : x ∈ weekendEvent.entities)
    {weight : Series Float} (hweight : x.weight? = some weight) {e : Episode}
    (he : e ∈ weight.points.episodes) :
    x = .weekendEvent ∧ e = ⟨Day.midnight 2, Day.midnight 4⟩ := by
  obtain rfl := List.mem_singleton.1 hx
  obtain rfl := Option.some.inj (show some _ = some weight from hweight)
  exact ⟨rfl, List.mem_singleton.1 he⟩

/-- Its instants can all be named: `weekendEvent.EpisodesFit ⟨0, 0, true⟩ newYork`. -/
theorem episodesFit_weekendEvent : weekendEvent.EpisodesFit ⟨0, 0, true⟩ newYork where
  buckets _ x hx weight hweight e he := by
    obtain ⟨-, rfl⟩ := eq_of_mem_weekendEvent hx hweight he
    decide
  cuts k hk := by
    have hmem := mem_anchoredEpisodes_iff.1 hk
    obtain ⟨hx, ⟨weight, hweight, he⟩, -⟩ := hmem
    obtain ⟨hentity, hepisode⟩ := eq_of_mem_weekendEvent hx hweight he
    have hanchor := anchor_eq_start rfl hk (by rw [hepisode]; rfl)
    rw [hentity, hanchor, hepisode]
    exact ⟨by decide, by decide, by decide⟩

/-- How the episodes of a weekend are anchored. -/
theorem anchorsOnDates_weekendEvent : ∃ out,
    weekendEvent.alignEpisodes ⟨0, 0, true⟩ = .ok out ∧
      weekendEvent.AnchorsOnDates ⟨0, 0, true⟩ newYork out := by
  obtain ⟨hanchors, hexists⟩ := weekendEvent.anchorsOnDates (w := ⟨0, 0, true⟩) rfl newYork
  obtain ⟨out, hout⟩ := hexists.2 episodesFit_weekendEvent
  exact ⟨out, hout, hanchors out hout⟩

/-- The event is anchored on the Saturday, since there is a weight then: `⟨.weekendEvent,
⟨Day.midnight 2, Day.midnight 4⟩, Day.midnight 2⟩ ∈ weekendEvent.anchoredEpisodes ⟨0, 0, true⟩
newYork`. -/
theorem mem_anchoredEpisodes_weekendEvent :
    ⟨.weekendEvent, ⟨Day.midnight 2, Day.midnight 4⟩, Day.midnight 2⟩ ∈
      weekendEvent.anchoredEpisodes ⟨0, 0, true⟩ newYork := by
  have hobserves : weekendEvent.Observes (Day.midnight 2) := by decide
  refine mem_anchoredEpisodes_iff.2 ⟨List.mem_singleton_self _, ⟨_, rfl, by decide⟩, ?_⟩
  exact (anchorOn?_eq_some_iff rfl).2
    ⟨⟨_, hobserves, by decide⟩, ⟨hobserves, by decide⟩, fun t ht => ht.2⟩

/-- No price is known on the Saturday. -/
theorem not_trades_weekendEvent :
    ¬∀ k ∈ weekendEvent.anchoredEpisodes ⟨0, 0, true⟩ newYork, weekendEvent.Trades k.anchor :=
  fun h => absurd (h _ mem_anchoredEpisodes_weekendEvent) (by decide)

end Panel

end PanelQuery
