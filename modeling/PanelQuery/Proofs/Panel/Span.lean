import PanelQuery.Cadence
import PanelQuery.Proofs.Time.Calendar

/-! # The span of a panel

The span of entities and panels is looked up at the ends of their series. As series are in order, it
begins with the first of all observations and ends with the last.

* **`IsSpan`** — from the first to the last observation of some series;
* **`Entity.isSpan`, `Panel.isSpan`** — the spans that are looked up;
* **`Panel.calendar?_eq_some`** — the calendar of a panel on the dates of another calendar. -/

namespace PanelQuery

variable {α : Type}

/-! ## (1) Spans -/

/-- The times of the first and of the last observation of some series. -/
structure IsSpan (all : List (Series α)) (first last : Instant) : Prop where
  first_mem : ∃ s ∈ all, ∃ q ∈ s.points, q.time = first
  last_mem : ∃ s ∈ all, ∃ q ∈ s.points, q.time = last
  bounds : ∀ s ∈ all, ∀ q ∈ s.points, first ≤ q.time ∧ q.time ≤ last

/-- **The span of an entity** is that of its series: `IsSpan e.series first last`. -/
theorem Entity.isSpan {e : Entity α} (he : ∀ s ∈ e.series, s.Increasing) {first last : Instant}
    (h : e.span? = some (first, last)) : IsSpan e.series first last := by
  simp only [Entity.span?, Option.bind_eq_bind, Option.bind_eq_some_iff, Option.pure_def,
    Option.some.injEq, Prod.mk.injEq] at h
  obtain ⟨_, hmin, _, hmax, rfl, rfl⟩ := h
  obtain ⟨hfirst, hleast⟩ := List.min?_eq_some_iff.1 hmin
  obtain ⟨hlast, hgreatest⟩ := List.max?_eq_some_iff.1 hmax
  constructor
  · obtain ⟨s, hs, hhead⟩ := List.mem_filterMap.1 hfirst
    obtain ⟨q, hq, htime⟩ := Option.map_eq_some_iff.1 hhead
    exact ⟨s, hs, q, List.mem_of_head? hq, htime⟩
  · obtain ⟨s, hs, htail⟩ := List.mem_filterMap.1 hlast
    obtain ⟨q, hq, htime⟩ := Option.map_eq_some_iff.1 htail
    exact ⟨s, hs, q, List.mem_of_getLast? hq, htime⟩
  · intro s hs q hq
    obtain ⟨⟨begins, hhead, hle⟩, ends, htail, hge⟩ := Points.Increasing.bounds (he s hs) hq
    have hbegins := hleast _ (List.mem_filterMap.2 ⟨s, hs, by rw [hhead]; rfl⟩)
    have hends := hgreatest _ (List.mem_filterMap.2 ⟨s, hs, by rw [htail]; rfl⟩)
    exact ⟨Int.le_trans hbegins hle, Int.le_trans hge hends⟩

/-- An entity with an observation has a span: `∃ first last, e.span? = some (first, last)`. -/
theorem Entity.span?_isSome {e : Entity α} {s : Series α} (hs : s ∈ e.series) {q : Point α}
    (hq : q ∈ s.points) : ∃ first last, e.span? = some (first, last) := by
  have hne : s.points ≠ [] := List.ne_nil_of_mem hq
  have hfirst : (s.points.head hne).time ∈
      e.series.filterMap fun s => s.points.head?.map Point.time :=
    List.mem_filterMap.2 ⟨s, hs, by rw [List.head?_eq_some_head hne, Option.map_some]⟩
  have hlast : (s.points.getLast hne).time ∈
      e.series.filterMap fun s => s.points.getLast?.map Point.time :=
    List.mem_filterMap.2 ⟨s, hs, by rw [List.getLast?_eq_some_getLast hne, Option.map_some]⟩
  obtain ⟨first, hmin⟩ := Option.isSome_iff_exists.1 (List.isSome_min?_of_mem hfirst)
  obtain ⟨last, hmax⟩ := Option.isSome_iff_exists.1 (List.isSome_max?_of_mem hlast)
  refine ⟨first, last, ?_⟩
  rw [span?, hmin, hmax]
  rfl

/-- **The span of a panel** is that of all its series:
`IsSpan (p.entities.flatMap Entity.series) first last`. -/
theorem Panel.isSpan {p : Panel α} (hp : ∀ e ∈ p.entities, ∀ s ∈ e.series, s.Increasing)
    {first last : Instant} (h : p.span? = some (first, last)) :
    IsSpan (p.entities.flatMap Entity.series) first last := by
  simp only [Panel.span?, Option.bind_eq_bind, Option.bind_eq_some_iff, Option.pure_def,
    Option.some.injEq, Prod.mk.injEq] at h
  obtain ⟨_, hmin, _, hmax, rfl, rfl⟩ := h
  obtain ⟨hfirst, hleast⟩ := List.min?_eq_some_iff.1 hmin
  obtain ⟨hlast, hgreatest⟩ := List.max?_eq_some_iff.1 hmax
  constructor
  · obtain ⟨⟨_, ends⟩, hspan, rfl⟩ := List.mem_map.1 hfirst
    obtain ⟨e, he, hspan⟩ := List.mem_filterMap.1 hspan
    obtain ⟨s, hs, hq⟩ := (Entity.isSpan (hp e he) hspan).first_mem
    exact ⟨s, List.mem_flatMap.2 ⟨e, he, hs⟩, hq⟩
  · obtain ⟨⟨begins, _⟩, hspan, rfl⟩ := List.mem_map.1 hlast
    obtain ⟨e, he, hspan⟩ := List.mem_filterMap.1 hspan
    obtain ⟨s, hs, hq⟩ := (Entity.isSpan (hp e he) hspan).last_mem
    exact ⟨s, List.mem_flatMap.2 ⟨e, he, hs⟩, hq⟩
  · intro s hs q hq
    obtain ⟨e, he, hs⟩ := List.mem_flatMap.1 hs
    obtain ⟨begins, ends, hspan⟩ := Entity.span?_isSome hs hq
    obtain ⟨hbegins, hends⟩ := (Entity.isSpan (hp e he) hspan).bounds s hs q hq
    have hmem := List.mem_filterMap.2 ⟨e, he, hspan⟩
    have hfirst := hleast _ (List.mem_map_of_mem (f := Prod.fst) hmem)
    have hlast := hgreatest _ (List.mem_map_of_mem (f := Prod.snd) hmem)
    exact ⟨Int.le_trans hfirst hbegins, Int.le_trans hends hlast⟩

/-- A panel with an observation has a span: `∃ first last, p.span? = some (first, last)`. -/
theorem Panel.span?_isSome {p : Panel α} {e : Entity α} (he : e ∈ p.entities) {s : Series α}
    (hs : s ∈ e.series) {q : Point α} (hq : q ∈ s.points) :
    ∃ first last, p.span? = some (first, last) := by
  obtain ⟨begins, ends, hspan⟩ := Entity.span?_isSome hs hq
  have hmem := List.mem_filterMap.2 ⟨e, he, hspan⟩
  obtain ⟨first, hmin⟩ := Option.isSome_iff_exists.1
    (List.isSome_min?_of_mem (List.mem_map_of_mem (f := Prod.fst) hmem))
  obtain ⟨last, hmax⟩ := Option.isSome_iff_exists.1
    (List.isSome_max?_of_mem (List.mem_map_of_mem (f := Prod.snd) hmem))
  refine ⟨first, last, ?_⟩
  rw [span?, hmin, hmax]
  rfl

namespace Panel

/-! ## (2) Calendars of panels on dates -/

/-- The series of a panel in order of time. -/
def Increasing (p : Panel α) : Prop := ∀ e ∈ p.entities, ∀ s ∈ e.series, s.Increasing

/-- `OnDates p dates`: a panel all of whose observations are on some dates. -/
def OnDates (p : Panel α) (dates : List Instant) : Prop :=
  ∀ e ∈ p.entities, ∀ s ∈ e.series, ∀ q ∈ s.points, q.time ∈ dates

/-- Series each of which has points on some of the dates, in their order:
`p.Increasing ∧ p.OnDates dates`. -/
theorem onDates_of_times_sublist {p : Panel α} {dates : List Instant}
    (hdates : dates.Pairwise (· < ·))
    (h : ∀ e ∈ p.entities, ∀ s ∈ e.series, s.points.times.Sublist dates) :
    p.Increasing ∧ p.OnDates dates := by
  constructor
  · intro e he s hs
    exact Points.increasing_iff_times.2 (hdates.sublist (h e he s hs))
  · intro e he s hs q hq
    exact (h e he s hs).subset (List.mem_map_of_mem hq)

/-- **The calendar of a panel on the dates of another calendar** goes from one of them to another
one, with those in between, and the panel is on its dates: there are `begins` and `ends` with
`begins ∈ (Schedule.spanning f low high).dates`, `ends ∈ (Schedule.spanning f low high).dates`,
`begins ≤ ends`, `calendar = Schedule.spanning f begins ends`,
`calendar.dates ⊆ (Schedule.spanning f low high).dates` and `p.OnDates calendar.dates`. -/
theorem calendar?_eq_some {p : Panel α} (hp : p.Increasing) {f : Frequency} {low high : Instant}
    (hdates : p.OnDates (Schedule.spanning f low high).dates) {calendar : Schedule}
    (h : p.calendar? f = some calendar) :
    ∃ begins ends, begins ∈ (Schedule.spanning f low high).dates ∧
      ends ∈ (Schedule.spanning f low high).dates ∧ begins ≤ ends ∧
      calendar = Schedule.spanning f begins ends ∧
      calendar.dates ⊆ (Schedule.spanning f low high).dates ∧ p.OnDates calendar.dates := by
  obtain ⟨⟨begins, ends⟩, hspan, rfl⟩ := Option.map_eq_some_iff.1 h
  obtain ⟨⟨s, hs, q, hq, rfl⟩, ⟨s', hs', q', hq', rfl⟩, hbounds⟩ := Panel.isSpan hp hspan
  obtain ⟨e, he, hse⟩ := List.mem_flatMap.1 hs
  obtain ⟨e', he', hse'⟩ := List.mem_flatMap.1 hs'
  have hbegins := hdates e he s hse q hq
  have hends := hdates e' he' s' hse' q' hq'
  have hle := (hbounds s hs q hq).2
  have hbetween := Schedule.dates_spanning_of_mem f hbegins hends hle
  refine ⟨q.time, q'.time, hbegins, hends, hle, rfl, ?_, fun e he s hs r hr => ?_⟩
  · dsimp only
    rw [hbetween]
    exact List.filter_subset_self _
  · obtain ⟨hlow, hhigh⟩ := hbounds s (List.mem_flatMap.2 ⟨e, he, hs⟩) r hr
    dsimp only
    rw [hbetween]
    refine List.mem_filter.2 ⟨hdates e he s hs r hr, ?_⟩
    rw [decide_eq_true hlow, decide_eq_true hhigh, Bool.and_true]

end Panel

/-- `l.map g = l ↔ ∀ b ∈ l, g b = b`: a list is changed to itself when all its members are. -/
theorem map_eq_self_iff {β : Type} {g : β → β} {l : List β} :
    l.map g = l ↔ ∀ b ∈ l, g b = b := by
  have hid := List.map_inj_left (f := g) (g := id) (l := l)
  rwa [List.map_id] at hid

end PanelQuery
