import PanelQuery.Proofs.Alignment.ByDates
import PanelQuery.Proofs.Panel.Span

/-! # Panels aligned to their calendars

Once all series of a panel are on dates of a calendar, the panel has a calendar of its own, from the
first to the last date that is left. It has no date but those of the first calendar, and so there is
nothing left to align.

* **`Series.align_align`** — a series that is aligned stays as it is on fewer dates, as long as its
  own are among them;
* **`Panel.alignTo_alignTo`** — a panel is aligned once and for all. -/

namespace PanelQuery

variable {α : Type} [Scalar α] {dates fewer : List Instant}

/-! ## (1) Aligned series -/

/-- `(s.align dates).points = s.points.align dates s.header`: the points of a series that is aligned
to dates in order. -/
theorem Series.points_align (hdates : dates.Pairwise (· < ·)) (s : Series α) :
    (s.align dates).points = s.points.align dates s.header :=
  Points.ofWrites_of_increasing (Points.increasing_align hdates s.points s.header)

/-- **A series that is aligned stays as it is** on dates among which its own are:
`(s.align dates).align fewer = s.align dates`. -/
theorem Series.align_align (hdates : dates.Pairwise (· < ·)) (hfewer : fewer.Pairwise (· < ·))
    (hsub : fewer ⊆ dates) {s : Series α}
    (hmem : ∀ q ∈ (s.align dates).points, q.time ∈ fewer) :
    (s.align dates).align fewer = s.align dates := by
  rw [points_align hdates] at hmem
  have hpoints : ((s.align dates).align fewer).points = (s.align dates).points := by
    rw [points_align hfewer, points_align hdates]
    exact Points.align_align hdates hfewer hsub hmem
  exact congrArg (Series.mk s.header · s.isWeight) hpoints

/-! ## (2) Aligned panels -/

namespace Panel

/-- A panel that is aligned to dates in order is on these dates, and in order:
`(p.mapSeries (Series.align dates)).Increasing` and
`(p.mapSeries (Series.align dates)).OnDates dates`. -/
theorem onDates_mapSeries_align (p : Panel α) (hdates : dates.Pairwise (· < ·)) :
    (p.mapSeries (Series.align dates)).Increasing ∧
      (p.mapSeries (Series.align dates)).OnDates dates := by
  refine onDates_of_times_sublist hdates fun e he s hs => ?_
  obtain ⟨e', -, rfl⟩ := List.mem_map.1 he
  obtain ⟨s', -, rfl⟩ := List.mem_map.1 hs
  rw [Series.points_align hdates]
  exact (Points.times_align_sublist _ _ _).trans List.filter_sublist

/-- A panel that is aligned stays as it is on fewer dates, as long as its own are among them:
`(p.mapSeries (Series.align dates)).mapSeries (Series.align fewer)` is
`p.mapSeries (Series.align dates)`. -/
theorem mapSeries_align_align {p : Panel α} (hdates : dates.Pairwise (· < ·))
    (hfewer : fewer.Pairwise (· < ·)) (hsub : fewer ⊆ dates)
    (hon : (p.mapSeries (Series.align dates)).OnDates fewer) :
    (p.mapSeries (Series.align dates)).mapSeries (Series.align fewer) =
      p.mapSeries (Series.align dates) := by
  have hentity : ∀ e ∈ (p.mapSeries (Series.align dates)).entities,
      ({ e with series := e.series.map (Series.align fewer) } : Entity α) = e := by
    intro e he
    have hseries : e.series.map (Series.align fewer) = e.series := by
      refine map_eq_self_iff.2 fun s hs => ?_
      have hmem := hon e he s hs
      obtain ⟨e', -, rfl⟩ := List.mem_map.1 he
      obtain ⟨s', -, rfl⟩ := List.mem_map.1 hs
      exact Series.align_align hdates hfewer hsub hmem
    rw [hseries]
  exact congrArg (fun entities => { p with entities }) (map_eq_self_iff.2 hentity)

/-- **A panel is aligned once and for all**: `(p.alignTo f).alignTo f = p.alignTo f`. -/
theorem alignTo_alignTo (f : Frequency) (p : Panel α) : (p.alignTo f).alignTo f = p.alignTo f := by
  cases hcalendar : p.calendar? f with
  | none =>
    have hsame : p.alignTo f = p := by rw [alignTo, hcalendar]
    rw [hsame, hsame]
  | some calendar =>
    obtain ⟨⟨low, high⟩, -, rfl⟩ := Option.map_eq_some_iff.1 hcalendar
    have hdates := Schedule.spanning_pairwise f low high
    obtain ⟨hinc, hon⟩ := p.onDates_mapSeries_align hdates
    have haligned : p.alignTo f =
        p.mapSeries (Series.align (Schedule.spanning f low high).dates) := by
      rw [alignTo, hcalendar]
    rw [haligned, alignTo]
    split
    next => rfl
    next own hown =>
      obtain ⟨begins, ends, -, -, -, rfl, hsub, hown⟩ := calendar?_eq_some hinc hon hown
      exact mapSeries_align_align hdates (Schedule.spanning_pairwise f begins ends) hsub hown

end Panel

end PanelQuery
