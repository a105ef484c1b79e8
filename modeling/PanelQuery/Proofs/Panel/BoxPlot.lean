import PanelQuery.Proofs.Panel.Reduction
import PanelQuery.Proofs.Statistics.Quantiles

/-! # Box plots

A box plot has five figures for each cross section: the quantiles at so many quarters, one row for
each. On no date do they fall from row to row, and the one in the middle is the median.

* **`Drawn.valueAt?_series`** — what a figure is on a date;
* **`CrossSection.boxRow`, `CrossSection.valueAt?_boxRow`** — the rows of a box plot, and their values
  on a date;
* **`CrossSection.points_boxRow_median`** — the row in the middle;
* **`Panel.BoxPlot`, `Panel.boxPlot`** — the box plot of a cross section;
* **`quantiles_agree`** — quantiles, medians and box plots. -/

namespace PanelQuery

/-! ## (1) Values on a date -/

namespace Drawn

variable {α : Type} [Scalar α] {p : Panel α} {r : Reducer} {d : Drawn α}

omit [Scalar α] in
/-- A series of figures is in order of time: `d.series.points.Increasing`. -/
theorem increasing_series (d : Drawn α) : d.series.points.Increasing :=
  Points.increasing_ofWrites d.points

/-- **On a date with rows, a figure is that of these rows**:
`d.series.points.valueAt? day.time = d.figure day`. -/
theorem valueAt?_series (hd : d ∈ p.drawn r) {day : DateRows α} (hday : day ∈ d.source.byDate)
    (hrows : day.rows ≠ []) : d.series.points.valueAt? day.time = d.figure day := by
  have hpoint : d.point? day = (d.figure day).map fun v => ⟨day.time, v⟩ := by
    simp [point?, hrows]
  have htimes : (d.source.byDate.map DateRows.time).Nodup :=
    List.pairwise_map.2 ((Panel.pairwise_byDate (Panel.mem_drawn.1 hd).1).imp Int.ne_of_lt)
  ext v
  rw [d.increasing_series.valueAt?_eq_some_iff, Panel.points_series hd, points, List.mem_filterMap]
  constructor
  · rintro ⟨day', hday', hv⟩
    -- no two days are of one date
    obtain rfl : day = day' :=
      List.inj_on_of_nodup_map htimes hday hday' (point?_eq_some hv).1
    rw [hpoint] at hv
    obtain ⟨w, hw, heq⟩ := Option.map_eq_some_iff.1 hv
    cases heq
    exact hw
  · intro hv
    exact ⟨day, hday, by simp [hpoint, hv]⟩

end Drawn

/-! ## (2) Rows of a box plot -/

section BoxRows

variable {p : Panel Rat} {x : CrossSection Rat} {row : String}

namespace CrossSection

/-- A row of a box plot: the quantile at as many quarters as there are rows before it. -/
def boxRow (x : CrossSection Rat) (row : String) : Drawn Rat :=
  ⟨x, x.category ++ " " ++ row, fun day => day.quartile (boxRows.idxOf row)⟩

/-- The medians of a cross section. -/
def medians (x : CrossSection Rat) : Drawn Rat :=
  ⟨x, x.category, fun day => Statistics.median day.values⟩

/-- A box plot has all its rows: `x.boxRow row ∈ p.drawn .boxplot`. -/
theorem boxRow_mem_drawn (hx : x ∈ p.crossSections) (hrow : row ∈ boxRows) :
    x.boxRow row ∈ p.drawn .boxplot := by
  have hplace : ∀ row ∈ boxRows, (row, boxRows.idxOf row) ∈ boxRows.zipIdx := by decide
  exact Panel.mem_drawn.2 ⟨hx, List.mem_map.2 ⟨_, hplace row hrow, rfl⟩⟩

/-- A panel of medians has those of each cross section: `x.medians ∈ p.drawn .median`. -/
theorem medians_mem_drawn (hx : x ∈ p.crossSections) : x.medians ∈ p.drawn .median :=
  Panel.mem_drawn.2 ⟨hx, List.mem_singleton_self _⟩

/-- `day.quartile k = some (Statistics.quantile day.values (k / 4))`: a quarter of the way through
the values of a date. -/
theorem quartile_eq {day : DateRows Rat} (h : day.rows ≠ []) (k : Nat) :
    day.quartile k = some (Statistics.quantile day.values (k / 4)) :=
  (Statistics.quantiles (mt List.map_eq_nil_iff.1 h)).computed _

/-- **What the rows of a box plot are on a date**, and that there are none on a date without rows:
`(∀ row ∈ boxRows, (x.boxRow row).series.points.valueAt? t = none)` or there is `values` with
`values ≠ []` and for all `row ∈ boxRows`, `(x.boxRow row).series.points.valueAt? t` is
`some (Statistics.quantile values (boxRows.idxOf row / 4))`. -/
theorem valueAt?_boxRow (hx : x ∈ p.crossSections) (t : Instant) :
    (∀ row ∈ boxRows, (x.boxRow row).series.points.valueAt? t = none) ∨
      ∃ values, values ≠ [] ∧ ∀ row ∈ boxRows, (x.boxRow row).series.points.valueAt? t =
        some (Statistics.quantile values (boxRows.idxOf row / 4)) := by
  by_cases ht : ∃ day ∈ x.byDate, day.time = t ∧ day.rows ≠ []
  · obtain ⟨day, hday, rfl, hrows⟩ := ht
    refine .inr ⟨day.values, mt List.map_eq_nil_iff.1 hrows, fun row hrow => ?_⟩
    rw [Drawn.valueAt?_series (boxRow_mem_drawn hx hrow) hday hrows]
    exact quartile_eq hrows _
  · refine .inl fun row hrow => Points.valueAt?_eq_none fun q hq hqt => ht ?_
    have hd := boxRow_mem_drawn hx hrow
    rw [Panel.points_series hd] at hq
    exact exists_rowsFor_iff.1 ((Drawn.mem_times_points (Panel.mem_drawn.1 hd).2 t).1
      (List.mem_map.2 ⟨q, hq, hqt⟩))

/-- **On no date do they fall from row to row**:
`(boxRows.filterMap fun row => (x.boxRow row).series.points.valueAt? t).Pairwise (· ≤ ·)`. -/
theorem pairwise_valueAt?_boxRow (hx : x ∈ p.crossSections) (t : Instant) :
    (boxRows.filterMap fun row => (x.boxRow row).series.points.valueAt? t).Pairwise (· ≤ ·) := by
  rcases valueAt?_boxRow hx t with hnone | ⟨values, hvalues, hsome⟩
  · rw [List.filterMap_eq_nil_iff.2 hnone]
    exact List.Pairwise.nil
  · rw [List.filterMap_eq_map_iff_forall_eq_some.2 hsome, List.pairwise_map]
    have hplaces : boxRows.Pairwise fun row row' => boxRows.idxOf row ≤ boxRows.idxOf row' := by
      decide
    refine hplaces.imp fun hle => Statistics.quantile_mono hvalues ?_
    have hcast : ((boxRows.idxOf _ : Nat) : Rat) ≤ (boxRows.idxOf _ : Nat) := Nat.cast_le.2 hle
    linarith

/-- **The row in the middle is that of the medians**:
`(x.boxRow "Median").points = x.medians.points`. -/
theorem points_boxRow_median (x : CrossSection Rat) :
    (x.boxRow "Median").points = x.medians.points := by
  refine List.filterMap_congr fun day _ => ?_
  unfold Drawn.point?
  split
  · rfl
  · rename_i hrows
    have hvalues : day.values ≠ [] := by simpa [DateRows.values] using hrows
    have hhalf : ((boxRows.idxOf "Median" : Nat) : Rat) / 4 = 1 / 2 := by
      rw [show boxRows.idxOf "Median" = 2 by decide]
      norm_num
    have hfigure : day.quartile (boxRows.idxOf "Median") = Statistics.median day.values := by
      rw [quartile_eq (by simpa using hrows), hhalf]
      exact ((Statistics.quantiles hvalues).middle day.values (List.Perm.refl _)).symm
    exact congrArg (Option.map _) hfigure

end CrossSection

end BoxRows

/-! ## (3) Box plots of a panel -/

/-- The box plot of a cross section of a panel, with the series of each row, beside its medians. -/
structure Panel.BoxPlot (p : Panel Rat) (x : CrossSection Rat) (series : String → Series Rat)
    (medians : Series Rat) : Prop where
  /-- Each row is the only series of its key. -/
  rows : ∀ row ∈ boxRows,
    (p.aggregate .boxplot).labelled (x.category ++ " " ++ row) x.field = [series row]
  /-- So are the medians. -/
  reduced : (p.aggregate .median).labelled x.category x.field = [medians]
  /-- There is a value on each date with rows, and on no other. -/
  times : ∀ row ∈ boxRows, ∀ t, t ∈ (series row).points.times ↔ ∃ n, x.rowsFor n t ≠ []
  /-- On no date do the values fall from row to row. -/
  rising : ∀ t, (boxRows.filterMap fun row => (series row).points.valueAt? t).Pairwise (· ≤ ·)
  /-- The row in the middle is that of the medians. -/
  middle : (series "Median").points = medians.points

/-- **The box plot of a cross section**:
`p.BoxPlot x (fun row => (x.boxRow row).series) x.medians.series`. -/
theorem Panel.boxPlot {p : Panel Rat} {x : CrossSection Rat} (hx : x ∈ p.crossSections) :
    p.BoxPlot x (fun row => (x.boxRow row).series) x.medians.series where
  rows _ hrow := labelled_aggregate_of_mem rfl (CrossSection.boxRow_mem_drawn hx hrow)
  reduced := labelled_aggregate_of_mem rfl (CrossSection.medians_mem_drawn hx)
  times row hrow t := by
    have hd := CrossSection.boxRow_mem_drawn hx hrow
    rw [points_series hd]
    exact Drawn.mem_times_points (mem_drawn.1 hd).2 t
  rising := CrossSection.pairwise_valueAt?_boxRow hx
  middle := by
    rw [points_series (CrossSection.boxRow_mem_drawn hx (by decide)),
      points_series (CrossSection.medians_mem_drawn hx), CrossSection.points_boxRow_median]

/-- **Quantiles, medians and box plots agree**:
`(∀ xs : List Rat, xs ≠ [] → ∃ value, Statistics.Quantiles xs value)` and for all
`(p : Panel Rat) (x : CrossSection Rat)`,
`x ∈ p.crossSections → ∃ series medians, p.BoxPlot x series medians`. The quantiles of some exact
numbers go from the smallest number to the greatest without a fall, past each number at the fraction
of its rank and past the median half way; so the rows of a box plot do not fall on any date, and the
one in the middle is that of the medians. -/
theorem quantiles_agree :
    (∀ xs : List Rat, xs ≠ [] → ∃ value, Statistics.Quantiles xs value) ∧
      ∀ (p : Panel Rat) (x : CrossSection Rat), x ∈ p.crossSections →
        ∃ series medians, p.BoxPlot x series medians := by
  constructor
  · intro xs h
    exact ⟨_, Statistics.quantiles h⟩
  · intro p x hx
    exact ⟨_, _, Panel.boxPlot hx⟩

/-- Four numbers, whose median is none of them, and the prices of two entities. -/
theorem quantiles_agree_fourNumbers :
    ([4, 1, 3, 2] : List Rat) ≠ [] ∧
      (∃ value, Statistics.Quantiles [4, 1, 3, 2] value ∧ value (1 / 3) = 2 ∧
        value (1 / 2) = 5 / 2) ∧
      ∃ x ∈ Panel.shuffled.crossSections, x.category = "All" ∧ x.field = "Price" ∧
        ∃ series medians, Panel.shuffled.BoxPlot x series medians := by
  obtain ⟨hnumbers, hpanels⟩ := quantiles_agree
  refine ⟨by decide, ?_, ?_⟩
  · obtain ⟨value, hvalue⟩ := hnumbers [4, 1, 3, 2] (by decide)
    have hsorted : Scalar.sorted [4, 1, 3, 2] = ([1, 2, 3, 4] : List Rat) :=
      List.Perm.eq_of_pairwise (fun _ _ _ _ => le_antisymm) (Scalar.sorted_pairwise _)
        (by decide +kernel) ((Scalar.sorted_perm _).trans (by decide +kernel))
    have hthird : Statistics.quantileSorted (Scalar.sorted [4, 1, 3, 2]) (1 / 3) =
        some (2 : Rat) := by
      rw [hsorted]
      decide +kernel
    have hhalf : Statistics.median [4, 1, 3, 2] = some (5 / 2 : Rat) := by
      rw [Statistics.median, hsorted]
      decide +kernel
    exact ⟨value, hvalue, Option.some.inj ((hvalue.computed _).symm.trans hthird),
      Option.some.inj ((hvalue.middle _ (.refl _)).symm.trans hhalf)⟩
  · -- the second entity is in no category
    obtain ⟨x, hx⟩ : ∃ x, Panel.shuffled.crossSection? "Price" "All" = some x :=
      Panel.exists_crossSection?_iff.2
        ⟨Panel.shuffled.entities[1], List.getElem_mem (by decide), by decide, _, rfl⟩
    obtain ⟨hfield, hcategory, -⟩ := Panel.crossSection?_eq_some hx
    have hmem : x ∈ Panel.shuffled.crossSections :=
      Panel.mem_crossSections_iff.2 (by rw [hfield, hcategory]; exact hx)
    exact ⟨x, hmem, hcategory, hfield, hpanels _ x hmem⟩

end PanelQuery
