import PanelQuery.Proofs.Series.Lookup
import PanelQuery.Resampling

/-! # Series on the dates of a schedule

What is kept of a series that is moved onto other dates.

* **`Schedule.times_resampleFrom_sublist`** — no other dates, each once and in order;
* **`Schedule.mem_resampleFrom`** — a level keeps what was observed on a date itself;
* **`Schedule.points_applySeries`** — the points of a series moved onto the dates;
* **`Schedule.ne_zero_of_mem_apply`** — none is left on a date on which the weight is zero. -/

namespace PanelQuery

variable {α : Type} [Scalar α]

/-- `h.valueOn? incomplete before (ps.upTo d) = some v`: a level takes the last observation of a
period, if there is one. -/
theorem Header.valueOn?_upTo {h : Header} (hlast : h.downsample = .lastValue) {ps : Points α}
    {d : Instant} {v : α} (hv : ps.carried? d = some v) (incomplete : Bool) (before : Option α) :
    h.valueOn? incomplete before (ps.upTo d) = some v := by
  have hperiod : (ps.upTo d).isEmpty = false := by
    rw [Points.carried?, Points.asOf?] at hv
    cases hempty : ps.upTo d with
    | nil =>
      rw [hempty] at hv
      cases hv
    | cons q rest => rfl
  unfold Header.valueOn?
  rw [hperiod, hlast]
  exact hv

namespace Schedule

variable {h : Header} {endIncomplete incomplete : Bool} {before : Option α} {ps : Points α}
  {dates : List Instant}

/-! ## (1) Points on dates -/

/-- **Points are moved onto the dates and no others**:
`(resampleFrom h endIncomplete incomplete before ps dates).times.Sublist dates`. -/
theorem times_resampleFrom_sublist :
    (resampleFrom h endIncomplete incomplete before ps dates).times.Sublist dates := by
  induction dates generalizing incomplete before ps with
  | nil => exact .slnil
  | cons d dates ih =>
    rw [resampleFrom]
    split
    · exact ih.cons_cons d
    · exact ih.cons d

/-- A point that is moved is on one of the dates: `p.time ∈ dates`. -/
theorem time_mem_of_mem_resampleFrom {p : Point α}
    (hp : p ∈ resampleFrom h endIncomplete incomplete before ps dates) : p.time ∈ dates :=
  times_resampleFrom_sublist.subset (List.mem_map_of_mem hp)

/-- **A level keeps what was observed on a date itself**:
`p ∈ resampleFrom h endIncomplete incomplete before ps dates`. -/
theorem mem_resampleFrom (hlast : h.downsample = .lastValue) (hdates : dates.Pairwise (· < ·))
    (hps : ps.Increasing) {p : Point α} (hp : p ∈ ps) (hd : p.time ∈ dates) :
    p ∈ resampleFrom h endIncomplete incomplete before ps dates := by
  induction dates generalizing incomplete before ps with
  | nil => cases hd
  | cons d dates ih =>
    obtain ⟨hlater, hdates⟩ := List.pairwise_cons.1 hdates
    rw [resampleFrom]
    rcases List.mem_cons.1 hd with rfl | hd
    · -- it is the last observation of the first period
      have hv : ps.carried? p.time = some p.value :=
        hps.carried?_of_last hp (Int.le_refl p.time) fun q _ hq => hq
      have hvalue := Header.valueOn?_upTo hlast hv (incomplete || (dates.isEmpty && endIncomplete))
        before
      rw [Points.upTo] at hvalue
      rw [hvalue]
      exact List.mem_cons_self
    · -- it comes after the first period
      have hrest : p ∈ ps.dropWhile fun q => decide (q.time ≤ d) := by
        rw [← hps.filter_le_append d, List.mem_append] at hp
        refine hp.resolve_left fun hperiod => ?_
        have hle := of_decide_eq_true (List.mem_filter.1 hperiod).2
        exact absurd (hlater _ hd) (Int.not_lt.2 hle)
      have hmem : ∀ before, p ∈ resampleFrom h endIncomplete false before
          (ps.dropWhile fun q => decide (q.time ≤ d)) dates :=
        fun _ => ih hdates (hps.sublist (List.dropWhile_sublist _)) hrest hd
      split
      · exact List.mem_cons_of_mem _ (hmem _)
      · exact hmem _

/-! ## (2) Schedules -/

variable {s : Schedule}

/-- Points moved onto dates in order are in order: `(s.resample h ps).Increasing`. -/
theorem increasing_resample (hs : s.dates.Pairwise (· < ·)) (h : Header) (ps : Points α) :
    (s.resample h ps).Increasing :=
  Points.increasing_iff_times.2 (hs.sublist times_resampleFrom_sublist)

/-- What is left of points moved onto dates in order is in order: `(s.apply h ps w).Increasing`. -/
theorem increasing_apply (hs : s.dates.Pairwise (· < ·)) (h : Header) (ps : Points α)
    (w : Option (Series α)) : (s.apply h ps w).Increasing := by
  cases w with
  | none => exact increasing_resample hs h ps
  | some w => exact (increasing_resample hs h ps).filter _

/-- **The points of a series moved onto dates in order**:
`(s.applySeries series w).points = s.apply series.header series.points w`. -/
theorem points_applySeries (hs : s.dates.Pairwise (· < ·)) (series : Series α)
    (w : Option (Series α)) :
    (s.applySeries series w).points = s.apply series.header series.points w :=
  Points.ofWrites_of_increasing (increasing_apply hs series.header series.points w)

/-- **What a series moved onto dates in order has on a date**:
`(s.applySeries series w).points.valueAt? t = some v` just when
`(⟨t, v⟩ : Point α) ∈ s.apply series.header series.points w`. -/
theorem valueAt?_applySeries_iff (hs : s.dates.Pairwise (· < ·)) {series : Series α}
    {w : Option (Series α)} {t : Instant} {v : α} :
    (s.applySeries series w).points.valueAt? t = some v ↔
      (⟨t, v⟩ : Point α) ∈ s.apply series.header series.points w := by
  rw [points_applySeries hs]
  exact (increasing_apply hs _ _ w).valueAt?_eq_some_iff

/-- **No point is left on a date on which the weight is zero**: `(v == 0) = false`. -/
theorem ne_zero_of_mem_apply {w : Series α} {p : Point α} (hp : p ∈ s.apply h ps (some w)) {v : α}
    (hv : (s.resample w.header w.points).valueAt? p.time = some v) : (v == 0) = false := by
  have htest := (List.mem_filter.1 hp).2
  rw [hv] at htest
  exact Bool.not_eq_true' _ ▸ htest

end Schedule

end PanelQuery
