import PanelQuery.Proofs.Resampling.Composition
import PanelQuery.Proofs.Resampling.OwnDates

/-! # Series that a schedule leaves as they are

A series on dates is moved onto them, or onto some of them, once more. On most dates nothing
changes: an observation that is alone on its date stays there, and a gap that was left once is left
again. The others are dates on which no single observation is kept, because the policy keeps none at
all, or because the period is incomplete.

* **`Schedule.keeps`** — whether an observation stays on a date on which it is alone;
* **`Schedule.keeps_or_gap`** — a date without value keeps none, or has a gap that is not filled;
* **`Series.SettledOn`** — on dates that keep no observation, there is none and none is filled in;
* **`Schedule.applySeries_applySeries_iff`** — just such series stay as they are. -/

namespace PanelQuery

variable {α : Type} [Scalar α] {ps : Points α} {d : Instant}

/-- `policy.fill? carried' = none`: a gap that is not filled is not filled either when less is
carried into it. -/
theorem Policy.fill?_eq_none_of_imp {policy : Policy} {carried carried' : Option α}
    (h : policy = .lastValue → carried = none → carried' = none)
    (hgap : policy.fill? carried = none) : policy.fill? carried' = none := by
  cases policy with
  | lastValue => exact h rfl hgap
  | zero => cases hgap
  | drop => rfl
  | arithmetic => rfl
  | geometric => rfl

namespace Schedule

/-! ## (1) Dates that keep an observation -/

/-- Whether an observation that is alone on a date stays there: always for a level, where the period
is not incomplete for a flow, and never otherwise. -/
def keeps (s : Schedule) (policy : Policy) (d : Instant) : Bool :=
  match policy with
  | .lastValue => true
  | .arithmetic | .geometric => !s.isCut d
  | .drop | .zero => false

/-- `s.keeps policy d = true`: a schedule with fewer incomplete periods keeps more. -/
theorem keeps_of_isCut {s s' : Schedule} (hcut : s.isCut d = true → s'.isCut d = true)
    {policy : Policy} (h : s'.keeps policy d = true) : s.keeps policy d = true := by
  have hflow : (!s'.isCut d) = true → (!s.isCut d) = true := by
    cases hs : s.isCut d <;> simp_all
  cases policy with
  | lastValue => rfl
  | arithmetic => exact hflow h
  | geometric => exact hflow h
  | drop => exact h
  | zero => exact h

/-- **An observation alone on a date** stays there, or is dropped. -/
theorem ownValue?_eq (s : Schedule) (h : Header) (carried : Option Rat) (d : Instant)
    (observed : Option Rat) :
    h.ownValue? (s.isCut d) carried d observed =
      match observed with
      | some v => if s.keeps h.downsample d then some v else none
      | none => h.upsample.fill? carried := by
  cases observed with
  | none => rfl
  | some v =>
    simp only [Header.ownValue?]
    cases hpolicy : h.downsample with
    | lastValue => rfl
    | arithmetic =>
      rw [Policy.fold?_eq_total _ (.inl rfl), Policy.total_singleton]
      cases hcut : s.isCut d <;> simp [keeps, hcut, Policy.isAggregating]
    | geometric =>
      rw [Policy.fold?_eq_total _ (.inr rfl), Policy.total_singleton]
      cases hcut : s.isCut d <;> simp [keeps, hcut, Policy.isAggregating]
    | drop => rfl
    | zero => rfl

/-! ## (2) Gaps that are left -/

section Gaps

variable {dates : List Instant} {incomplete endIncomplete : Bool} {before : Option α} {h : Header}

/-- `s.keeps h.downsample d = false`: only an incomplete period, or a policy that keeps nothing,
leaves observations without value. -/
theorem keeps_eq_false_of_valueOn? {s : Schedule} {p : Point α} {period : Points α}
    (hnone : h.valueOn? (s.isCut d) before (p :: period) = none) :
    s.keeps h.downsample d = false := by
  unfold Header.valueOn? at hnone
  unfold keeps
  cases hpolicy : h.downsample <;>
    simp_all [Policy.isAggregating, Policy.fold?, List.getLast?_cons]

/-- `(resampleFrom h endIncomplete incomplete before ps dates).carried? d = none`: no value of a
date is carried to a date before. -/
theorem carried?_resampleFrom_of_lt (hd : ∀ t ∈ dates, d < t) :
    (resampleFrom h endIncomplete incomplete before ps dates).carried? d = none :=
  Points.carried?_eq_none fun _ hp => Int.not_le.2 (hd _ (time_mem_of_mem_resampleFrom hp))

/-- **A date without value** keeps no observation, or has a gap that is not filled, from some date
on. -/
theorem keeps_or_gap_resampleFrom (hdates : dates.Pairwise (· < ·)) (hd : d ∈ dates)
    (hnone : (resampleFrom h endIncomplete incomplete before ps dates).valueAt? d = none) :
    keeps ⟨dates, incomplete, endIncomplete⟩ h.downsample d = false ∨
      h.upsample.fill? (((resampleFrom h endIncomplete incomplete before ps dates).carried? d).or
        before) = none := by
  induction dates generalizing incomplete before ps with
  | nil => cases hd
  | cons t dates ih =>
    obtain ⟨ht, hdates⟩ := List.pairwise_cons.1 hdates
    rw [resampleFrom] at hnone ⊢
    rcases List.mem_cons.1 hd with rfl | hd
    · -- the first date has observations that it does not keep, or none
      rw [← isCut_head ht] at hnone ⊢
      split at hnone
      next v hv => simp [Points.valueAt?_cons_of_eq] at hnone
      next hv =>
        cases hperiod : ps.takeWhile fun p => decide (p.time ≤ d) with
        | nil =>
          rw [hperiod] at hv
          right
          rw [carried?_resampleFrom_of_lt ht]
          exact hv
        | cons p period =>
          rw [hperiod] at hv
          exact .inl (keeps_eq_false_of_valueOn? hv)
    · have hlt := ht d hd
      have hlater : (resampleFrom h endIncomplete false
          (((ps.takeWhile fun p => decide (p.time ≤ t)).getLast?.map Point.value).or before)
          (ps.dropWhile fun p => decide (p.time ≤ t)) dates).valueAt? d = none := by
        split at hnone
        next v hv => rwa [Points.valueAt?_cons_of_ne (Int.ne_of_lt hlt)] at hnone
        next hv => exact hnone
      rcases ih hdates hd hlater with hkeeps | hgap
      · left
        simpa only [keeps, isCut_tail hlt hd] using hkeeps
      · right
        refine Policy.fill?_eq_none_of_imp (fun hlast hcarried => ?_) hgap
        -- nothing is carried on, so that the first date has no value either
        rw [Option.or_eq_none_iff, Option.or_eq_none_iff, Option.map_eq_none_iff,
          List.getLast?_eq_none_iff] at hcarried
        obtain ⟨hcarried, hperiod, rfl⟩ := hcarried
        simp only [hperiod] at hcarried ⊢
        simpa [Header.valueOn?, hlast, Policy.fill?] using hcarried

end Gaps

variable {s : Schedule}

/-- **A date without value** keeps no observation, or has a gap that is not filled:
`s.keeps h.downsample d = false ∨ h.upsample.fill? ((s.resample h ps).carried? d) = none`. -/
theorem keeps_or_gap (hs : s.dates.Pairwise (· < ·)) (h : Header) (ps : Points α) (hd : d ∈ s.dates)
    (hnone : (s.resample h ps).valueAt? d = none) :
    s.keeps h.downsample d = false ∨ h.upsample.fill? ((s.resample h ps).carried? d) = none := by
  have hgap := keeps_or_gap_resampleFrom hs hd hnone
  rwa [Option.or_none] at hgap

end Schedule

/-! ## (3) Weights on dates -/

/-- `Series.isZeroOn w d`: whether a weight is zero on a date. -/
def Series.isZeroOn (w : Series α) (d : Instant) : Bool := (w.points.valueAt? d).any fun v => v == 0

namespace Schedule

variable {s : Schedule} {weight : Option (Series α)}

/-- `mask s weight`: a weight, if there is one, on the dates of a schedule. -/
def mask (s : Schedule) (weight : Option (Series α)) : Option (Series α) :=
  weight.map fun w => s.applySeries w none

/-- Points on dates are left out where the weight on these dates is zero: `s.apply h ps weight` is
`(s.resample h ps).filter fun p => !(s.mask weight).any fun w => w.isZeroOn p.time`. -/
theorem apply_eq_filter (hs : s.dates.Pairwise (· < ·)) (h : Header) (ps : Points α)
    (weight : Option (Series α)) :
    s.apply h ps weight = (s.resample h ps).filter fun p =>
      !(s.mask weight).any fun w => w.isZeroOn p.time := by
  cases weight with
  | none => simp [apply, mask]
  | some w =>
    refine List.filter_congr fun p _ => ?_
    simp only [mask, Option.map_some, Option.any_some, Series.isZeroOn, points_applySeries hs, apply]
    cases (s.resample w.header w.points).valueAt? p.time <;> rfl

/-- **What points have on a date**, by what the weight is there: `(s.apply h ps weight).valueAt? d`
is `if (s.mask weight).any fun w => w.isZeroOn d then none else (s.resample h ps).valueAt? d`. -/
theorem valueAt?_apply (hs : s.dates.Pairwise (· < ·)) (h : Header) (ps : Points α)
    (weight : Option (Series α)) (d : Instant) :
    (s.apply h ps weight).valueAt? d =
      if (s.mask weight).any fun w => w.isZeroOn d then none else (s.resample h ps).valueAt? d := by
  rw [apply_eq_filter hs,
    Points.valueAt?_filter_times fun t => !(s.mask weight).any fun w => w.isZeroOn t]
  cases (s.mask weight).any fun w => w.isZeroOn d <;> rfl

/-- **A date without value** keeps no observation, or has a gap that is not filled, or the weight is
zero there: `s.keeps h.downsample d = false`,
`h.upsample.fill? ((s.apply h ps weight).carried? d) = none` or
`(s.mask weight).any (fun w => w.isZeroOn d) = true`. -/
theorem keeps_or_gap_apply (hs : s.dates.Pairwise (· < ·)) {h : Header} {ps : Points α}
    (hd : d ∈ s.dates) (hnone : (s.apply h ps weight).valueAt? d = none) :
    s.keeps h.downsample d = false ∨
      h.upsample.fill? ((s.apply h ps weight).carried? d) = none ∨
      (s.mask weight).any (fun w => w.isZeroOn d) = true := by
  rw [valueAt?_apply hs] at hnone
  split at hnone
  next hzero => exact .inr (.inr hzero)
  next hzero =>
    refine (keeps_or_gap hs h ps hd hnone).imp_right fun hgap => .inl ?_
    -- points that are left out for the weight only make for less that is carried
    have hless : (s.resample h ps).carried? d = none → (s.apply h ps weight).carried? d = none := by
      refine (increasing_resample hs h ps).carried?_eq_none_of_subset ?_
      rw [apply_eq_filter hs]
      exact List.filter_subset_self _
    exact Policy.fill?_eq_none_of_imp (fun _ => hless) hgap

end Schedule

/-! ## (4) Series once more on dates -/

/-- A series on dates that a calendar leaves as it is: on each date on which no single observation
is kept there is none, and none is filled in, unless the weight is zero. -/
def Series.SettledOn (s : Series α) (calendar : Schedule) (weight : Option (Series α)) : Prop :=
  ∀ d ∈ calendar.dates, calendar.keeps s.header.downsample d = true ∨
    (s.points.valueAt? d = none ∧
      (s.header.upsample.fill? (s.points.carried? d) = none ∨
        weight.any (fun w => w.isZeroOn d) = true))

instance [DecidableEq α] (s : Series α) (calendar : Schedule) (weight : Option (Series α)) :
    Decidable (s.SettledOn calendar weight) :=
  inferInstanceAs (Decidable (∀ d ∈ calendar.dates, _))

namespace Schedule

variable {s fewer : Schedule} {series : Series Rat} {weight : Option (Series Rat)}

/-- What is left, on some of the dates, of points that are on them already. -/
theorem valueAt?_apply_ownDates (hfewer : fewer.dates.Pairwise (· < ·)) {h : Header}
    {ps : Points Rat} (hps : ps.Increasing) (hon : ∀ p ∈ ps, p.time ∈ fewer.dates)
    (hweight : fewer.mask weight = weight) (hd : d ∈ fewer.dates) :
    (fewer.apply h ps weight).valueAt? d =
      if weight.any fun w => w.isZeroOn d then none
      else match ps.valueAt? d with
        | some v => if fewer.keeps h.downsample d then some v else none
        | none => h.upsample.fill? (ps.carried? d) := by
  rw [valueAt?_apply hfewer, hweight, resample_ownDates hfewer h hps hon,
    Points.valueAt?_onDates hfewer, if_pos hd, ownValue?_eq]

/-- **A series on dates stays as it is** on some of the dates, among which are its own, just when it
is settled on them; provided that its weight stays as it is.
`fewer.applySeries (s.applySeries series weight) (s.mask weight)` is `s.applySeries series weight`
just when `(s.applySeries series weight).SettledOn fewer (s.mask weight)`. -/
theorem applySeries_applySeries_iff (hs : s.dates.Pairwise (· < ·))
    (hfewer : fewer.dates.Pairwise (· < ·)) (hsub : fewer.dates ⊆ s.dates)
    (hcut : ∀ d ∈ fewer.dates, s.isCut d = true → fewer.isCut d = true)
    (hweight : fewer.mask (s.mask weight) = s.mask weight)
    (hon : ∀ p ∈ (s.applySeries series weight).points, p.time ∈ fewer.dates) :
    fewer.applySeries (s.applySeries series weight) (s.mask weight) =
        s.applySeries series weight ↔
      (s.applySeries series weight).SettledOn fewer (s.mask weight) := by
  have hheader : (s.applySeries series weight).header = series.header := rfl
  have hpoints : fewer.applySeries (s.applySeries series weight) (s.mask weight) =
        s.applySeries series weight ↔
      fewer.apply series.header (s.applySeries series weight).points (s.mask weight) =
        (s.applySeries series weight).points := by
    rw [← hheader, ← points_applySeries hfewer]
    exact ⟨congrArg Series.points, congrArg (Series.mk series.header · series.isWeight)⟩
  rw [hpoints, Series.SettledOn, hheader]
  rw [points_applySeries hs] at hon ⊢
  have hps := increasing_apply hs series.header series.points weight
  have hdates : ∀ p ∈ fewer.apply series.header (s.apply series.header series.points weight)
      (s.mask weight), p.time ∈ fewer.dates := fun p hp =>
    (times_apply_sublist fewer _ _ _).subset (List.mem_map_of_mem (f := Point.time) hp)
  rw [(increasing_apply hfewer _ _ _).eq_iff_onDates hps hdates hon]
  refine forall₂_congr fun d hd => ?_
  rw [valueAt?_apply_ownDates hfewer hps hon hweight hd]
  cases hvalue : (s.apply series.header series.points weight).valueAt? d with
  | some v =>
    -- an observation that was left has no weight of zero, and is kept or dropped
    have hzero : ((s.mask weight).any fun w => w.isZeroOn d) = false := by
      rw [valueAt?_apply hs] at hvalue
      by_contra hzero
      rw [if_pos (Bool.eq_true_of_not_eq_false hzero)] at hvalue
      cases hvalue
    simp [hzero]
  | none =>
    -- a gap is filled now only if it was none before
    have hgap : fewer.keeps series.header.downsample d = true →
        series.header.upsample.fill?
            ((s.apply series.header series.points weight).carried? d) = none ∨
          (s.mask weight).any (fun w => w.isZeroOn d) = true := by
      intro hkeeps
      refine (keeps_or_gap_apply hs (hsub hd) hvalue).resolve_left fun hfalse => ?_
      rw [keeps_of_isCut (hcut d hd) hkeeps] at hfalse
      cases hfalse
    simp only [ite_eq_left_iff, true_and]
    grind

end Schedule

end PanelQuery
