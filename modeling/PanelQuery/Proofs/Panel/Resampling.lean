import PanelQuery.Proofs.Panel.Span
import PanelQuery.Proofs.Resampling.Settled

/-! # Panels resampled once more

The periods of a panel are folded onto the dates of its calendar. The panel on these dates has a
calendar of its own: those of the dates that lie between the first and the last that has a point.
Its first and its last period may be incomplete.

* **`Entity.resampleOn_resampleOn_iff`** — the entities that a calendar leaves as they are;
* **`Panel.Settled`** — a panel all of whose series are settled on its own calendar;
* **`Header.SteadyOn`** — the policies of series that are settled in any case;
* **`Panel.resampleTo_resampleTo_iff`** — just the settled panels stay as they are. -/

namespace PanelQuery

/-! ## (1) Entities -/

namespace Entity

variable {α : Type} [Scalar α]

/-- `SettledOn e calendar`: an entity all of whose series a calendar leaves as they are. -/
def SettledOn (e : Entity α) (calendar : Schedule) : Prop :=
  ∀ s ∈ e.series, s.SettledOn calendar (if s.isWeight then none else e.weight?)

instance [DecidableEq α] (e : Entity α) (calendar : Schedule) : Decidable (e.SettledOn calendar) :=
  inferInstanceAs (Decidable (∀ s ∈ e.series, _))

/-- `(e.resampleOn s).weight? = s.mask e.weight?`: the weight of an entity on the dates of a
schedule. -/
theorem weight?_resampleOn (s : Schedule) (e : Entity α) :
    (e.resampleOn s).weight? = s.mask e.weight? := by
  have hsame : (Series.isWeight ∘ fun series =>
      s.applySeries series (if series.isWeight then none else e.weight?)) = Series.isWeight :=
    funext fun _ => rfl
  rw [weight?, resampleOn, List.find?_map, hsame, ← weight?]
  cases hw : e.weight? with
  | none => rfl
  | some w =>
    have hweight : w.isWeight = true := List.find?_some hw
    simp [Schedule.mask, hweight]

/-- An entity stays as it is on a schedule when each of its series does: `e.resampleOn s = e` just
when for all `series ∈ e.series`,
`s.applySeries series (if series.isWeight then none else e.weight?) = series`. -/
theorem resampleOn_eq_self_iff {s : Schedule} {e : Entity α} :
    e.resampleOn s = e ↔
      ∀ series ∈ e.series,
        s.applySeries series (if series.isWeight then none else e.weight?) = series := by
  rw [← map_eq_self_iff]
  exact ⟨congrArg Entity.series, congrArg (Entity.mk e.identity · e.category)⟩

/-- `s.mask e.weight? = e.weight?`: the weight of an entity stays as it is when all weight series
do. -/
theorem mask_weight?_eq_self {s : Schedule} {e : Entity α}
    (h : ∀ w ∈ e.series, w.isWeight = true → s.applySeries w none = w) :
    s.mask e.weight? = e.weight? := by
  cases hw : e.weight? with
  | none => rfl
  | some w => exact congrArg some (h w (List.mem_of_find?_eq_some hw) (List.find?_some hw))

/-- **An entity on dates stays as it is** on some of the dates, among which are those of its points,
just when all its series are settled on them: the weights first, and so what they leave out.
`(e.resampleOn s).resampleOn fewer = e.resampleOn s ↔ (e.resampleOn s).SettledOn fewer`. -/
theorem resampleOn_resampleOn_iff {s fewer : Schedule} (hs : s.dates.Pairwise (· < ·))
    (hfewer : fewer.dates.Pairwise (· < ·)) (hsub : fewer.dates ⊆ s.dates)
    (hcut : ∀ d ∈ fewer.dates, s.isCut d = true → fewer.isCut d = true) {e : Entity Rat}
    (hon : ∀ series ∈ (e.resampleOn s).series, ∀ q ∈ series.points, q.time ∈ fewer.dates) :
    (e.resampleOn s).resampleOn fewer = e.resampleOn s ↔ (e.resampleOn s).SettledOn fewer := by
  have hweights : ∀ series ∈ (e.resampleOn s).series, series.isWeight = true →
      (fewer.applySeries series none = series ↔ series.SettledOn fewer none) := by
    intro series hseries hweight
    have hon := hon series hseries
    obtain ⟨original, -, rfl⟩ := List.mem_map.1 hseries
    have horiginal : original.isWeight = true := hweight
    rw [horiginal, if_pos rfl] at hon ⊢
    exact Schedule.applySeries_applySeries_iff hs hfewer hsub hcut rfl hon
  have hall : fewer.mask (e.resampleOn s).weight? = (e.resampleOn s).weight? →
      ∀ series ∈ (e.resampleOn s).series,
        (fewer.applySeries series
            (if series.isWeight then none else (e.resampleOn s).weight?) = series ↔
          series.SettledOn fewer
            (if series.isWeight then none else (e.resampleOn s).weight?)) := by
    intro hmask series hseries
    cases hweight : series.isWeight with
    | true => exact hweights series hseries hweight
    | false =>
      have hon := hon series hseries
      obtain ⟨original, -, rfl⟩ := List.mem_map.1 hseries
      have horiginal : original.isWeight = false := hweight
      rw [horiginal] at hon ⊢
      rw [weight?_resampleOn] at hmask ⊢
      exact Schedule.applySeries_applySeries_iff hs hfewer hsub hcut hmask hon
  rw [resampleOn_eq_self_iff]
  constructor
  · intro h series hseries
    refine (hall (mask_weight?_eq_self fun w hw hweight => ?_) series hseries).1 (h series hseries)
    simpa only [hweight, if_pos] using h w hw
  · intro h series hseries
    refine (hall (mask_weight?_eq_self fun w hw hweight => ?_) series hseries).2 (h series hseries)
    refine (hweights w hw hweight).2 ?_
    simpa only [hweight, if_pos] using h w hw

end Entity

/-! ## (2) Panels -/

namespace Panel

section Calendars

variable {α : Type} [Scalar α]

/-- `Settled f p`: a panel that its own calendar leaves as it is. -/
def Settled (f : Frequency) (p : Panel α) : Prop :=
  ∀ calendar ∈ p.calendar? f, ∀ e ∈ p.entities, e.SettledOn calendar

instance [DecidableEq α] (f : Frequency) (p : Panel α) : Decidable (p.Settled f) :=
  inferInstanceAs (Decidable (∀ calendar ∈ p.calendar? f, _))

/-- `resampleOn calendar p`: the panel with every entity on the dates of a schedule. -/
def resampleOn (calendar : Schedule) (p : Panel α) : Panel α :=
  { p with entities := p.entities.map (Entity.resampleOn calendar) }

/-- `p.resampleTo f = p`: a panel without observations stays as it is. -/
theorem resampleTo_of_none {f : Frequency} {p : Panel α} (h : p.calendar? f = none) :
    p.resampleTo f = p := by
  rw [resampleTo, h]

/-- `p.resampleTo f = p.resampleOn calendar`: a panel with observations is moved onto the dates of
its calendar. -/
theorem resampleTo_of_some {f : Frequency} {p : Panel α} {calendar : Schedule}
    (h : p.calendar? f = some calendar) : p.resampleTo f = p.resampleOn calendar := by
  rw [resampleTo, h]
  rfl

/-- `p.resampleOn s = p ↔ ∀ e ∈ p.entities, e.resampleOn s = e`: a panel stays as it is on a
schedule when each of its entities does. -/
theorem resampleOn_eq_self_iff {s : Schedule} {p : Panel α} :
    p.resampleOn s = p ↔ ∀ e ∈ p.entities, e.resampleOn s = e := by
  rw [← map_eq_self_iff]
  exact ⟨congrArg Panel.entities, congrArg (Panel.mk · p.title p.errors p.hint)⟩

/-- A panel on the dates of a schedule is on these dates, and in order:
`(p.resampleOn s).Increasing ∧ (p.resampleOn s).OnDates s.dates`. -/
theorem onDates_resampleOn {s : Schedule} (hs : s.dates.Pairwise (· < ·)) (p : Panel α) :
    (p.resampleOn s).Increasing ∧ (p.resampleOn s).OnDates s.dates := by
  refine onDates_of_times_sublist hs fun e he series hseries => ?_
  obtain ⟨e', -, rfl⟩ := List.mem_map.1 he
  obtain ⟨original, -, rfl⟩ := List.mem_map.1 hseries
  rw [Schedule.points_applySeries hs]
  exact Schedule.times_apply_sublist s _ _ _

end Calendars

/-- **A panel on its calendar stays as it is** on its new one just when it is settled:
`(p.resampleTo f).resampleTo f = p.resampleTo f ↔ (p.resampleTo f).Settled f`. -/
theorem resampleTo_resampleTo_eq_iff (f : Frequency) (p : Panel Rat) :
    (p.resampleTo f).resampleTo f = p.resampleTo f ↔ (p.resampleTo f).Settled f := by
  cases hown : (p.resampleTo f).calendar? f with
  | none => simp [resampleTo_of_none hown, Settled, hown]
  | some own =>
    cases hcalendar : p.calendar? f with
    | none =>
      rw [resampleTo_of_none hcalendar, hcalendar] at hown
      cases hown
    | some calendar =>
      rw [resampleTo_of_some hown]
      unfold Settled
      rw [hown]
      rw [resampleTo_of_some hcalendar] at hown ⊢
      obtain ⟨⟨low, high⟩, -, rfl⟩ := Option.map_eq_some_iff.1 hcalendar
      have hdates := Schedule.spanning_pairwise f low high
      obtain ⟨hinc, hon⟩ := onDates_resampleOn hdates p
      obtain ⟨begins, ends, hbegins, hends, hle, rfl, hsub, hon⟩ :=
        calendar?_eq_some hinc hon hown
      rw [resampleOn_eq_self_iff]
      simp only [Option.mem_some_iff, forall_eq']
      refine forall₂_congr fun e he => ?_
      have hon := hon e he
      obtain ⟨original, -, rfl⟩ := List.mem_map.1 he
      exact Entity.resampleOn_resampleOn_iff hdates (Schedule.spanning_pairwise f begins ends) hsub
        (fun d hd => Schedule.isCut_spanning_of_mem hbegins hends hle hd) hon

end Panel

/-! ## (3) Policies -/

/-- The policies of series that a calendar leaves as they are in any case: levels, flows where no
period is ever incomplete, and series of which nothing is left. -/
def Header.SteadyOn (f : Frequency) (h : Header) : Prop :=
  h.downsample = .lastValue ∨ (h.downsample.isAggregating = true ∧ f = .daily) ∨
    ((h.downsample = .drop ∨ h.downsample = .zero) ∧ h.upsample ≠ .lastValue ∧ h.upsample ≠ .zero)

instance (f : Frequency) (h : Header) : Decidable (h.SteadyOn f) :=
  inferInstanceAs (Decidable (_ ∨ _))

section Steady

variable {α : Type} [Scalar α]

/-- `policy.fill? before = none`: gaps are filled with the value before, or with zero, or not at
all. -/
theorem Policy.fill?_eq_none {policy : Policy} (hlast : policy ≠ .lastValue) (hzero : policy ≠ .zero)
    (before : Option α) : policy.fill? before = none := by
  cases policy with
  | lastValue => exact absurd rfl hlast
  | zero => exact absurd rfl hzero
  | drop => rfl
  | arithmetic => rfl
  | geometric => rfl

namespace Schedule

/-- `(spanning .daily low high).isCut d = false`: no period of a daily calendar is incomplete. -/
theorem isCut_daily (low high : Instant) (d : Instant) :
    (spanning .daily low high).isCut d = false := by
  unfold spanning
  dsimp only
  split <;> rfl

/-- `resampleFrom h endIncomplete incomplete before ps dates = []`: nothing is left of points when
the policies neither keep an observation nor fill a gap. -/
theorem resampleFrom_eq_nil {h : Header} (hdown : h.downsample = .drop ∨ h.downsample = .zero)
    (hgap : ∀ before : Option α, h.upsample.fill? before = none) {endIncomplete incomplete : Bool}
    {before : Option α} {ps : Points α} {dates : List Instant} :
    resampleFrom h endIncomplete incomplete before ps dates = [] := by
  have hvalue : ∀ cut before (period : Points α), h.valueOn? cut before period = none := by
    intro cut before period
    rcases hdown with hdown | hdown <;> simp [Header.valueOn?, hdown, hgap, Policy.fold?]
  induction dates generalizing incomplete before ps with
  | nil => rfl
  | cons d dates ih =>
    rw [resampleFrom]
    simp only [hvalue, ih]

/-- **Series of such policies are settled** on every calendar:
`(s.applySeries series weight).SettledOn (spanning f low high) weight'`. -/
theorem settledOn_of_steadyOn {f : Frequency} {series : Series α} (h : series.header.SteadyOn f)
    (s : Schedule) (weight weight' : Option (Series α)) (low high : Instant) :
    (s.applySeries series weight).SettledOn (spanning f low high) weight' := by
  intro d _
  have hheader : (s.applySeries series weight).header = series.header := rfl
  rw [hheader]
  rcases h with hlast | ⟨hflow, rfl⟩ | ⟨hdown, hup, hzero⟩
  · left
    rw [hlast]
    rfl
  · left
    cases hpolicy : series.header.downsample <;> simp_all [keeps, isCut_daily, Policy.isAggregating]
  · right
    have hgap : ∀ before : Option α, series.header.upsample.fill? before = none :=
      Policy.fill?_eq_none hup hzero
    have hnil : s.apply series.header series.points weight = [] := by
      cases weight <;> simp [apply, resample, resampleFrom_eq_nil hdown hgap]
    have hpoints : (s.applySeries series weight).points = [] := by
      rw [applySeries, hnil]
      exact Points.ofWrites_of_increasing .nil
    rw [hpoints]
    exact ⟨rfl, .inl (hgap _)⟩

end Schedule

end Steady

namespace Panel

/-- A panel of such series is settled once it is on its calendar: `(p.resampleTo f).Settled f`. -/
theorem settled_resampleTo_of_steadyOn {f : Frequency} {p : Panel Rat}
    (h : ∀ e ∈ p.entities, ∀ s ∈ e.series, s.header.SteadyOn f) :
    (p.resampleTo f).Settled f := by
  intro own hown e he series hseries
  cases hcalendar : p.calendar? f with
  | none =>
    rw [resampleTo_of_none hcalendar, hcalendar] at hown
    cases hown
  | some calendar =>
    obtain ⟨⟨begins, ends⟩, -, rfl⟩ := Option.map_eq_some_iff.1 hown
    rw [resampleTo_of_some hcalendar] at he
    obtain ⟨original, horiginal, rfl⟩ := List.mem_map.1 he
    obtain ⟨s, hs, rfl⟩ := List.mem_map.1 hseries
    exact Schedule.settledOn_of_steadyOn (h original horiginal s hs) _ _ _ _ _

/-- **A panel is resampled once and for all** just when it is settled on its calendar then; and so
it is when all policies of its series are steady. -/
theorem resampleTo_resampleTo (f : Frequency) (p : Panel Rat) :
    ((p.resampleTo f).resampleTo f = p.resampleTo f ↔ (p.resampleTo f).Settled f) ∧
      ((∀ e ∈ p.entities, ∀ s ∈ e.series, s.header.SteadyOn f) →
        (p.resampleTo f).resampleTo f = p.resampleTo f) :=
  ⟨resampleTo_resampleTo_eq_iff f p,
    fun h => (resampleTo_resampleTo_eq_iff f p).2 (settled_resampleTo_of_steadyOn h)⟩

/-- `weightedLevel level weight`: a panel with one level and its weight. -/
def weightedLevel (level weight : Points Rat) : Panel Rat :=
  { entities := [{
      identity := ⟨"x", "x", false⟩
      series := [⟨.labelled "level", level, false⟩, ⟨.labelled "Weight", weight, true⟩] }] }

/-- A level over three weeks, in the second of which its weight becomes zero: the gap that this
leaves is filled neither at first nor later. -/
theorem resampleTo_resampleTo_weightedLevel :
    let p := weightedLevel [⟨Day.midnight 0, 1⟩, ⟨Day.midnight 5, 2⟩, ⟨Day.midnight 14, 4⟩]
      [⟨Day.midnight 0, 1⟩, ⟨Day.midnight 8, 0⟩, ⟨Day.midnight 13, 1⟩]
    (∀ e ∈ p.entities, ∀ s ∈ e.series, s.header.SteadyOn .weekly) ∧
      p.resampleTo .weekly = weightedLevel [⟨Day.midnight 1, 1⟩, ⟨Day.midnight 14, 4⟩]
        [⟨Day.midnight 1, 1⟩, ⟨Day.midnight 8, 0⟩, ⟨Day.midnight 14, 1⟩] ∧
      (p.resampleTo .weekly).Settled .weekly ∧
      (p.resampleTo .weekly).resampleTo .weekly = p.resampleTo .weekly := by
  intro p
  have hsteady : ∀ e ∈ p.entities, ∀ s ∈ e.series, s.header.SteadyOn .weekly := by decide
  have hcalendar : p.calendar? .weekly =
      some ⟨[Day.midnight 1, Day.midnight 8, Day.midnight 14], true, true⟩ := by decide +kernel
  have honce : p.resampleTo .weekly = weightedLevel [⟨Day.midnight 1, 1⟩, ⟨Day.midnight 14, 4⟩]
      [⟨Day.midnight 1, 1⟩, ⟨Day.midnight 8, 0⟩, ⟨Day.midnight 14, 1⟩] := by
    rw [resampleTo_of_some hcalendar]
    cbv
  obtain ⟨hsettled, hsame⟩ := resampleTo_resampleTo .weekly p
  exact ⟨hsteady, honce, hsettled.1 (hsame hsteady), hsame hsteady⟩

/-- A panel with one flow that is left out in gaps. -/
def flow (points : Points Rat) : Panel Rat :=
  { entities := [{
      identity := ⟨"x", "x", false⟩
      series := [{
        header := { label := "flow", upsample := .drop, downsample := .arithmetic }
        points }] }] }

/-- A flow over two whole months has a sum for both. The first one is on the last day of its month,
and so it belongs to a period that is incomplete on the calendar of the sums. -/
theorem not_resampleTo_resampleTo_flow :
    ¬((flow [⟨Day.midnight 0, 1⟩, ⟨Day.midnight 30, 2⟩, ⟨Day.midnight 58, 3⟩]).resampleTo
        .monthly).resampleTo .monthly =
      (flow [⟨Day.midnight 0, 1⟩, ⟨Day.midnight 30, 2⟩, ⟨Day.midnight 58, 3⟩]).resampleTo
        .monthly := by
  have honce : (flow [⟨Day.midnight 0, 1⟩, ⟨Day.midnight 30, 2⟩, ⟨Day.midnight 58, 3⟩]).resampleTo
      .monthly = flow [⟨Day.midnight 30, 3⟩, ⟨Day.midnight 58, 3⟩] := by
    have hcalendar : (flow [⟨Day.midnight 0, 1⟩, ⟨Day.midnight 30, 2⟩,
        ⟨Day.midnight 58, 3⟩]).calendar? .monthly =
          some ⟨[Day.midnight 30, Day.midnight 58], false, false⟩ := by decide +kernel
    rw [resampleTo_of_some hcalendar]
    cbv
  have htwice : (flow [⟨Day.midnight 30, 3⟩, ⟨Day.midnight 58, 3⟩]).resampleTo .monthly =
      flow [⟨Day.midnight 58, 3⟩] := by
    have hcalendar : (flow [⟨Day.midnight 30, 3⟩, ⟨Day.midnight 58, 3⟩]).calendar? .monthly =
        some ⟨[Day.midnight 30, Day.midnight 58], true, false⟩ := by decide +kernel
    rw [resampleTo_of_some hcalendar]
    cbv
  rw [honce, htwice]
  decide

end Panel

end PanelQuery
