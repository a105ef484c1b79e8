import Mathlib.Order.Bounds.Basic
import PanelQuery.Cadence
import PanelQuery.Proofs.Series.FiniteMap
import PanelQuery.Proofs.SetAlgebra.Weights
import PanelQuery.Proofs.Time.Periods

/-! # Weights held between dates

A weight is taken over on the dates on which a period is complete, and held from one of them to the
next. The dates come from a calendar between the first and the last point of the weight, which may
end in the middle of a period; as the last date of a period that is cut short is dropped, which
dates are left up to some time does not depend on how far the weight goes. So what is held at a time
does not depend on what is known later.

* **`Frequency.IsCadenceDate`** — the dates with which periods are complete;
* **`mem_rebalanceDates`** — those that are left of a calendar;
* **`Series.HeldAt`** — what is held at a time, in terms of all dates;
* **`Series.HeldAt.of_cutAt`, `Series.rebalance_causal`** — what is known later does not matter. -/

namespace PanelQuery

/-! ## (1) Dates with which periods are complete -/

namespace Frequency

variable {f : Frequency} {d last : Day}

/-- Whether the period of a day is complete with it. Single days are so from Monday to Friday. -/
def Completes : Frequency → Day → Prop
  | daily, d => Day.weekday d < 5
  | f, d => f.IsPeriodEnd d

/-- A time at which a weight is taken over: the start of a day with which a period is complete. The
last day that dates can name is none, as no day is known to come after it. -/
def IsCadenceDate (f : Frequency) (c : Instant) : Prop :=
  ∃ d, Day.midnight d = c ∧ f.Completes d ∧ d < Day.latest

/-- `f.Completes d ↔ f.Closes d`: periods are complete with the days that close them. -/
theorem completes_iff_closes : f.Completes d ↔ f.Closes d := by
  cases f with
  | daily => simp [Completes, Closes, Day.isWeekend]
  | weekly => exact isPeriodEnd_iff_closes (by decide)
  | monthly => exact isPeriodEnd_iff_closes (by decide)
  | quarterly => exact isPeriodEnd_iff_closes (by decide)
  | yearly => exact isPeriodEnd_iff_closes (by decide)

/-- **Without a last day that cuts its period short**, the dates of a calendar are the known days
that close a period:
`(f.IsDate last d ∧ ¬(d = last ∧ f.CutsAt last)) ↔ f.Closes d ∧ d < Day.latest`. -/
theorem isDate_and_not_cut_iff :
    (f.IsDate last d ∧ ¬(d = last ∧ f.CutsAt last)) ↔ f.Closes d ∧ d < Day.latest := by
  unfold IsDate
  rcases f.eq_or_countsMonths with rfl | rfl | ⟨months, hmonths⟩
  · simp [Extends, CutsAt]
  · unfold Closes Extends CutsAt
    constructor
    · rintro ⟨hclose | ⟨rfl, hcut⟩, hnot⟩
      · exact hclose
      · exact absurd ⟨rfl, hcut⟩ hnot
    · rintro ⟨hclose, hlatest⟩
      refine ⟨.inl ⟨hclose, hlatest⟩, ?_⟩
      rintro ⟨rfl, hcut⟩
      exact hcut hclose
  · rw [hmonths.closes_iff, hmonths.extends_iff, hmonths.cutsAt_iff]
    constructor
    · rintro ⟨hclose | ⟨rfl, hknown⟩, hnot⟩
      · exact hclose
      · have hclose : Day.periodEnd months d = d := by
          by_contra hne
          exact hnot ⟨rfl, hknown, hne⟩
        exact ⟨hclose, hclose ▸ hknown⟩
    · rintro ⟨hclose, hlatest⟩
      refine ⟨.inl ⟨hclose, hlatest⟩, ?_⟩
      rintro ⟨rfl, -, hne⟩
      exact hne hclose

end Frequency

variable {f : Frequency} {low high c t : Instant}

/-- `c ∈ ts.dropLast ↔ c ∈ ts ∧ c ≠ t`: all of some dates in order but the last one. -/
theorem mem_dropLast_iff {ts : List Instant} (h : ts.Pairwise (· < ·))
    (ht : ts.getLast? = some t) : c ∈ ts.dropLast ↔ c ∈ ts ∧ c ≠ t := by
  obtain ⟨before, rfl⟩ := List.getLast?_eq_some_iff.1 ht
  have hbefore := (List.pairwise_append.1 h).2.2
  rw [List.dropLast_concat, List.mem_append, List.mem_singleton]
  constructor
  · exact fun hc => ⟨.inl hc, Int.ne_of_lt (hbefore c hc t (List.mem_singleton_self t))⟩
  · rintro ⟨hc | rfl, hne⟩
    · exact hc
    · exact absurd rfl hne

/-- The dates that are left are in order: `(rebalanceDates f low high).Pairwise (· < ·)`. -/
theorem rebalanceDates_pairwise (f : Frequency) (low high : Instant) :
    (rebalanceDates f low high).Pairwise (· < ·) := by
  unfold rebalanceDates
  dsimp only
  split
  · exact (Schedule.spanning_pairwise f low high).sublist (List.dropLast_sublist _)
  · exact Schedule.spanning_pairwise f low high

/-- The dates that are left of a calendar are those of it, but for one that cuts its period short:
`c ∈ rebalanceDates f low high` just when there is `d` with `Day.midnight d = c`,
`Instant.day low ≤ d`, `d ≤ Instant.day high`, `f.IsDate (Instant.day high) d` and
`¬(d = Instant.day high ∧ f.CutsAt (Instant.day high))`. -/
theorem mem_rebalanceDates_iff_isDate (hle : Instant.day low ≤ Instant.day high) :
    c ∈ rebalanceDates f low high ↔ ∃ d, Day.midnight d = c ∧ Instant.day low ≤ d ∧
      d ≤ Instant.day high ∧ f.IsDate (Instant.day high) d ∧
        ¬(d = Instant.day high ∧ f.CutsAt (Instant.day high)) := by
  have hdates := Schedule.spanning_selects f hle
  have hend := Schedule.endIncomplete_spanning (f := f) hle
  unfold rebalanceDates
  dsimp only
  by_cases hcut : f.CutsAt (Instant.day high)
  · -- the last day is a date, and no other one is the last
    have hmem : Day.midnight (Instant.day high) ∈ (Schedule.spanning f low high).dates :=
      (hdates.mem_iff _).2 ⟨_, rfl, hle, Int.le_refl _, hcut.isDate⟩
    have hlast := Schedule.getLast?_eq_some_of_forall_le hdates.pairwise hmem fun u hu => by
      obtain ⟨d, rfl, -, hd, -⟩ := (hdates.mem_iff u).1 hu
      exact Day.midnight_le_iff.2 hd
    rw [if_pos (hend.2 hcut), mem_dropLast_iff hdates.pairwise hlast, hdates.mem_iff]
    constructor
    · rintro ⟨⟨d, rfl, hlow, hhigh, hdate⟩, hne⟩
      exact ⟨d, rfl, hlow, hhigh, hdate, fun heq => hne (congrArg Day.midnight heq.1)⟩
    · rintro ⟨d, rfl, hlow, hhigh, hdate, hnot⟩
      refine ⟨⟨d, rfl, hlow, hhigh, hdate⟩, fun heq => hnot ⟨?_, hcut⟩⟩
      rw [← Day.day_midnight d, heq, Day.day_midnight]
  · rw [if_neg (fun htrue => hcut (hend.1 htrue)), hdates.mem_iff]
    refine exists_congr fun d => and_congr_right fun _ => and_congr_right fun _ =>
      and_congr_right fun _ => (and_iff_left ?_).symm
    exact fun heq => hcut heq.2

/-- **The dates that are left of a calendar** are all with which a period is complete:
`c ∈ rebalanceDates f low high` just when
`f.IsCadenceDate c ∧ Instant.day low ≤ Instant.day c ∧ Instant.day c ≤ Instant.day high`. -/
theorem mem_rebalanceDates : c ∈ rebalanceDates f low high ↔
    f.IsCadenceDate c ∧ Instant.day low ≤ Instant.day c ∧ Instant.day c ≤ Instant.day high := by
  by_cases hle : Instant.day low ≤ Instant.day high
  · rw [mem_rebalanceDates_iff_isDate hle]
    constructor
    · rintro ⟨d, rfl, hlow, hhigh, hdate⟩
      obtain ⟨hclose, hlatest⟩ := Frequency.isDate_and_not_cut_iff.1 hdate
      rw [Day.day_midnight]
      exact ⟨⟨d, rfl, Frequency.completes_iff_closes.2 hclose, hlatest⟩, hlow, hhigh⟩
    · rintro ⟨⟨d, rfl, hcomplete, hlatest⟩, hlow, hhigh⟩
      rw [Day.day_midnight] at hlow hhigh
      exact ⟨d, rfl, hlow, hhigh, Frequency.isDate_and_not_cut_iff.2
        ⟨Frequency.completes_iff_closes.1 hcomplete, hlatest⟩⟩
  · have hnone : rebalanceDates f low high = [] := by
      unfold rebalanceDates
      dsimp only
      rw [Schedule.dates_spanning_of_lt f (Int.not_le.1 hle), List.dropLast_nil, ite_self]
    rw [hnone]
    exact iff_of_false List.not_mem_nil fun h => hle (Int.le_trans h.2.1 h.2.2)

/-- A period is complete with a date when the date is in the calendar that ends with it, and does
not cut its period short there: `f.IsCadenceDate c` just when
`c ∈ (Schedule.spanning f c c).dates ∧ (Schedule.spanning f c c).endIncomplete = false`. -/
theorem Frequency.isCadenceDate_iff_mem_spanning :
    f.IsCadenceDate c ↔ c ∈ (Schedule.spanning f c c).dates ∧
      (Schedule.spanning f c c).endIncomplete = false := by
  have hle := Int.le_refl (Instant.day c)
  have hself : f.IsCadenceDate c ↔ c ∈ rebalanceDates f c c := by
    rw [mem_rebalanceDates]
    exact (and_iff_left ⟨hle, hle⟩).symm
  rw [hself, mem_rebalanceDates_iff_isDate hle, (Schedule.spanning_selects f hle).mem_iff,
    ← Bool.not_eq_true, Schedule.endIncomplete_spanning hle]
  constructor
  · rintro ⟨d, hd, hlow, hhigh, hdate, hnot⟩
    exact ⟨⟨d, hd, hlow, hhigh, hdate⟩, fun hcut => hnot ⟨Int.le_antisymm hhigh hlow, hcut⟩⟩
  · rintro ⟨⟨d, hd, hlow, hhigh, hdate⟩, hnot⟩
    exact ⟨d, hd, hlow, hhigh, hdate, fun hcut => hnot hcut.2⟩

/-! ## (2) The last date up to a time -/

section Dates

variable {dates : List Instant}

/-- The last of some dates is looked up like the last of points on them:
`((dates.takeWhile fun d => decide (d ≤ t)).getLast?.map fun d => (⟨d, ()⟩ : Point Unit))` is
`Points.asOf? (dates.map fun d => ⟨d, ()⟩) t`. -/
theorem getLast?_takeWhile_le (dates : List Instant) (t : Instant) :
    ((dates.takeWhile fun d => decide (d ≤ t)).getLast?.map fun d => (⟨d, ()⟩ : Point Unit)) =
      Points.asOf? (dates.map fun d => ⟨d, ()⟩) t := by
  rw [Points.asOf?, Points.upTo, List.takeWhile_map, List.getLast?_map]
  rfl

/-- The last of dates in order up to a time is the greatest one:
`IsGreatest {d | d ∈ dates ∧ d ≤ t} c`. -/
theorem isGreatest_of_getLast?_takeWhile (h : dates.Pairwise (· < ·))
    (hc : (dates.takeWhile fun d => decide (d ≤ t)).getLast? = some c) :
    IsGreatest {d | d ∈ dates ∧ d ≤ t} c := by
  have hasOf := getLast?_takeWhile_le dates t
  rw [hc, Option.map_some, eq_comm,
    (Points.increasing_map_dates (fun _ => ()) h).asOf?_eq_some_iff] at hasOf
  simp only [List.mem_map, Point.mk.injEq, and_true, exists_eq_right, forall_exists_index, and_imp,
    forall_apply_eq_imp_iff₂] at hasOf
  exact ⟨⟨hasOf.1, hasOf.2.1⟩, fun d hd => hasOf.2.2 d hd.1 hd.2⟩

/-- Where there is none, all dates come after the time: `∀ d ∈ dates, ¬d ≤ t`. -/
theorem not_le_of_getLast?_takeWhile (h : dates.Pairwise (· < ·))
    (hnone : (dates.takeWhile fun d => decide (d ≤ t)).getLast? = none) : ∀ d ∈ dates, ¬d ≤ t := by
  have hasOf := getLast?_takeWhile_le dates t
  rw [hnone, Option.map_none, eq_comm,
    (Points.increasing_map_dates (fun _ => ()) h).asOf?_eq_none_iff] at hasOf
  exact fun d hd => hasOf ⟨d, ()⟩ (List.mem_map_of_mem hd)

end Dates

/-! ## (3) What is held -/

namespace Series

variable {α : Type} {w : Series α} {d : Instant} {x y : α}

/-- What a weight is held at, at a time: what it carries to the last date up to the time with which
a period is complete; its first value, if there is no such date or the weight begins after it. -/
inductive HeldAt (f : Frequency) (w : Series α) (t : Instant) : α → Prop where
  | carried {c : Instant} {x : α} (latest : IsGreatest {c | f.IsCadenceDate c ∧ c ≤ t} c)
      (value : w.points.carried? c = some x) : HeldAt f w t x
  | first {p : Point α} (head : w.points.head? = some p)
      (none : ∀ c, IsGreatest {c | f.IsCadenceDate c ∧ c ≤ t} c → w.points.carried? c = none) :
      HeldAt f w t p.value

/-- `x = y`: a weight is held at one value. -/
theorem HeldAt.unique (hx : w.HeldAt f t x) (hy : w.HeldAt f t y) : x = y := by
  cases hx with
  | carried latest value =>
    cases hy with
    | carried latest' value' =>
      rw [latest.unique latest', value'] at value
      exact (Option.some.inj value).symm
    | first head none =>
      rw [none _ latest] at value
      cases value
  | first head none =>
    cases hy with
    | carried latest value =>
      rw [none _ latest] at value
      cases value
    | first head' none' =>
      rw [head] at head'
      rw [Option.some.inj head']

/-- **What is held does not depend on what is known later**: `w.HeldAt f t x`. -/
theorem HeldAt.of_cutAt (hw : w.Increasing) (ht : t ≤ d) (h : (w.cutAt d).HeldAt f t x) :
    w.HeldAt f t x := by
  have hpoints : (w.cutAt d).points = w.points.upTo d := Points.Increasing.filter_le_eq_upTo hw d
  have hcarried : ∀ c, c ≤ t → (w.cutAt d).points.carried? c = w.points.carried? c := by
    intro c hc
    rw [hpoints, Points.carried?_upTo (Int.le_trans hc ht)]
  cases h with
  | carried latest value => exact .carried latest (hcarried _ latest.1.2 ▸ value)
  | first head none =>
    refine .first ?_ fun c latest => (hcarried c latest.1.2).symm.trans (none c latest)
    rw [hpoints, Points.upTo, List.head?_takeWhile, Option.filter_eq_some_iff] at head
    exact head.1

/-- `w.points.carried? c = none`: nothing is carried to times before the first point. -/
theorem carried?_eq_none_of_lt_head (hw : w.Increasing) {first : Point α}
    (hfirst : w.points.head? = some first) (hc : c < first.time) : w.points.carried? c = none := by
  refine Points.carried?_eq_none fun p hp hpc => ?_
  obtain ⟨⟨first', hhead, hle⟩, -⟩ := Points.Increasing.bounds hw hp
  rw [hfirst] at hhead
  cases hhead
  exact Int.not_lt.2 (Int.le_trans hle hpc) hc

/-- `heldOn w first dates t`: what a weight is changed to at a time, given its first value and some
dates. -/
def heldOn (w : Series α) (first : α) (dates : List Instant) (t : Instant) : α :=
  match (dates.takeWhile fun d => decide (d ≤ t)).getLast? with
  | none => first
  | some d => (w.points.carried? d).getD first

/-- A date with which a period is complete, up to a time of the weight but not before the weight, is
left of the calendar: `c ∈ rebalanceDates f begins ends`. -/
theorem mem_rebalanceDates_of_le {begins ends c : Instant} (hc : f.IsCadenceDate c)
    (hbegins : Instant.day begins ≤ Instant.day c) (hends : c ≤ ends) :
    c ∈ rebalanceDates f begins ends :=
  mem_rebalanceDates.2 ⟨hc, hbegins, Int.ediv_le_ediv (by decide) hends⟩

/-- **A weight is changed to what it is held at**:
`w.HeldAt f p.time (w.heldOn first.value (rebalanceDates f first.time last.time) p.time)`. The
calendar begins with the day of the first point, and nothing is carried to dates before that. -/
theorem heldAt_heldOn (hw : w.Increasing) (f : Frequency) {first last p : Point α}
    (hfirst : w.points.head? = some first) (hlast : w.points.getLast? = some last)
    (hp : p ∈ w.points) :
    w.HeldAt f p.time
      (w.heldOn first.value (rebalanceDates f first.time last.time) p.time) := by
  have hpairwise := rebalanceDates_pairwise f first.time last.time
  have hend : p.time ≤ last.time := (hw.getLast?_eq_some_iff.1 hlast).2 p hp
  have hearlier : ∀ c, Instant.day c < Instant.day first.time → c < first.time := fun c hc =>
    Int.not_le.1 fun hle => Int.not_le.2 hc (Int.ediv_le_ediv (by decide) hle)
  unfold heldOn
  cases hlatest : ((rebalanceDates f first.time last.time).takeWhile
      fun d => decide (d ≤ p.time)).getLast? with
  | none =>
    refine .first hfirst fun c hc => carried?_eq_none_of_lt_head hw hfirst (hearlier c ?_)
    refine Int.not_le.1 fun hday => ?_
    have hmem := mem_rebalanceDates_of_le hc.1.1 hday (Int.le_trans hc.1.2 hend)
    exact not_le_of_getLast?_takeWhile hpairwise hlatest c hmem hc.1.2
  | some c =>
    have hgreatest := isGreatest_of_getLast?_takeWhile hpairwise hlatest
    obtain ⟨hcadence, hday, -⟩ := mem_rebalanceDates.1 hgreatest.1.1
    have hlatest : IsGreatest {c | f.IsCadenceDate c ∧ c ≤ p.time} c := by
      refine ⟨⟨hcadence, hgreatest.1.2⟩, fun c' hc' => Int.not_lt.1 fun hlt => ?_⟩
      -- a later date would be in the calendar as well
      have hday' := Int.le_trans hday (Int.ediv_le_ediv (by decide) (Int.le_of_lt hlt))
      have hmem := mem_rebalanceDates_of_le hc'.1 hday' (Int.le_trans hc'.2 hend)
      exact Int.not_le.2 hlt (hgreatest.2 ⟨hmem, hc'.2⟩)
    dsimp only
    cases hcarried : w.points.carried? c with
    | none =>
      refine .first hfirst fun c' hc' => ?_
      rw [hc'.unique hlatest]
      exact hcarried
    | some x => exact .carried hlatest hcarried

/-- What a weight is changed to: `w.rebalance f = { w with points := w.points.map fun p => ⟨p.time,
w.heldOn first.value (rebalanceDates f first.time last.time) p.time⟩ }`. -/
theorem rebalance_eq (hw : w.Increasing) (f : Frequency) {first last : Point α}
    (hfirst : w.points.head? = some first) (hlast : w.points.getLast? = some last) :
    w.rebalance f = { w with points := w.points.map fun p =>
      ⟨p.time, w.heldOn first.value (rebalanceDates f first.time last.time) p.time⟩ } := by
  rw [rebalance, hfirst, hlast]
  exact congrArg (fun points => ({ w with points } : Series α))
    (Points.ofWrites_of_increasing (List.pairwise_map.2 hw))

/-- **A weight keeps its dates**, with what it is held at: for some `held : Point α → α`,
`w.rebalance f = { w with points := w.points.map fun p => ⟨p.time, held p⟩ }` and
`∀ p ∈ w.points, w.HeldAt f p.time (held p)`. -/
theorem exists_rebalance_eq (hw : w.Increasing) (f : Frequency) :
    ∃ held : Point α → α,
      w.rebalance f = { w with points := w.points.map fun p => ⟨p.time, held p⟩ } ∧
        ∀ p ∈ w.points, w.HeldAt f p.time (held p) := by
  by_cases hnil : w.points = []
  · have hkept : w.rebalance f = w := by rw [rebalance, hnil, List.head?_nil]
    have hpoints : (w.points.map fun p => (⟨p.time, p.value⟩ : Point α)) = w.points := by
      rw [hnil, List.map_nil]
    refine ⟨Point.value, by rw [hkept, hpoints], fun p hp => ?_⟩
    rw [hnil] at hp
    cases hp
  · have hfirst := List.head?_eq_some_head hnil
    have hlast := List.getLast?_eq_some_getLast hnil
    exact ⟨_, rebalance_eq hw f hfirst hlast, fun p hp => heldAt_heldOn hw f hfirst hlast hp⟩

/-- **Holding a weight is causal**: `(∀ d, (w.cutAt d).rebalance f = (w.rebalance f).cutAt d)`,
`(w.rebalance f).points.times = w.points.times` and
`∀ q ∈ (w.rebalance f).points, w.HeldAt f q.time q.value`. What is known of the held weight at a
time is what the weight known at the time is held at; the held weight has the dates of the weight,
and its value at each of them is what the weight carries to the last date with which a period is
complete. -/
theorem rebalance_causal (hw : w.Increasing) (f : Frequency) :
    (∀ d, (w.cutAt d).rebalance f = (w.rebalance f).cutAt d) ∧
      (w.rebalance f).points.times = w.points.times ∧
      ∀ q ∈ (w.rebalance f).points, w.HeldAt f q.time q.value := by
  obtain ⟨held, hrebalance, hheld⟩ := exists_rebalance_eq hw f
  refine ⟨fun d => ?_, ?_, fun q hq => ?_⟩
  · obtain ⟨held', hcut, hheld'⟩ := exists_rebalance_eq (hw.cutAt d) f
    have hpoints : (w.cutAt d).points.map (fun p => (⟨p.time, held' p⟩ : Point α)) =
        (w.points.map fun p => (⟨p.time, held p⟩ : Point α)).filter
          fun p => decide (p.time ≤ d) := by
      rw [List.filter_map]
      refine List.map_congr_left fun p hp => ?_
      obtain ⟨hmem, hpd⟩ := List.mem_filter.1 hp
      -- both are what the whole weight is held at
      have hvalue := (hheld' p hp).of_cutAt hw (of_decide_eq_true hpd)
      rw [hvalue.unique (hheld p hmem)]
    rw [hcut, hrebalance, hpoints]
    rfl
  · rw [hrebalance]
    simp [Points.times, Function.comp_def]
  · rw [hrebalance] at hq
    obtain ⟨p, hp, rfl⟩ := List.mem_map.1 hq
    exact hheld p hp

/-- A weight that is written within months and at their ends. -/
def monthlyWrites : Series Rat :=
  ⟨.labelled "Weight", [⟨Day.midnight 19737, 2⟩, ⟨Day.midnight 19753, 3⟩, ⟨Day.midnight 19763, 4⟩,
    ⟨Day.midnight 19782, 5⟩, ⟨Day.midnight 19787, 6⟩], true⟩

/-- What is written within a month is not held; cut within February, the weight is held at what it
was at the end of January. -/
theorem rebalance_causal_monthlyWrites :
    monthlyWrites.Increasing ∧
      (monthlyWrites.rebalance .monthly).points.values = [2, 3, 3, 5, 5] ∧
      ((monthlyWrites.cutAt (Day.midnight 19770)).rebalance .monthly).points.values = [2, 3, 3] ∧
      (monthlyWrites.cutAt (Day.midnight 19770)).rebalance .monthly =
        (monthlyWrites.rebalance .monthly).cutAt (Day.midnight 19770) := by
  have hincreasing : monthlyWrites.Increasing := by decide
  refine ⟨hincreasing, ?_, ?_, (rebalance_causal hincreasing .monthly).1 (Day.midnight 19770)⟩
  · rw [rebalance_eq hincreasing .monthly rfl rfl]
    decide +kernel
  · rw [rebalance_eq (hincreasing.cutAt _) .monthly rfl rfl]
    decide +kernel

end Series

end PanelQuery
