import PanelQuery.Proofs.Series.OnDates
import PanelQuery.Proofs.Time.PeriodEnds

/-! # The dates of calendars

A day of a span is a date of its calendar when a period closes on it, and so may be the last day of
the span. Nothing else of the span plays a part. So the calendar of a shorter span, from one date to
another, has just the dates in between.

* **`Frequency.Closes`, `Frequency.Extends`** — days that close a period, and last days that are
  dates all the same;
* **`Schedule.spanning_selects`** — the dates of a calendar;
* **`Schedule.dates_spanning_of_mem`** — the calendar from one date to another;
* **`Frequency.Opens`, `Frequency.CutsAt`** — first days that open a period, and last days that cut
  one short;
* **`Schedule.isCut_spanning_of_mem`** — a date whose period is incomplete, on a shorter span. -/

namespace PanelQuery

/-! ## (1) Days of a span -/

namespace Day

/-- `Instant.day (midnight d) = d`: the day of the first instant of a day. -/
@[simp] theorem day_midnight (d : Day) : Instant.day (midnight d) = d :=
  Int.mul_ediv_cancel d (by decide)

/-- `midnight d < midnight d' ↔ d < d'`: days begin in their order. -/
theorem midnight_lt_iff {d d' : Day} : midnight d < midnight d' ↔ d < d' :=
  Int.mul_lt_mul_right (by decide)

/-- `midnight d ≤ midnight d' ↔ d ≤ d'`: days begin in their order. -/
theorem midnight_le_iff {d d' : Day} : midnight d ≤ midnight d' ↔ d ≤ d' :=
  Int.mul_le_mul_right (by decide)

end Day

/-- `d ∈ daysBetween first last ↔ first ≤ d ∧ d ≤ last ∧ d < Day.latest`: the days between two days
are known ones. -/
theorem mem_daysBetween {first last d : Day} :
    d ∈ daysBetween first last ↔ first ≤ d ∧ d ≤ last ∧ d < Day.latest := by
  unfold daysBetween
  rw [List.mem_map]
  constructor
  · rintro ⟨k, hk, rfl⟩
    have hlt := List.mem_range.1 hk
    lia
  · rintro ⟨hfirst, hlast, hlatest⟩
    exact ⟨(d - first).toNat, List.mem_range.2 (by lia), by lia⟩

/-- The days between two days are in order: `(daysBetween first last).Pairwise (· < ·)`. -/
theorem daysBetween_pairwise (first last : Day) : (daysBetween first last).Pairwise (· < ·) := by
  unfold daysBetween
  refine List.pairwise_map.2 (List.pairwise_lt_range.imp fun hlt => ?_)
  lia

/-! ## (2) Periods of months -/

namespace Day

/-- `periodEnd months d`: the last day of the period of some months that a day falls in. -/
def periodEnd (months : Nat) (d : Day) : Day :=
  Month.firstDay ((Day.month d / months + 1) * months) - 1

variable {months : Nat} (hmonths : 0 < months)
include hmonths

/-- `Month.firstDay (p * months) ≤ d ↔ p ≤ Day.month d / months`: the days from the first day of a
period on are those of that period and of later ones. -/
theorem firstDay_period_le_iff {p : Int} {d : Day} :
    Month.firstDay (p * months) ≤ d ↔ p ≤ Day.month d / months := by
  rw [Month.firstDay_le_iff, Int.le_ediv_iff_mul_le (by lia)]

/-- A day comes no later than its period ends: `d ≤ periodEnd months d`. -/
theorem le_periodEnd (d : Day) : d ≤ periodEnd months d := by
  unfold periodEnd
  have hlt : ¬Month.firstDay ((Day.month d / months + 1) * months) ≤ d := by
    rw [firstDay_period_le_iff hmonths]
    lia
  lia

/-- Later periods begin after earlier ones have ended: `periodEnd months d < d'`. -/
theorem periodEnd_lt_of_period_lt {d d' : Day} (h : Day.month d / months < Day.month d' / months) :
    periodEnd months d < d' := by
  have hle := (firstDay_period_le_iff hmonths).2 (Int.add_one_le_iff.2 h)
  unfold periodEnd
  lia

/-- `Day.month (Month.firstDay ((p + 1) * months) - 1) / months = p`: the last day of a period lies
in it. -/
theorem period_lastDay (p : Int) :
    Day.month (Month.firstDay ((p + 1) * months) - 1) / months = p := by
  have hle : p ≤ Day.month (Month.firstDay ((p + 1) * months) - 1) / months := by
    rw [← firstDay_period_le_iff hmonths]
    have hmono : p * months + 1 ≤ (p + 1) * months := by
      rw [Int.add_mul]
      lia
    have hlt := Month.firstDay_lt_succ (p * months)
    have hnext := Month.firstDay_mono hmono
    lia
  have hnot : ¬p + 1 ≤ Day.month (Month.firstDay ((p + 1) * months) - 1) / months := by
    rw [← firstDay_period_le_iff hmonths]
    lia
  lia

/-- The last day of a period is where it ends:
`periodEnd months (Month.firstDay ((p + 1) * months) - 1)` is
`Month.firstDay ((p + 1) * months) - 1`. -/
theorem periodEnd_lastDay (p : Int) :
    periodEnd months (Month.firstDay ((p + 1) * months) - 1) =
      Month.firstDay ((p + 1) * months) - 1 := by
  rw [periodEnd, period_lastDay hmonths]

end Day

/-! ## (3) The dates of a calendar -/

namespace Frequency

/-- A day that closes a period. On a daily calendar weekends are no periods. -/
def Closes : Frequency → Day → Prop
  | daily, d => Day.isWeekend d = false
  | weekly, d => Day.weekday d = 4
  | monthly, d => Day.periodEnd 1 d = d
  | quarterly, d => Day.periodEnd 3 d = d
  | yearly, d => Day.periodEnd 12 d = d

/-- A day that is a date at the end of a span, though it may close no period. -/
def Extends : Frequency → Day → Prop
  | daily, _ => False
  | weekly, d => Day.weekday d ≠ 4
  | monthly, d => Day.periodEnd 1 d < Day.latest
  | quarterly, d => Day.periodEnd 3 d < Day.latest
  | yearly, d => Day.periodEnd 12 d < Day.latest

/-- A day of a span that is a date of its calendar: it is known to close a period, or is the
last. -/
def IsDate (f : Frequency) (last d : Day) : Prop :=
  (f.Closes d ∧ d < Day.latest) ∨ (d = last ∧ f.Extends d)

end Frequency

namespace Schedule

/-- Dates that are the days of a span for which a condition holds, in order. -/
structure Selects (dates : List Instant) (first last : Day) (P : Day → Prop) : Prop where
  pairwise : dates.Pairwise (· < ·)
  mem_iff : ∀ t, t ∈ dates ↔ ∃ d, Day.midnight d = t ∧ first ≤ d ∧ d ≤ last ∧ P d

/-- Days in order begin in order: `Selects (days.map Day.midnight) first last P`. -/
theorem selects_map_midnight {days : List Day} (h : days.Pairwise (· < ·)) {first last : Day}
    {P : Day → Prop} (hmem : ∀ d, d ∈ days ↔ first ≤ d ∧ d ≤ last ∧ P d) :
    Selects (days.map Day.midnight) first last P where
  pairwise := List.pairwise_map.2 (h.imp Day.midnight_lt_iff.2)
  mem_iff t := by
    rw [List.mem_map]
    exact exists_congr fun d => by rw [hmem, and_comm]

variable {first last : Day}

/-- The dates of a daily calendar:
`Selects (daily first last).dates first last (Frequency.daily.IsDate last)`. -/
theorem daily_selects (first last : Day) :
    Selects (daily first last).dates first last (Frequency.daily.IsDate last) := by
  refine selects_map_midnight ((daysBetween_pairwise first last).filter _) fun d => ?_
  simp [mem_daysBetween, Frequency.IsDate, Frequency.Closes, Frequency.Extends]
  tauto

/-- The dates of a weekly calendar:
`Selects (weekly first last).dates first last (Frequency.weekly.IsDate last)`. -/
theorem weekly_selects (hle : first ≤ last) :
    Selects (weekly first last).dates first last (Frequency.weekly.IsDate last) := by
  have hfridays := (daysBetween_pairwise first last).filter fun d => Day.weekday d == 4
  unfold weekly
  dsimp only
  by_cases hlast : Day.weekday last = 4
  · rw [if_neg (by simpa using hlast)]
    refine selects_map_midnight hfridays fun d => ?_
    simp only [List.mem_filter, mem_daysBetween, beq_iff_eq, Frequency.IsDate, Frequency.Closes,
      Frequency.Extends]
    constructor
    · rintro ⟨⟨hfirst, hend, hlatest⟩, hday⟩
      exact ⟨hfirst, hend, .inl ⟨hday, hlatest⟩⟩
    · rintro ⟨hfirst, hend, ⟨hday, hlatest⟩ | ⟨rfl, hday⟩⟩
      · exact ⟨⟨hfirst, hend, hlatest⟩, hday⟩
      · exact absurd hlast hday
  · rw [if_pos (by simpa using hlast)]
    refine selects_map_midnight (List.pairwise_append.2 ⟨hfridays, List.pairwise_singleton _ _, ?_⟩)
      fun d => ?_
    · -- the last day is no Friday, and no Friday comes after it
      intro d hd d' hd'
      obtain ⟨hd, hday⟩ := List.mem_filter.1 hd
      obtain ⟨-, hend, -⟩ := mem_daysBetween.1 hd
      obtain rfl := List.mem_singleton.1 hd'
      refine Int.lt_iff_le_and_ne.2 ⟨hend, ?_⟩
      rintro rfl
      exact hlast (beq_iff_eq.1 hday)
    · simp only [List.mem_append, List.mem_filter, List.mem_singleton, mem_daysBetween, beq_iff_eq,
        Frequency.IsDate, Frequency.Closes, Frequency.Extends]
      constructor
      · rintro (⟨⟨hfirst, hend, hlatest⟩, hday⟩ | rfl)
        · exact ⟨hfirst, hend, .inl ⟨hday, hlatest⟩⟩
        · exact ⟨hle, Int.le_refl d, .inr ⟨rfl, hlast⟩⟩
      · rintro ⟨hfirst, hend, ⟨hday, hlatest⟩ | ⟨rfl, -⟩⟩
        · exact .inl ⟨⟨hfirst, hend, hlatest⟩, hday⟩
        · exact .inr rfl

/-- `wholePeriods months first last`: the periods that close between two days, before the period of
the later one. -/
def wholePeriods (months : Nat) (first last : Day) : List Day :=
  endsFrom months (Day.month first / months) last

section Periods

variable {months : Nat} (hmonths : 0 < months)
include hmonths

/-- Whole periods of a span close on known days of it, and the last day comes after them:
`d ∈ wholePeriods months first last` just when `first ≤ d`,
`Day.month d / months < Day.month last / months`, `Day.periodEnd months d = d` and
`d < Day.latest`. -/
theorem mem_wholePeriods {d : Day} :
    d ∈ wholePeriods months first last ↔
      first ≤ d ∧ Day.month d / months < Day.month last / months ∧ Day.periodEnd months d = d ∧
        d < Day.latest := by
  unfold wholePeriods endsFrom periodLast
  rw [List.mem_filter, List.mem_map, decide_eq_true_eq]
  constructor
  · rintro ⟨⟨k, hk, rfl⟩, hlatest⟩
    have hperiod := Day.period_lastDay hmonths (Day.month first / months + (k : Int))
    have hlt := List.mem_range.1 hk
    have hfirst := Day.le_periodEnd hmonths first
    refine ⟨?_, by lia, Day.periodEnd_lastDay hmonths _, hlatest⟩
    rcases Int.lt_or_eq_of_le (Int.le_add_of_nonneg_right (a := Day.month first / months)
      (Int.natCast_nonneg k)) with hlt | heq
    · have hbefore : Day.periodEnd months first <
          Month.firstDay ((Day.month first / months + (k : Int) + 1) * months) - 1 :=
        Day.periodEnd_lt_of_period_lt hmonths (by lia)
      exact Int.le_trans hfirst (Int.le_of_lt hbefore)
    · rw [← heq]
      exact hfirst
  · rintro ⟨hfirst, hlt, hclose, hlatest⟩
    have hperiod : Day.month first / months ≤ Day.month d / months :=
      Int.ediv_le_ediv (by lia) (Month.firstDay_le_iff.1
        (Int.le_trans (Day.firstDay_month_le first) hfirst))
    refine ⟨⟨(Day.month d / months - Day.month first / months).toNat,
      List.mem_range.2 (by lia), ?_⟩, hlatest⟩
    have hk : Day.month first / months +
        ((Day.month d / months - Day.month first / months).toNat : Int) = Day.month d / months := by
      lia
    rw [hk]
    exact hclose

/-- Whole periods close one after the other: `(wholePeriods months first last).Pairwise (· < ·)`. -/
theorem wholePeriods_pairwise (first last : Day) :
    (wholePeriods months first last).Pairwise (· < ·) := by
  unfold wholePeriods endsFrom periodLast
  refine (List.pairwise_map.2 (List.pairwise_lt_range.imp fun {k l} hlt => ?_)).filter _
  have hperiod := Day.period_lastDay hmonths (Day.month first / months + (k : Int))
  have hend := Day.periodEnd_lastDay hmonths (Day.month first / months + (k : Int))
  have hlater := Day.period_lastDay hmonths (Day.month first / months + (l : Int))
  rw [← hend]
  refine Day.periodEnd_lt_of_period_lt hmonths ?_
  lia

/-- `d ∈ wholePeriods months first last ∨ d = last`: a day of a span that closes a period closes a
whole one, or is the last day. -/
theorem mem_wholePeriods_or_eq {d : Day} (hfirst : first ≤ d) (hlast : d ≤ last)
    (hclose : Day.periodEnd months d = d) (hlatest : d < Day.latest) :
    d ∈ wholePeriods months first last ∨ d = last := by
  by_cases hlt : Day.month d / months < Day.month last / months
  · exact .inl ((mem_wholePeriods hmonths).2 ⟨hfirst, hlt, hclose, hlatest⟩)
  · -- the last day is in the same period, and does not come after its end
    have hmono : Day.month d / months ≤ Day.month last / months :=
      Int.ediv_le_ediv (by lia) (Month.firstDay_le_iff.1
        (Int.le_trans (Day.firstDay_month_le d) hlast))
    have hperiod : Day.month last / months = Day.month d / months := by lia
    have hend := Day.le_periodEnd hmonths last
    rw [Day.periodEnd, hperiod] at hend
    exact .inr (Int.le_antisymm hlast (Int.le_trans hend (Int.le_of_eq hclose)))

/-- The dates of a calendar of periods of some months. -/
theorem periods_selects (hyear : months ∣ 12) (hle : first ≤ last) :
    Selects (periods months hmonths first last).dates first last fun d =>
      (Day.periodEnd months d = d ∧ d < Day.latest) ∨
        (d = last ∧ Day.periodEnd months d < Day.latest) := by
  have hwhole := wholePeriods_pairwise hmonths first last
  have hbefore : ∀ d ∈ wholePeriods months first last, d < last := by
    intro d hd
    obtain ⟨-, hlt, hclose, -⟩ := (mem_wholePeriods hmonths).1 hd
    rw [← hclose]
    exact Day.periodEnd_lt_of_period_lt hmonths hlt
  have hdate : ∀ d ∈ wholePeriods months first last,
      first ≤ d ∧ d ≤ last ∧ Day.periodEnd months d = d ∧ d < Day.latest := by
    intro d hd
    obtain ⟨hfirst, -, hclose, hlatest⟩ := (mem_wholePeriods hmonths).1 hd
    exact ⟨hfirst, Int.le_of_lt (hbefore d hd), hclose, hlatest⟩
  by_cases hlast : Day.periodEnd months last < Day.latest
  · have hdates : (periods months hmonths first last).dates =
        (wholePeriods months first last ++ [last]).map Day.midnight := by
      rw [periods_eq hmonths hyear hle]
      exact congrArg (fun ends : List Day × Bool => ends.1.map Day.midnight) (if_pos hlast)
    rw [hdates]
    refine selects_map_midnight (List.pairwise_append.2 ⟨hwhole, List.pairwise_singleton _ _, ?_⟩)
      fun d => ?_
    · simpa using hbefore
    rw [List.mem_append, List.mem_singleton]
    constructor
    · rintro (hd | rfl)
      · obtain ⟨hfirst, hend, hclose, hlatest⟩ := hdate d hd
        exact ⟨hfirst, hend, .inl ⟨hclose, hlatest⟩⟩
      · exact ⟨hle, Int.le_refl d, .inr ⟨rfl, hlast⟩⟩
    · rintro ⟨hfirst, hend, ⟨hclose, hlatest⟩ | ⟨rfl, -⟩⟩
      · exact mem_wholePeriods_or_eq hmonths hfirst hend hclose hlatest
      · exact .inr rfl
  · -- the period of the last day is not known to end
    have hdates : (periods months hmonths first last).dates =
        (wholePeriods months first last).map Day.midnight := by
      rw [periods_eq hmonths hyear hle]
      exact congrArg (fun ends : List Day × Bool => ends.1.map Day.midnight) (if_neg hlast)
    rw [hdates]
    refine selects_map_midnight hwhole fun d => ?_
    constructor
    · intro hd
      obtain ⟨hfirst, hend, hclose, hlatest⟩ := hdate d hd
      exact ⟨hfirst, hend, .inl ⟨hclose, hlatest⟩⟩
    · rintro ⟨hfirst, hend, ⟨hclose, hlatest⟩ | ⟨rfl, hknown⟩⟩
      · refine (mem_wholePeriods_or_eq hmonths hfirst hend hclose hlatest).resolve_right ?_
        rintro rfl
        exact hlast (by rwa [hclose])
      · exact absurd hknown hlast

end Periods

/-- `(spanning f low high).dates = []`: the dates of a span whose last day comes before its
first. -/
theorem dates_spanning_of_lt (f : Frequency) {low high : Instant}
    (hlt : Instant.day high < Instant.day low) : (spanning f low high).dates = [] := by
  unfold spanning
  dsimp only
  rw [if_pos hlt]
  rfl

/-- **The dates of a calendar** are the days that close a period, and may be the last day: `Selects
(spanning f low high).dates (Instant.day low) (Instant.day high) (f.IsDate (Instant.day high))`. -/
theorem spanning_selects (f : Frequency) {low high : Instant}
    (hle : Instant.day low ≤ Instant.day high) :
    Selects (spanning f low high).dates (Instant.day low) (Instant.day high)
      (f.IsDate (Instant.day high)) := by
  unfold spanning
  dsimp only
  rw [if_neg (Int.not_lt.2 hle)]
  cases f with
  | daily => exact daily_selects _ _
  | weekly => exact weekly_selects hle
  | monthly => exact periods_selects Nat.one_pos (by decide) hle
  | quarterly => exact periods_selects quarter_pos (by decide) hle
  | yearly => exact periods_selects year_pos (by decide) hle

/-- **The dates of a calendar are in order**: `(spanning f low high).dates.Pairwise (· < ·)`. -/
theorem spanning_pairwise (f : Frequency) (low high : Instant) :
    (spanning f low high).dates.Pairwise (· < ·) := by
  by_cases hle : Instant.day low ≤ Instant.day high
  · exact (spanning_selects f hle).pairwise
  · rw [dates_spanning_of_lt f (Int.not_le.1 hle)]
    exact List.Pairwise.nil

/-- **The calendar from one date to another** has the dates in between:
`(spanning f begins ends).dates` is
`(spanning f low high).dates.filter fun t => decide (begins ≤ t) && decide (t ≤ ends)`. -/
theorem dates_spanning_of_mem (f : Frequency) {low high begins ends : Instant}
    (hbegins : begins ∈ (spanning f low high).dates) (hends : ends ∈ (spanning f low high).dates)
    (hle : begins ≤ ends) :
    (spanning f begins ends).dates =
      (spanning f low high).dates.filter fun t => decide (begins ≤ t) && decide (t ≤ ends) := by
  have hspan : Instant.day low ≤ Instant.day high := by
    refine Int.not_lt.1 fun hlt => ?_
    rw [dates_spanning_of_lt f hlt] at hbegins
    cases hbegins
  obtain ⟨hpairwise, hmem⟩ := spanning_selects f hspan
  obtain ⟨b, rfl, hlowb, hbhigh, -⟩ := (hmem _).1 hbegins
  obtain ⟨e, rfl, hlowe, hehigh, hdate⟩ := (hmem _).1 hends
  have hbe : b ≤ e := Day.midnight_le_iff.1 hle
  have hnarrow : Instant.day (Day.midnight b) ≤ Instant.day (Day.midnight e) := by
    rwa [Day.day_midnight, Day.day_midnight]
  have hshort := spanning_selects f hnarrow
  rw [Day.day_midnight, Day.day_midnight] at hshort
  refine pairwise_lt_ext hshort.pairwise (hpairwise.filter _) fun t => ?_
  rw [hshort.mem_iff, List.mem_filter, hmem, Bool.and_eq_true, decide_eq_true_eq, decide_eq_true_eq]
  constructor
  · rintro ⟨d, rfl, hbd, hde, hd⟩
    refine ⟨⟨d, rfl, Int.le_trans hlowb hbd, Int.le_trans hde hehigh, ?_⟩,
      Day.midnight_le_iff.2 hbd, Day.midnight_le_iff.2 hde⟩
    rcases hd with hclose | ⟨rfl, -⟩
    · exact .inl hclose
    · exact hdate
  · rintro ⟨⟨d, rfl, -, hdhigh, hd⟩, hbd, hde⟩
    have hde := Day.midnight_le_iff.1 hde
    refine ⟨d, rfl, Day.midnight_le_iff.1 hbd, hde, ?_⟩
    rcases hd with hclose | ⟨rfl, hext⟩
    · exact .inl hclose
    · exact .inr ⟨Int.le_antisymm hde hehigh, hext⟩

/-! ## (4) Incomplete periods -/

/-- `isCut s d`: whether the period of a date is incomplete. -/
def isCut (s : Schedule) (d : Instant) : Bool :=
  (s.beginIncomplete && s.dates.head? == some d) || (s.endIncomplete && s.dates.getLast? == some d)

section Dates

variable {dates : List Instant} {incomplete endIncomplete : Bool} {d : Instant}

/-- The first of dates in order has an incomplete period when the first period is incomplete, or the
last one is and there is no other: `isCut ⟨d :: dates, incomplete, endIncomplete⟩ d` is
`(incomplete || (dates.isEmpty && endIncomplete))`. -/
theorem isCut_head (hd : ∀ t ∈ dates, d < t) :
    isCut ⟨d :: dates, incomplete, endIncomplete⟩ d =
      (incomplete || (dates.isEmpty && endIncomplete)) := by
  unfold isCut
  cases dates with
  | nil => cases incomplete <;> simp
  | cons t dates =>
    have hlast : (t :: dates).getLast? ≠ some d := fun heq =>
      Int.lt_irrefl d (hd d (List.mem_of_getLast? heq))
    simp [hlast]

/-- Of a date `t` after the first one, `d`, nothing depends on that: the schedule `d :: dates` cuts
`t` just as `dates` does when its first period is complete. -/
theorem isCut_tail {t : Instant} (hd : d < t) (ht : t ∈ dates) :
    isCut ⟨d :: dates, incomplete, endIncomplete⟩ t = isCut ⟨dates, false, endIncomplete⟩ t := by
  unfold isCut
  cases dates with
  | nil => cases ht
  | cons u dates =>
    have hne : d ≠ t := Int.ne_of_lt hd
    simp [hne]

end Dates

end Schedule

namespace Frequency

/-- A day that opens a period. On a daily calendar no period is cut short. -/
def Opens : Frequency → Day → Prop
  | daily, _ => True
  | weekly, d => Day.weekday d = 5
  | monthly, d => Month.firstDay (Day.month d / 1 * 1) = d
  | quarterly, d => Month.firstDay (Day.month d / 3 * 3) = d
  | yearly, d => Month.firstDay (Day.month d / 12 * 12) = d

/-- A last day that cuts its period short. -/
def CutsAt : Frequency → Day → Prop
  | daily, _ => False
  | weekly, d => Day.weekday d ≠ 4
  | monthly, d => Day.periodEnd 1 d < Day.latest ∧ Day.periodEnd 1 d ≠ d
  | quarterly, d => Day.periodEnd 3 d < Day.latest ∧ Day.periodEnd 3 d ≠ d
  | yearly, d => Day.periodEnd 12 d < Day.latest ∧ Day.periodEnd 12 d ≠ d

variable {f : Frequency}

/-- A last day that cuts its period short is a date: `f.IsDate last last`. -/
theorem CutsAt.isDate {last : Day} (h : f.CutsAt last) : f.IsDate last last := by
  refine .inr ⟨rfl, ?_⟩
  cases f with
  | daily => exact h
  | weekly => exact h
  | monthly => exact h.1
  | quarterly => exact h.1
  | yearly => exact h.1

/-- `d < Day.latest ∨ (d = last ∧ f.CutsAt d)`: dates are known days, but for a last one that cuts
its period short. -/
theorem IsDate.lt_latest {last d : Day} (h : f.IsDate last d) :
    d < Day.latest ∨ (d = last ∧ f.CutsAt d) := by
  rcases h with ⟨-, hlatest⟩ | ⟨rfl, hext⟩
  · exact .inl hlatest
  · cases f with
    | daily => exact hext.elim
    | weekly => exact .inr ⟨rfl, hext⟩
    | monthly => exact .inl (Int.lt_of_le_of_lt (Day.le_periodEnd (by decide) d) hext)
    | quarterly => exact .inl (Int.lt_of_le_of_lt (Day.le_periodEnd (by decide) d) hext)
    | yearly => exact .inl (Int.lt_of_le_of_lt (Day.le_periodEnd (by decide) d) hext)

/-- `Day.periodEnd months (d - 1) = d - 1`: the day before a period of some months opens closes the
one before. -/
theorem periodEnd_pred {months : Nat} (hmonths : 0 < months) {d : Day}
    (h : Month.firstDay (Day.month d / months * months) = d) :
    Day.periodEnd months (d - 1) = d - 1 := by
  have hend := Day.periodEnd_lastDay hmonths (Day.month d / months - 1)
  have hstep : Day.month d / months - 1 + 1 = Day.month d / months := by lia
  rwa [hstep, h] at hend

/-- The day before a period opens closes the one before: `f.Closes (d - 1)`. -/
theorem Opens.closes_pred {d : Day} (h : f.Opens d) (hf : f ≠ daily) : f.Closes (d - 1) := by
  cases f with
  | daily => exact absurd rfl hf
  | weekly =>
    unfold Opens Day.weekday at h
    unfold Closes Day.weekday
    lia
  | monthly => exact periodEnd_pred (by decide) h
  | quarterly => exact periodEnd_pred (by decide) h
  | yearly => exact periodEnd_pred (by decide) h

end Frequency

namespace Schedule

variable {f : Frequency} {low high : Instant}

section Periods

variable {months : Nat} (hmonths : 0 < months) (hyear : months ∣ 12) {first last : Day}
  (hle : first ≤ last)
include hyear hle

/-- The last of periods of some months is incomplete when it is known to end after the last day:
`(periods months hmonths first last).endIncomplete = true` just when
`Day.periodEnd months last < Day.latest ∧ Day.periodEnd months last ≠ last`. -/
theorem endIncomplete_periods :
    (periods months hmonths first last).endIncomplete = true ↔
      Day.periodEnd months last < Day.latest ∧ Day.periodEnd months last ≠ last := by
  have hends : (periods months hmonths first last).endIncomplete =
      (endsAndCut months (Day.month first / months) last).2 :=
    congrArg Schedule.endIncomplete (periods_eq hmonths hyear hle)
  by_cases hknown : Day.periodEnd months last < Day.latest
  · have hcut : (endsAndCut months (Day.month first / months) last).2 =
        (Day.periodEnd months last != last) :=
      congrArg Prod.snd (if_pos hknown)
    rw [hends, hcut]
    simp [hknown]
  · have hcut : (endsAndCut months (Day.month first / months) last).2 = false :=
      congrArg Prod.snd (if_neg hknown)
    rw [hends, hcut]
    simp [hknown]

/-- The first of periods of some months is incomplete when it begins before the first day:
`(periods months hmonths first last).beginIncomplete = true` just when
`Month.firstDay (Day.month first / months * months) ≠ first`. -/
theorem beginIncomplete_periods :
    (periods months hmonths first last).beginIncomplete = true ↔
      Month.firstDay (Day.month first / months * months) ≠ first := by
  rw [periods_eq hmonths hyear hle, bne_iff_ne]

end Periods

/-- **The first period of a calendar is incomplete** when its first day opens none:
`(spanning f low high).beginIncomplete = true ↔ ¬f.Opens (Instant.day low)`. -/
theorem beginIncomplete_spanning (hle : Instant.day low ≤ Instant.day high) :
    (spanning f low high).beginIncomplete = true ↔ ¬f.Opens (Instant.day low) := by
  unfold spanning
  dsimp only
  rw [if_neg (Int.not_lt.2 hle)]
  cases f with
  | daily => simp [daily, Frequency.Opens]
  | weekly => simp [weekly, Frequency.Opens]
  | monthly => exact beginIncomplete_periods Nat.one_pos (by decide) hle
  | quarterly => exact beginIncomplete_periods quarter_pos (by decide) hle
  | yearly => exact beginIncomplete_periods year_pos (by decide) hle

/-- **The last period of a calendar is incomplete** when its last day cuts one short:
`(spanning f low high).endIncomplete = true ↔ f.CutsAt (Instant.day high)`. -/
theorem endIncomplete_spanning (hle : Instant.day low ≤ Instant.day high) :
    (spanning f low high).endIncomplete = true ↔ f.CutsAt (Instant.day high) := by
  unfold spanning
  dsimp only
  rw [if_neg (Int.not_lt.2 hle)]
  cases f with
  | daily => simp [daily, Frequency.CutsAt]
  | weekly => simp [weekly, Frequency.CutsAt]
  | monthly => exact endIncomplete_periods Nat.one_pos (by decide) hle
  | quarterly => exact endIncomplete_periods quarter_pos (by decide) hle
  | yearly => exact endIncomplete_periods year_pos (by decide) hle

/-- `ts.getLast? = some t`: a date from which on there is none is the last. -/
theorem getLast?_eq_some_of_forall_le {ts : List Instant} (h : ts.Pairwise (· < ·)) {t : Instant}
    (ht : t ∈ ts) (hle : ∀ u ∈ ts, u ≤ t) : ts.getLast? = some t := by
  have hne : ts ≠ [] := List.ne_nil_of_mem ht
  have hordered : ts.Pairwise (· ≤ ·) := h.imp Int.le_of_lt
  have hlast := hordered.rel_getLast_of_rel_getLast_getLast ht (Int.le_refl _)
  rw [List.getLast?_eq_some_getLast hne, Int.le_antisymm (hle _ (List.getLast_mem hne)) hlast]

/-- `ts.head? = some t`: a date before which there is none is the first. -/
theorem head?_eq_some_of_forall_le {ts : List Instant} (h : ts.Pairwise (· < ·)) {t : Instant}
    (ht : t ∈ ts) (hle : ∀ u ∈ ts, t ≤ u) : ts.head? = some t := by
  have hne : ts ≠ [] := List.ne_nil_of_mem ht
  have hordered : ts.Pairwise (· ≤ ·) := h.imp Int.le_of_lt
  have hhead := hordered.rel_head_of_rel_head_head ht (Int.le_refl _)
  rw [List.head?_eq_some_head hne, Int.le_antisymm hhead (hle _ (List.head_mem hne))]

/-- `(spanning f begins (Day.midnight d)).isCut (Day.midnight d) = true`: the last date of a span
that is cut short has an incomplete period. -/
theorem isCut_of_cutsAt {begins : Instant} {d : Day} (hle : begins ≤ Day.midnight d)
    (hd : Day.midnight d ∈ (spanning f begins (Day.midnight d)).dates) (hcut : f.CutsAt d) :
    (spanning f begins (Day.midnight d)).isCut (Day.midnight d) = true := by
  have hspan : Instant.day begins ≤ Instant.day (Day.midnight d) :=
    Int.ediv_le_ediv (by decide) hle
  have hdates := spanning_selects f hspan
  have hend := (endIncomplete_spanning (f := f) hspan).2 (by rwa [Day.day_midnight])
  have hlast := getLast?_eq_some_of_forall_le hdates.pairwise hd fun u hu => by
    obtain ⟨e, rfl, -, he, -⟩ := (hdates.mem_iff u).1 hu
    rw [Day.day_midnight] at he
    exact Day.midnight_le_iff.2 he
  unfold isCut
  simp [hend, hlast]

/-- No date comes before the first one: `t ≤ u`. -/
theorem le_of_head?_eq_some {ts : List Instant} (h : ts.Pairwise (· < ·)) {t u : Instant}
    (ht : ts.head? = some t) (hu : u ∈ ts) : t ≤ u := by
  obtain ⟨rest, rfl⟩ := List.head?_eq_some_iff.1 ht
  rcases List.mem_cons.1 hu with rfl | hu
  · exact Int.le_refl _
  · exact Int.le_of_lt ((List.pairwise_cons.1 h).1 u hu)

/-- No date comes after the last one: `u ≤ t`. -/
theorem le_of_getLast?_eq_some {ts : List Instant} (h : ts.Pairwise (· < ·)) {t u : Instant}
    (ht : ts.getLast? = some t) (hu : u ∈ ts) : u ≤ t := by
  obtain ⟨before, rfl⟩ := List.getLast?_eq_some_iff.1 ht
  rcases List.mem_append.1 hu with hu | hu
  · exact Int.le_of_lt ((List.pairwise_append.1 h).2.2 u hu t (List.mem_singleton_self t))
  · exact Int.le_of_eq (List.mem_singleton.1 hu)

/-- **A date with an incomplete period still has one** when the span is narrowed to dates of the
calendar: `(spanning f begins ends).isCut d = true`. -/
theorem isCut_spanning_of_mem {begins ends : Instant}
    (hbegins : begins ∈ (spanning f low high).dates) (hends : ends ∈ (spanning f low high).dates)
    (hle : begins ≤ ends) {d : Instant} (hd : d ∈ (spanning f begins ends).dates)
    (hcut : (spanning f low high).isCut d = true) : (spanning f begins ends).isCut d = true := by
  have hspan : Instant.day low ≤ Instant.day high := by
    refine Int.not_lt.1 fun hlt => ?_
    rw [dates_spanning_of_lt f hlt] at hbegins
    cases hbegins
  have hdates := spanning_selects f hspan
  have hnarrow := hd
  rw [dates_spanning_of_mem f hbegins hends hle, List.mem_filter, Bool.and_eq_true,
    decide_eq_true_eq, decide_eq_true_eq] at hnarrow
  obtain ⟨hmem, hbd, hde⟩ := hnarrow
  obtain ⟨c, rfl, hlow, hhigh, hdate⟩ := (hdates.mem_iff d).1 hmem
  obtain ⟨e, rfl, -, hehigh, -⟩ := (hdates.mem_iff ends).1 hends
  -- where the last day of the wide span is left, it is the last day of the narrow one
  have hatEnd : c = Instant.day high → f.CutsAt c →
      (spanning f begins (Day.midnight e)).isCut (Day.midnight c) = true := by
    intro hc hcuts
    have hec : e = c := Int.le_antisymm (hc ▸ hehigh) (Day.midnight_le_iff.1 hde)
    rw [hec] at hd ⊢
    exact isCut_of_cutsAt hbd hd hcuts
  rcases Bool.or_eq_true_iff.1 hcut with hfirst | hlast
  · obtain ⟨hbegin, hhead⟩ := Bool.and_eq_true_iff.1 hfirst
    have hleast : ∀ {u}, u ∈ (spanning f low high).dates → Day.midnight c ≤ u :=
      fun hu => le_of_head?_eq_some hdates.pairwise (eq_of_beq hhead) hu
    obtain rfl := Int.le_antisymm hbd (hleast hbegins)
    by_cases hopens : f.Opens c
    · -- the day before it is of the span, and closes a period
      have hlate := (beginIncomplete_spanning hspan).1 hbegin
      have hlt : Instant.day low < c :=
        Int.lt_iff_le_and_ne.2 ⟨hlow, fun heq => hlate (heq ▸ hopens)⟩
      have hweekly : f ≠ .daily := by
        rintro rfl
        exact hlate trivial
      rcases hdate.lt_latest with hlatest | ⟨hc, hcuts⟩
      · have hbefore := hleast ((hdates.mem_iff _).2 ⟨c - 1, rfl, Int.le_sub_one_of_lt hlt,
          Int.le_trans (Int.sub_le_self c (by decide)) hhigh,
          .inl ⟨hopens.closes_pred hweekly, by lia⟩⟩)
        have := Day.midnight_le_iff.1 hbefore
        lia
      · exact hatEnd hc hcuts
    · have hshort : Instant.day (Day.midnight c) ≤ Instant.day (Day.midnight e) := by
        rw [Day.day_midnight, Day.day_midnight]
        exact Day.midnight_le_iff.1 hle
      have hbegin := (beginIncomplete_spanning (f := f) hshort).2 (by rwa [Day.day_midnight])
      have hhead := head?_eq_some_of_forall_le (spanning_pairwise f _ _) hd fun u hu => by
        obtain ⟨c', rfl, hc', -⟩ := ((spanning_selects f hshort).mem_iff u).1 hu
        rw [Day.day_midnight] at hc'
        exact Day.midnight_le_iff.2 hc'
      unfold isCut
      simp [hbegin, hhead]
  · obtain ⟨hend, hlast⟩ := Bool.and_eq_true_iff.1 hlast
    have hcuts := (endIncomplete_spanning hspan).1 hend
    have hgreatest := le_of_getLast?_eq_some hdates.pairwise (eq_of_beq hlast)
      ((hdates.mem_iff _).2 ⟨Instant.day high, rfl, hspan, Int.le_refl _, hcuts.isDate⟩)
    have hc : c = Instant.day high := Int.le_antisymm hhigh (Day.midnight_le_iff.1 hgreatest)
    exact hatEnd hc (hc ▸ hcuts)

end Schedule

end PanelQuery
