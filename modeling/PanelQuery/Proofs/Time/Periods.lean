import PanelQuery.Proofs.Time.Calendar

/-! # Calendars cut a span at the ends of periods

Every day is in one period: its week, its month, its quarter or its year. A calendar has a date at
the end of each period of a span, and one on its last day. So the interval of a date, which goes
back to the date before it, has the days of one period. The last period of all is an exception: no
day is known to come after it, and the calendar of a span that ends in it lacks the last day.

* **`Frequency.period`** — the period of a day, and the days with which it begins and ends;
* **`Frequency.CountsMonths`** — what is common to the periods of some months;
* **`Frequency.Reaches`** — the last days that are dates of the calendar;
* **`Schedule.Holds`** — the times in the interval of a date;
* **`Schedule.DividesSpan`, `Schedule.spanning_dividesSpan`** — calendars with one interval for each
  period;
* **`Schedule.not_dividesSpan_lastMonth`** — the exception. -/

namespace PanelQuery

/-! ## (1) Periods -/

namespace Frequency

/-- The period that a day is in, counted from any one. Weeks run from Saturday to Friday. -/
def period : Frequency → Day → Int
  | daily, d => d
  | weekly, d => (d + 5) / 7
  | monthly, d => Day.month d
  | quarterly, d => Day.month d / 3
  | yearly, d => Day.month d / 12

/-- `IsPeriodEnd f d`: the day after is in another period. -/
def IsPeriodEnd (f : Frequency) (d : Day) : Prop := f.period (d + 1) ≠ f.period d

/-- `IsPeriodStart f d`: the day before is in another period. -/
def IsPeriodStart (f : Frequency) (d : Day) : Prop := f.period (d - 1) ≠ f.period d

instance (f : Frequency) (d : Day) : Decidable (f.IsPeriodEnd d) :=
  inferInstanceAs (Decidable (_ ≠ _))

instance (f : Frequency) (d : Day) : Decidable (f.IsPeriodStart d) :=
  inferInstanceAs (Decidable (_ ≠ _))

/-- The last day of the period that a day is in. -/
def lastDay : Frequency → Day → Day
  | daily, d => d
  | weekly, d => d + (4 - Day.weekday d) % 7
  | monthly, d => Day.periodEnd 1 d
  | quarterly, d => Day.periodEnd 3 d
  | yearly, d => Day.periodEnd 12 d

/-- `Ends f d`: the period of a day is known to end. -/
def Ends (f : Frequency) (d : Day) : Prop := ∃ c, d ≤ c ∧ c < Day.latest ∧ f.IsPeriodEnd c

/-- The last day of a span is a date of its calendar: of a daily one when it is a known day from
Monday to Friday, of a weekly one always, and else when its period is known to end. -/
def Reaches : Frequency → Day → Prop
  | daily, last => Day.weekday last < 5 ∧ last < Day.latest
  | weekly, _ => True
  | monthly, last => monthly.Ends last
  | quarterly, last => quarterly.Ends last
  | yearly, last => yearly.Ends last

/-- A frequency whose periods have some months, and what its calendars depend on. -/
structure CountsMonths (f : Frequency) (months : Nat) : Prop where
  pos : 0 < months
  period_eq : ∀ d, f.period d = Day.month d / months
  lastDay_eq : ∀ d, f.lastDay d = Day.periodEnd months d
  opens_iff : ∀ d, f.Opens d ↔ Month.firstDay (Day.month d / months * months) = d
  closes_iff : ∀ d, f.Closes d ↔ Day.periodEnd months d = d
  extends_iff : ∀ d, f.Extends d ↔ Day.periodEnd months d < Day.latest
  cutsAt_iff : ∀ d, f.CutsAt d ↔ Day.periodEnd months d < Day.latest ∧ Day.periodEnd months d ≠ d
  reaches_iff : ∀ d, f.Reaches d ↔ f.Ends d

/-- **The frequencies** are those of days and of weeks, and those of some months:
`f = daily ∨ f = weekly ∨ ∃ months, f.CountsMonths months`. -/
theorem eq_or_countsMonths (f : Frequency) :
    f = daily ∨ f = weekly ∨ ∃ months, f.CountsMonths months := by
  have hrefl : ∀ {P : Day → Prop} (d : Day), P d ↔ P d := fun _ => Iff.rfl
  cases f with
  | daily => exact .inl rfl
  | weekly => exact .inr (.inl rfl)
  | monthly => exact .inr (.inr ⟨1, by decide, fun d => (Int.ediv_one _).symm, fun _ => rfl, hrefl,
      hrefl, hrefl, hrefl, hrefl⟩)
  | quarterly => exact .inr (.inr ⟨3, by decide, fun _ => rfl, fun _ => rfl, hrefl, hrefl, hrefl,
      hrefl, hrefl⟩)
  | yearly => exact .inr (.inr ⟨12, by decide, fun _ => rfl, fun _ => rfl, hrefl, hrefl, hrefl,
      hrefl, hrefl⟩)

/-- How many months its periods have. -/
def months? : Frequency → Option Nat
  | daily => none
  | weekly => none
  | monthly => some 1
  | quarterly => some 3
  | yearly => some 12

end Frequency

/-! ## (2) Days of a period -/

namespace Day

variable {months : Nat} (hmonths : 0 < months) {d d' : Day}
include hmonths

/-- Later days are in no earlier periods of some months: `month d / months ≤ month d' / months`. -/
theorem month_ediv_mono (h : d ≤ d') : month d / months ≤ month d' / months :=
  Int.ediv_le_ediv (by lia) (Month.firstDay_le_iff.1 (Int.le_trans (firstDay_month_le d) h))

/-- `month (d + 1) / months ≠ month d / months ↔ periodEnd months d = d`: the last one of some
months is followed by others. -/
theorem month_succ_ne_iff :
    month (d + 1) / months ≠ month d / months ↔ periodEnd months d = d := by
  have hmono := month_ediv_mono hmonths (Int.le_add_of_nonneg_right (a := d) (b := 1) (by decide))
  have hend := le_periodEnd hmonths d
  have hnext := firstDay_period_le_iff hmonths (p := month d / months + 1) (d := d + 1)
  unfold periodEnd at hend ⊢
  lia

/-- Before the first one of some months there are others:
`month (d - 1) / months ≠ month d / months ↔ Month.firstDay (month d / months * months) = d`. -/
theorem month_pred_ne_iff :
    month (d - 1) / months ≠ month d / months ↔ Month.firstDay (month d / months * months) = d := by
  have hmono := month_ediv_mono hmonths (Int.sub_le_self d (b := 1) (by decide))
  have hfirst := firstDay_period_le_iff hmonths (p := month d / months) (d := d)
  have hbefore := firstDay_period_le_iff hmonths (p := month d / months) (d := d - 1)
  lia

end Day

namespace Frequency

variable {f : Frequency} {c d d' last : Day}

/-- Later days are in no earlier periods: `f.period d ≤ f.period d'`. -/
theorem period_mono (f : Frequency) (h : d ≤ d') : f.period d ≤ f.period d' := by
  rcases f.eq_or_countsMonths with rfl | rfl | ⟨months, hmonths⟩
  · exact h
  · exact Int.ediv_le_ediv (by decide) (Int.add_le_add_right h 5)
  · rw [hmonths.period_eq, hmonths.period_eq]
    exact Day.month_ediv_mono hmonths.pos h

/-- A period does not end before any of its days: `d ≤ f.lastDay d`. -/
theorem le_lastDay (f : Frequency) (d : Day) : d ≤ f.lastDay d := by
  rcases f.eq_or_countsMonths with rfl | rfl | ⟨months, hmonths⟩
  · exact Int.le_refl d
  · exact Int.le_add_of_nonneg_right (Int.emod_nonneg _ (by decide))
  · rw [hmonths.lastDay_eq]
    exact Day.le_periodEnd hmonths.pos d

/-- `f.period (f.lastDay d) = f.period d`: the last day of a period is one of its days. -/
theorem period_lastDay (f : Frequency) (d : Day) : f.period (f.lastDay d) = f.period d := by
  rcases f.eq_or_countsMonths with rfl | rfl | ⟨months, hmonths⟩
  · rfl
  · unfold period lastDay Day.weekday
    lia
  · rw [hmonths.lastDay_eq, hmonths.period_eq, hmonths.period_eq]
    exact Day.period_lastDay hmonths.pos _

/-- **A period ends on its last day**: `f.IsPeriodEnd d ↔ f.lastDay d = d`. -/
theorem isPeriodEnd_iff_lastDay : f.IsPeriodEnd d ↔ f.lastDay d = d := by
  unfold IsPeriodEnd
  rcases f.eq_or_countsMonths with rfl | rfl | ⟨months, hmonths⟩
  · exact iff_of_true (Int.ne_of_gt (Int.lt_add_one_of_le (Int.le_refl d))) rfl
  · unfold period lastDay Day.weekday
    lia
  · rw [hmonths.lastDay_eq, hmonths.period_eq, hmonths.period_eq]
    exact Day.month_succ_ne_iff hmonths.pos

/-- The last day of a period is its own last day: `f.IsPeriodEnd (f.lastDay d)`. -/
theorem isPeriodEnd_lastDay (f : Frequency) (d : Day) : f.IsPeriodEnd (f.lastDay d) := by
  rw [isPeriodEnd_iff_lastDay]
  rcases f.eq_or_countsMonths with rfl | rfl | ⟨months, hmonths⟩
  · rfl
  · unfold lastDay Day.weekday
    lia
  · rw [hmonths.lastDay_eq, hmonths.lastDay_eq]
    exact Day.periodEnd_lastDay hmonths.pos _

/-- Days between which a period ends are in different ones: `f.period d < f.period d'`. -/
theorem IsPeriodEnd.period_lt (hc : f.IsPeriodEnd c) (hdc : d ≤ c) (hcd : c < d') :
    f.period d < f.period d' := by
  have hbefore := f.period_mono hdc
  have hafter := f.period_mono (Int.add_one_le_of_lt hcd)
  have hstep := f.period_mono (Int.le_add_of_nonneg_right (a := c) (b := 1) (by decide))
  unfold IsPeriodEnd at hc
  lia

/-- From a day on, its period is the first one to end: `f.lastDay d ≤ c`. -/
theorem IsPeriodEnd.lastDay_le (hc : f.IsPeriodEnd c) (hdc : d ≤ c) : f.lastDay d ≤ c := by
  refine Int.not_lt.1 fun hlt => ?_
  have hperiod := hc.period_lt hdc hlt
  rw [period_lastDay] at hperiod
  exact Int.lt_irrefl _ hperiod

/-- `f.Ends d ↔ f.lastDay d < Day.latest`: a period is known to end when its last day is known. -/
theorem ends_iff_lastDay : f.Ends d ↔ f.lastDay d < Day.latest := by
  constructor
  · rintro ⟨c, hdc, hlatest, hc⟩
    exact Int.lt_of_le_of_lt (hc.lastDay_le hdc) hlatest
  · exact fun hlatest => ⟨f.lastDay d, f.le_lastDay d, hlatest, f.isPeriodEnd_lastDay d⟩

/-! ## (3) Dates of a calendar -/

/-- **Periods end on the days that close them**: `f.IsPeriodEnd d ↔ f.Closes d`. -/
theorem isPeriodEnd_iff_closes (hf : f ≠ daily) : f.IsPeriodEnd d ↔ f.Closes d := by
  rw [isPeriodEnd_iff_lastDay]
  rcases f.eq_or_countsMonths with rfl | rfl | ⟨months, hmonths⟩
  · exact absurd rfl hf
  · unfold lastDay Closes Day.weekday
    lia
  · rw [hmonths.lastDay_eq, hmonths.closes_iff]

/-- **Periods begin on the days that open them**: `f.IsPeriodStart d ↔ f.Opens d`. -/
theorem isPeriodStart_iff_opens (hf : f ≠ daily) : f.IsPeriodStart d ↔ f.Opens d := by
  unfold IsPeriodStart
  rcases f.eq_or_countsMonths with rfl | rfl | ⟨months, hmonths⟩
  · exact absurd rfl hf
  · unfold period Opens Day.weekday
    lia
  · rw [hmonths.period_eq, hmonths.period_eq, hmonths.opens_iff]
    exact Day.month_pred_ne_iff hmonths.pos

/-- `f.Extends d ↔ f.Reaches d`: in months, the last day of a span is a date when its period is
known to end. -/
theorem CountsMonths.extends_iff_reaches {months : Nat} (h : f.CountsMonths months) :
    f.Extends d ↔ f.Reaches d := by
  rw [h.extends_iff, h.reaches_iff, ends_iff_lastDay, h.lastDay_eq]

/-- **The dates of a daily calendar** are the known days from Monday to Friday:
`daily.IsDate last d ↔ Day.weekday d < 5 ∧ d < Day.latest`. -/
theorem isDate_daily_iff : daily.IsDate last d ↔ Day.weekday d < 5 ∧ d < Day.latest := by
  simp [IsDate, Closes, Extends, Day.isWeekend]

/-- `d < Day.latest`: the week of a Friday that can be named is known to end, the latest day is
none. -/
theorem lt_latest_of_weekday (hd : d ≤ Day.latest) (hfriday : Day.weekday d = 4) :
    d < Day.latest := by
  refine Int.lt_iff_le_and_ne.2 ⟨hd, ?_⟩
  rintro rfl
  exact absurd hfriday (by decide)

/-- **The dates of a calendar that reaches the last day** are the ends of periods, and that day:
`f.IsDate last d ↔ f.IsPeriodEnd d ∨ d = last`. -/
theorem isDate_iff (hf : f ≠ daily) (hlast : last ≤ Day.latest) (hreach : f.Reaches last)
    (hd : d ≤ last) : f.IsDate last d ↔ f.IsPeriodEnd d ∨ d = last := by
  rw [isPeriodEnd_iff_closes hf, IsDate]
  rcases f.eq_or_countsMonths with rfl | rfl | ⟨months, hmonths⟩
  · exact absurd rfl hf
  · have hfriday := lt_latest_of_weekday (Int.le_trans hd hlast)
    unfold Closes Extends
    constructor
    · exact Or.imp And.left And.left
    · rintro (hclose | rfl)
      · exact .inl ⟨hclose, hfriday hclose⟩
      · by_cases hclose : Day.weekday d = 4
        · exact .inl ⟨hclose, hfriday hclose⟩
        · exact .inr ⟨rfl, hclose⟩
  · -- the period of the last day ends on a known day, and so do earlier ones
    obtain ⟨c, hlc, hlatest, -⟩ := (hmonths.reaches_iff last).1 hreach
    have hknown : d < Day.latest := Int.lt_of_le_of_lt (Int.le_trans hd hlc) hlatest
    constructor
    · exact Or.imp And.left And.left
    · rintro (hclose | rfl)
      · exact .inl ⟨hclose, hknown⟩
      · exact .inr ⟨rfl, hmonths.extends_iff_reaches.2 hreach⟩

/-- **The dates of other calendars** are the known ends of periods:
`f.IsDate last d ↔ f.IsPeriodEnd d ∧ d < Day.latest`. -/
theorem isDate_iff_of_not_reaches (hf : f ≠ daily) (hreach : ¬f.Reaches last) :
    f.IsDate last d ↔ f.IsPeriodEnd d ∧ d < Day.latest := by
  rw [isPeriodEnd_iff_closes hf, IsDate]
  refine or_iff_left ?_
  rintro ⟨rfl, hext⟩
  rcases f.eq_or_countsMonths with rfl | rfl | ⟨months, hmonths⟩
  · exact hf rfl
  · exact hreach trivial
  · exact hreach (hmonths.extends_iff_reaches.1 hext)

/-- **A calendar has its last day as a date** just when it reaches it:
`f.IsDate last last ↔ f.Reaches last`. -/
theorem isDate_last_iff (hlast : last ≤ Day.latest) : f.IsDate last last ↔ f.Reaches last := by
  by_cases hf : f = daily
  · subst hf
    exact isDate_daily_iff
  by_cases hreach : f.Reaches last
  · exact iff_of_true ((isDate_iff hf hlast hreach (Int.le_refl last)).2 (.inr rfl)) hreach
  refine iff_of_false (fun hdate => hreach ?_) hreach
  obtain ⟨hend, hlatest⟩ := (isDate_iff_of_not_reaches hf hreach).1 hdate
  rcases f.eq_or_countsMonths with rfl | rfl | ⟨months, hmonths⟩
  · exact absurd rfl hf
  · trivial
  · exact (hmonths.reaches_iff last).2 ⟨last, Int.le_refl last, hlatest, hend⟩

/-- **A last day that a calendar reaches** cuts its period short unless the period ends on it:
`f.CutsAt last ↔ ¬f.IsPeriodEnd last`. -/
theorem cutsAt_iff (hf : f ≠ daily) (hreach : f.Reaches last) :
    f.CutsAt last ↔ ¬f.IsPeriodEnd last := by
  rw [isPeriodEnd_iff_closes hf]
  rcases f.eq_or_countsMonths with rfl | rfl | ⟨months, hmonths⟩
  · exact absurd rfl hf
  · exact Iff.rfl
  · rw [hmonths.cutsAt_iff, hmonths.closes_iff, and_iff_right]
    exact (hmonths.extends_iff last).1 (hmonths.extends_iff_reaches.2 hreach)

/-- A last day that a calendar does not reach cuts no period short: `¬f.CutsAt last`. -/
theorem not_cutsAt (hreach : ¬f.Reaches last) : ¬f.CutsAt last := by
  rcases f.eq_or_countsMonths with rfl | rfl | ⟨months, hmonths⟩
  · exact not_false
  · exact absurd trivial hreach
  · rw [hmonths.cutsAt_iff]
    exact fun hcut => hreach (hmonths.extends_iff_reaches.1 ((hmonths.extends_iff last).2 hcut.1))

end Frequency

/-! ## (4) Intervals -/

namespace Schedule

variable {s : Schedule} {d d' t : Instant}

/-- `Holds s d t`: the interval of a date, which begins after the date before it, has a time. -/
def Holds (s : Schedule) (d t : Instant) : Prop :=
  d ∈ s.dates ∧ t ≤ d ∧ ∀ c ∈ s.dates, c < d → c < t

/-- `d = d'`: no time is in two intervals. -/
theorem Holds.unique (h : s.Holds d t) (h' : s.Holds d' t) : d = d' := by
  obtain ⟨hd, htd, hbefore⟩ := h
  obtain ⟨hd', htd', hbefore'⟩ := h'
  have hnot := hbefore d' hd'
  have hnot' := hbefore' d hd
  lia

/-- **A time up to some date is in one interval**: `∃! d, s.Holds d t`. -/
theorem existsUnique_holds (hs : s.dates.Pairwise (· < ·)) (h : ∃ d ∈ s.dates, t ≤ d) :
    ∃! d, s.Holds d t := by
  obtain ⟨c, hc, htc⟩ := h
  have hsome : (s.dates.find? fun d => decide (t ≤ d)).isSome :=
    List.find?_isSome.2 ⟨c, hc, decide_eq_true htc⟩
  -- that of the first date from the time on
  obtain ⟨d, hd⟩ := Option.isSome_iff_exists.1 hsome
  obtain ⟨htd, before, after, hdates, hbefore⟩ := List.find?_eq_some_iff_append.1 hd
  have hholds : s.Holds d t := by
    refine ⟨List.mem_of_find?_eq_some hd, of_decide_eq_true htd, fun c hc hcd => ?_⟩
    rw [hdates] at hc hs
    obtain ⟨-, hafter, -⟩ := List.pairwise_append.1 hs
    rcases List.mem_append.1 hc with hc | hc
    · simpa using hbefore c hc
    · rcases List.mem_cons.1 hc with rfl | hc
      · exact absurd hcd (Int.lt_irrefl c)
      · exact absurd hcd (Int.lt_asymm ((List.pairwise_cons.1 hafter).1 c hc))
  exact ⟨d, hholds, fun d' hd' => hd'.unique hholds⟩

/-- The dates of a schedule divide the days of a span by their periods. -/
structure DividesSpan (s : Schedule) (f : Frequency) (first last : Day) : Prop where
  /-- The dates are midnights in order: the ends of periods, and the last day. -/
  selects : Selects s.dates first last fun d => f.IsPeriodEnd d ∨ d = last
  /-- Every day is in one interval. -/
  existsUnique : ∀ d, first ≤ d → d ≤ last → ∃! t, s.Holds t (Day.midnight d)
  /-- Days share an interval just when they are in one period. -/
  shared_iff : ∀ d d', first ≤ d → d ≤ last → first ≤ d' → d' ≤ last →
    ((∃ t, s.Holds t (Day.midnight d) ∧ s.Holds t (Day.midnight d')) ↔ f.period d = f.period d')
  beginIncomplete_iff : s.beginIncomplete = true ↔ ¬f.IsPeriodStart first
  endIncomplete_iff : s.endIncomplete = true ↔ ¬f.IsPeriodEnd last

section Spans

variable {f : Frequency} {first last a b : Day}

/-- `f.period a = f.period b`: a day that is in the interval of a date is up to it, in the same
period. -/
theorem period_eq_of_holds (hs : Selects s.dates first last fun d => f.IsPeriodEnd d ∨ d = last)
    (ha : first ≤ a) (hb : b ≤ last) (hab : a ≤ b) (h : s.Holds t (Day.midnight a))
    (h' : s.Holds t (Day.midnight b)) : f.period a = f.period b := by
  by_contra hne
  -- otherwise the period of the earlier day would end at a date between them
  have hend : f.lastDay a < b := by
    refine Int.not_le.1 fun hle => hne (Int.le_antisymm (f.period_mono hab) ?_)
    rw [← f.period_lastDay a]
    exact f.period_mono hle
  have hdate : Day.midnight (f.lastDay a) ∈ s.dates :=
    (hs.mem_iff _).2 ⟨f.lastDay a, rfl, Int.le_trans ha (f.le_lastDay a),
      Int.le_trans (Int.le_of_lt hend) hb, .inl (f.isPeriodEnd_lastDay a)⟩
  have hlt := h.2.2 _ hdate (Int.lt_of_lt_of_le (Day.midnight_lt_iff.2 hend) h'.2.1)
  exact Int.not_lt.2 (f.le_lastDay a) (Day.midnight_lt_iff.1 hlt)

/-- The interval of a day has all days of the span that are in the same period:
`s.Holds t (Day.midnight b)`. -/
theorem holds_of_period_eq (hs : Selects s.dates first last fun d => f.IsPeriodEnd d ∨ d = last)
    (hb : b ≤ last) (hperiod : f.period a = f.period b) (h : s.Holds t (Day.midnight a)) :
    s.Holds t (Day.midnight b) := by
  obtain ⟨hdate, hle, hbefore⟩ := h
  obtain ⟨c, rfl, -, hc, hend⟩ := (hs.mem_iff t).1 hdate
  have hac := Day.midnight_le_iff.1 hle
  refine ⟨hdate, Day.midnight_le_iff.2 (Int.not_lt.1 fun hcb => ?_), fun u hu huc => ?_⟩
  · rcases hend with hend | rfl
    · exact Int.ne_of_lt (hend.period_lt hac hcb) hperiod
    · exact Int.not_lt.2 hb hcb
  · obtain ⟨e, rfl, -, -, hend⟩ := (hs.mem_iff u).1 hu
    have hea := Day.midnight_lt_iff.1 (hbefore _ hu huc)
    refine Day.midnight_lt_iff.2 (Int.not_le.1 fun hbe => ?_)
    rcases hend with hend | rfl
    · exact Int.ne_of_gt (hend.period_lt hbe hea) hperiod
    · exact Int.not_lt.2 hc (Day.midnight_lt_iff.1 huc)

/-- **Days share an interval just when they are in one period**, where the dates are the ends of
periods and the last day:
`(∃ t, s.Holds t (Day.midnight a) ∧ s.Holds t (Day.midnight b)) ↔ f.period a = f.period b`. -/
theorem exists_holds_iff (hs : Selects s.dates first last fun d => f.IsPeriodEnd d ∨ d = last)
    (ha : first ≤ a) (halast : a ≤ last) (hb : first ≤ b) (hblast : b ≤ last) :
    (∃ t, s.Holds t (Day.midnight a) ∧ s.Holds t (Day.midnight b)) ↔ f.period a = f.period b := by
  constructor
  · rintro ⟨t, h, h'⟩
    rcases Int.le_total a b with hab | hba
    · exact period_eq_of_holds hs ha hblast hab h h'
    · exact (period_eq_of_holds hs hb halast hba h' h).symm
  · intro hperiod
    have hlast : Day.midnight last ∈ s.dates :=
      (hs.mem_iff _).2 ⟨last, rfl, Int.le_trans ha halast, Int.le_refl last, .inr rfl⟩
    obtain ⟨t, h, -⟩ := existsUnique_holds hs.pairwise ⟨_, hlast, Day.midnight_le_iff.2 halast⟩
    exact ⟨t, h, holds_of_period_eq hs hblast hperiod h⟩

/-- Dates that are the same days of a span: `Selects dates first last Q`. -/
theorem Selects.congr {dates : List Instant} {P Q : Day → Prop} (h : Selects dates first last P)
    (hPQ : ∀ d, d ≤ last → (P d ↔ Q d)) : Selects dates first last Q where
  pairwise := h.pairwise
  mem_iff t := by
    rw [h.mem_iff]
    exact exists_congr fun d => and_congr_right fun _ => and_congr_right fun _ =>
      and_congr_right fun hd => hPQ d hd

end Spans

variable {low high : Instant}

/-- **A calendar that reaches the last day** divides the span by periods:
`(spanning f low high).DividesSpan f (Instant.day low) (Instant.day high)`. -/
theorem dividesSpan_of_reaches {f : Frequency} (hf : f ≠ .daily)
    (hle : Instant.day low ≤ Instant.day high) (hlatest : Instant.day high ≤ Day.latest)
    (hreach : f.Reaches (Instant.day high)) :
    (spanning f low high).DividesSpan f (Instant.day low) (Instant.day high) := by
  have hselects := (spanning_selects f hle).congr fun d hd =>
    Frequency.isDate_iff hf hlatest hreach hd
  have hlast : Day.midnight (Instant.day high) ∈ (spanning f low high).dates :=
    (hselects.mem_iff _).2 ⟨_, rfl, hle, Int.le_refl _, .inr rfl⟩
  exact {
    selects := hselects
    existsUnique := fun d _ hd =>
      existsUnique_holds hselects.pairwise ⟨_, hlast, Day.midnight_le_iff.2 hd⟩
    shared_iff := fun _ _ ha ha' hb hb' => exists_holds_iff hselects ha ha' hb hb'
    beginIncomplete_iff := by
      rw [beginIncomplete_spanning hle, Frequency.isPeriodStart_iff_opens hf]
    endIncomplete_iff := by rw [endIncomplete_spanning hle, Frequency.cutsAt_iff hf hreach] }

/-- **The loop over periods ends** with the dates of a calendar of some months. -/
theorem exists_loopEnds {f : Frequency} (hle : Instant.day low ≤ Instant.day high) {months : Nat}
    (hmonths : f.months? = some months) :
    ∃ ends cut, LoopEnds months (periodStart months (Instant.day low)) (Instant.day high)
        (months - 1) (ends, cut) ∧
      (spanning f low high).dates = ends.map Day.midnight ∧
      (spanning f low high).endIncomplete = cut := by
  unfold spanning
  dsimp only
  rw [if_neg (Int.not_lt.2 hle)]
  cases f with
  | daily => cases hmonths
  | weekly => cases hmonths
  | monthly =>
    cases hmonths
    exact ⟨_, _, loopEnds_periodEnds _ _ _ _, rfl, rfl⟩
  | quarterly =>
    cases hmonths
    exact ⟨_, _, loopEnds_periodEnds _ _ _ _, rfl, rfl⟩
  | yearly =>
    cases hmonths
    exact ⟨_, _, loopEnds_periodEnds _ _ _ _, rfl, rfl⟩

/-- **Calendars cut a span at the ends of its periods.** Those of weeks, months, quarters and years
divide the days of the span, where the period of the last day is known to end; in the last period of
all, only the ends of periods are left, and the last one does not count as incomplete. A daily
calendar has the known days from Monday to Friday. The loop over the periods of some months ends. -/
theorem spanning_dividesSpan (f : Frequency) (hle : Instant.day low ≤ Instant.day high)
    (hlatest : Instant.day high ≤ Day.latest) :
    (f ≠ .daily → f.Reaches (Instant.day high) →
      (spanning f low high).DividesSpan f (Instant.day low) (Instant.day high)) ∧
    (f ≠ .daily → ¬f.Reaches (Instant.day high) →
      Selects (spanning f low high).dates (Instant.day low) (Instant.day high)
        (fun d => f.IsPeriodEnd d ∧ d < Day.latest) ∧
      ((spanning f low high).beginIncomplete = true ↔ ¬f.IsPeriodStart (Instant.day low)) ∧
      (spanning f low high).endIncomplete = false) ∧
    (f = .daily → Selects (spanning f low high).dates (Instant.day low) (Instant.day high)
      fun d => Day.weekday d < 5 ∧ d < Day.latest) ∧
    ∀ months, f.months? = some months →
      ∃ ends cut, LoopEnds months (periodStart months (Instant.day low)) (Instant.day high)
          (months - 1) (ends, cut) ∧
        (spanning f low high).dates = ends.map Day.midnight ∧
        (spanning f low high).endIncomplete = cut := by
  have hselects := spanning_selects f hle
  refine ⟨fun hf => dividesSpan_of_reaches hf hle hlatest, fun hf hreach => ⟨?_, ?_, ?_⟩, ?_,
    fun _ => exists_loopEnds hle⟩
  · exact hselects.congr fun d _ => Frequency.isDate_iff_of_not_reaches hf hreach
  · rw [beginIncomplete_spanning hle, Frequency.isPeriodStart_iff_opens hf]
  · rw [← Bool.not_eq_true, endIncomplete_spanning hle]
    exact Frequency.not_cutsAt hreach
  · rintro rfl
    exact hselects.congr fun d _ => Frequency.isDate_daily_iff

/-- Quarters from a day in November 2019 to the leap day after it: the first one ends with the year,
and both are incomplete. -/
theorem spanning_dividesSpan_leapDay :
    Instant.day (Day.midnight 18220 + 1) ≤ Instant.day (Day.midnight 18321 + 1) ∧
      Instant.day (Day.midnight 18321 + 1) ≤ Day.latest ∧
      spanning .quarterly (Day.midnight 18220 + 1) (Day.midnight 18321 + 1) =
        ⟨[Day.midnight 18261, Day.midnight 18321], true, true⟩ ∧
      (spanning .quarterly (Day.midnight 18220 + 1) (Day.midnight 18321 + 1)).DividesSpan .quarterly
        18220 18321 := by
  have hle : Instant.day (Day.midnight 18220 + 1) ≤ Instant.day (Day.midnight 18321 + 1) := by
    decide
  have hlatest : Instant.day (Day.midnight 18321 + 1) ≤ Day.latest := by decide
  have hreach : Frequency.quarterly.Reaches (Instant.day (Day.midnight 18321 + 1)) :=
    ⟨18352, by decide, by decide, by decide⟩
  exact ⟨hle, hlatest, by decide +kernel,
    (spanning_dividesSpan .quarterly hle hlatest).1 (by decide) hreach⟩

/-- **A span without dates.** Of the last month that days can name no end is known, since there is
no day after it. So half of the month has no date, not even its last day. -/
theorem not_dividesSpan_lastMonth :
    ¬(spanning .monthly (Day.midnight (Day.latest - 30))
        (Day.midnight (Day.latest - 16))).DividesSpan .monthly (Day.latest - 30)
          (Day.latest - 16) := by
  intro hdivides
  have hdates : (spanning .monthly (Day.midnight (Day.latest - 30))
      (Day.midnight (Day.latest - 16))).dates = [] := by decide +kernel
  have hlast := (hdivides.selects.mem_iff (Day.midnight (Day.latest - 16))).2
    ⟨_, rfl, by decide, Int.le_refl _, .inr rfl⟩
  rw [hdates] at hlast
  cases hlast

end Schedule

end PanelQuery
