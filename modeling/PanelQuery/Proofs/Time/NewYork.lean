import Mathlib.Order.Bounds.Basic
import PanelQuery.Proofs.Time.Periods
import PanelQuery.Time.NewYork

/-! # Market days keep the order of time

An event counts for a day of New York, which is five hours behind UTC, or four in daylight time, and
the day ends when the market closes. All that matters of daylight time is the time of day at which
it begins and ends: six and seven o'clock of UTC, when no market day ends.

* **`firstDay_le_daylightBegins`, `daylightEnds_lt_firstDay`** — daylight time begins and ends in
  its year;
* **`NewYorkRule`, `newYorkOffset_rule`** — what a clock of New York does;
* **`bucketIn`** — the market day of an event by the clock of a zone alone;
* **`NewYorkRule.bucketIn_eq`, `NewYorkRule.bucketIn_mono`** — market days by UTC, in order;
* **`snapToMarket?_eq_some_iff`** — the least market date from a market day on;
* **`MarketDays`, `marketDays`** — the market days of events, and the market dates. -/

namespace PanelQuery

/-! ## (1) Daylight time -/

/-- A Sunday is at most six days ahead: `d ≤ sundayFrom d ∧ sundayFrom d ≤ d + 6`. -/
theorem sundayFrom_bounds (d : Day) : d ≤ sundayFrom d ∧ sundayFrom d ≤ d + 6 := by
  unfold sundayFrom Day.weekday
  lia

/-- A Sunday is at most six days back: `d - 6 ≤ sundayUpTo d ∧ sundayUpTo d ≤ d`. -/
theorem sundayUpTo_bounds (d : Day) : d - 6 ≤ sundayUpTo d ∧ sundayUpTo d ≤ d := by
  unfold sundayUpTo Day.weekday
  lia

namespace Month

/-- The first day of a month from March on: `firstDay (ofYear year month)` is
`marchYearStart year + marchMonthStart (month - 3) - epochOffset`. -/
theorem firstDay_ofYear (year month : Int) (hmonth : 3 ≤ month) (hlt : month ≤ 12) :
    firstDay (ofYear year month) =
      marchYearStart year + marchMonthStart (month - 3) - epochOffset := by
  have hsplit : ofYear year month = 12 * year + (month - 3) + 2 := by
    unfold ofYear
    lia
  rw [hsplit, firstDay_eq year (by lia) (by lia)]

/-- `lastDay (ofYear year month) = firstDay (ofYear year (month + 1)) - 1`: a month ends when the
next one begins. -/
theorem lastDay_ofYear (year month : Int) :
    lastDay (ofYear year month) = firstDay (ofYear year (month + 1)) - 1 := by
  have hnext : ofYear year month + 1 = ofYear year (month + 1) := by
    unfold ofYear
    lia
  rw [lastDay, hnext]

/-- `firstDay ((year + 1) * 12) = marchYearStart year + 306 - epochOffset`: the first day of the
next year. -/
theorem firstDay_nextYear (year : Int) :
    firstDay ((year + 1) * 12) = marchYearStart year + 306 - epochOffset := by
  have hsplit : (year + 1) * 12 = 12 * year + 10 + 2 := by lia
  rw [hsplit, firstDay_eq year (by decide) (by decide)]
  rfl

/-- A year begins at least 59 days before March:
`firstDay (year * 12) + 59 ≤ marchYearStart year - epochOffset`. -/
theorem firstDay_year_le (year : Int) :
    firstDay (year * 12) + 59 ≤ marchYearStart year - epochOffset := by
  have hfirst := firstDay_nextYear (year - 1)
  have hyear := (marchYearStart_lt_succ (year - 1)).1
  rw [Int.sub_add_cancel] at hfirst hyear
  lia

end Month

/-- **Daylight time begins in its year**: `Month.firstDay (year * 12) ≤ daylightBegins year`. -/
theorem firstDay_le_daylightBegins (year : Int) :
    Month.firstDay (year * 12) ≤ daylightBegins year := by
  have hfirst := Month.firstDay_year_le year
  have hmarch := Month.firstDay_ofYear year 3 (by decide) (by decide)
  have hapril := Month.firstDay_ofYear year 4 (by decide) (by decide)
  have hmay := Month.firstDay_ofYear year 5 (by decide) (by decide)
  have hfebruary := Month.lastDay_ofYear year 2
  have haprilEnd := Month.lastDay_ofYear year 4
  have hjanuary : Month.ofYear year 1 = year * 12 := by
    unfold Month.ofYear
    lia
  unfold marchMonthStart at hmarch hapril hmay
  unfold daylightBegins
  split
  · have hsunday := sundayFrom_bounds (Month.firstDay (Month.ofYear year 3) + 7)
    lia
  split
  · have hsunday := sundayFrom_bounds (Month.firstDay (Month.ofYear year 4))
    lia
  split
  · rw [hjanuary]
    lia
  split
  · have hsunday := sundayUpTo_bounds (Month.lastDay (Month.ofYear year 2))
    lia
  · have hsunday := sundayUpTo_bounds (Month.lastDay (Month.ofYear year 4))
    lia

/-- **Daylight time ends in its year**: `daylightEnds year < Month.firstDay ((year + 1) * 12)`. -/
theorem daylightEnds_lt_firstDay (year : Int) :
    daylightEnds year < Month.firstDay ((year + 1) * 12) := by
  have hnext := Month.firstDay_nextYear year
  have hnovember := Month.firstDay_ofYear year 11 (by decide) (by decide)
  have hoctober := Month.lastDay_ofYear year 10
  unfold marchMonthStart at hnovember
  unfold daylightEnds
  split
  · have hsunday := sundayFrom_bounds (Month.firstDay (Month.ofYear year 11))
    lia
  · have hsunday := sundayUpTo_bounds (Month.lastDay (Month.ofYear year 10))
    lia

/-! ## (2) Clocks of New York -/

/-- A clock of New York is five hours behind UTC, or four in daylight time, and it is changed to and
from daylight time when it shows two o'clock. -/
structure NewYorkRule (offset : Instant → Int) : Prop where
  standard_or_daylight : ∀ t, offset t = 5 ∨ offset t = 4
  /-- By the hours before a change, it would be two o'clock. -/
  switches : ∀ t, offset (t + 1) ≠ offset t →
    Instant.timeOfDay (t + 1 - offset t * nanosPerHour) = 2 * nanosPerHour

/-- `newYorkOffset t = 5`: a year begins in standard time. -/
theorem newYorkOffset_of_year_pred {t : Instant}
    (h : Day.month (Instant.day t - 1) / 12 ≠ Day.month (Instant.day t) / 12)
    (ht : Instant.timeOfDay t = 0) : newYorkOffset t = 5 := by
  have hfirst := (Day.month_pred_ne_iff (show 0 < 12 by decide)).1 h
  have hbegins := firstDay_le_daylightBegins (Day.month (Instant.day t) / 12)
  have hlt : t < Day.midnight (daylightBegins (Day.month (Instant.day t) / 12)) +
      7 * nanosPerHour := by
    unfold Instant.day Instant.timeOfDay Day.midnight nanosPerHour nanosPerDay nanosPerSecond at *
    lia
  exact if_neg fun hdaylight => Int.not_lt.2 hdaylight.1 hlt

/-- `newYorkOffset t = 5`: a year ends in standard time. -/
theorem newYorkOffset_of_year_succ {t : Instant}
    (h : Day.month (Instant.day t + 1) / 12 ≠ Day.month (Instant.day t) / 12)
    (ht : Instant.timeOfDay (t + 1) = 0) : newYorkOffset t = 5 := by
  have hlast := (Day.month_succ_ne_iff (show 0 < 12 by decide)).1 h
  have hends := daylightEnds_lt_firstDay (Day.month (Instant.day t) / 12)
  have hle : Day.midnight (daylightEnds (Day.month (Instant.day t) / 12)) + 6 * nanosPerHour ≤
      t := by
    unfold Day.periodEnd at hlast
    unfold Instant.day Instant.timeOfDay Day.midnight nanosPerHour nanosPerDay nanosPerSecond at *
    lia
  exact if_neg fun hdaylight => Int.not_lt.2 hle hdaylight.2

/-- **The clocks of New York** are changed at two o'clock: `NewYorkRule newYorkOffset`. -/
theorem newYorkOffset_rule : NewYorkRule newYorkOffset where
  standard_or_daylight t := by
    unfold newYorkOffset
    dsimp only
    split
    · exact .inr rfl
    · exact .inl rfl
  switches t hne := by
    by_cases hyear : Day.month (Instant.day (t + 1)) / 12 = Day.month (Instant.day t) / 12
    · -- within a year, they are changed where daylight time begins and where it ends
      unfold newYorkOffset Day.civil at hne ⊢
      dsimp only at hne ⊢
      rw [hyear] at hne
      generalize daylightBegins (Day.month (Instant.day t) / 12) = begins at hne ⊢
      generalize daylightEnds (Day.month (Instant.day t) / 12) = ends at hne ⊢
      unfold Instant.timeOfDay Day.midnight nanosPerHour nanosPerDay nanosPerSecond at *
      split at hne <;> split at hne <;> lia
    · -- the years change between the two instants
      have hday : Instant.day (t + 1) = Instant.day t + 1 ∧ Instant.timeOfDay (t + 1) = 0 := by
        have hne : Instant.day (t + 1) ≠ Instant.day t := fun heq => hyear (by rw [heq])
        unfold Instant.day Instant.timeOfDay nanosPerDay nanosPerSecond at *
        lia
      obtain ⟨hday, hmidnight⟩ := hday
      have hbefore := newYorkOffset_of_year_succ (hday ▸ hyear) hmidnight
      have hbehind : newYorkOffset (t + 1) = 5 := by
        refine newYorkOffset_of_year_pred ?_ hmidnight
        rw [hday, Int.add_sub_cancel, ← hday]
        exact Ne.symm hyear
      exact absurd (hbehind.trans hbefore.symm) hne

/-! ## (3) Market days by a clock -/

/-- `bucketIn offset t`: the day that an event counts for by a clock some hours behind UTC, whatever
its time. -/
def bucketIn (offset : Instant → Int) (t : Instant) : Instant :=
  let clock := t - offset t * nanosPerHour
  let today := Instant.day clock
  if Instant.timeOfDay clock < marketCloseHour * nanosPerHour then Day.midnight today
  else Day.midnight (today + 1)

/-- `marketBucket t = if Instant.timeOfDay t = 0 then t else bucketIn newYorkOffset t`: except at
midnight, the market day is that by the clock of New York. -/
theorem marketBucket_eq (t : Instant) :
    marketBucket t = if Instant.timeOfDay t = 0 then t else bucketIn newYorkOffset t := rfl

namespace NewYorkRule

variable {offset : Instant → Int} (h : NewYorkRule offset) {t u : Instant}
include h

/-- **The market day, by UTC**: the day of the event, or the next one from twenty or twenty-one
o'clock on. `bucketIn offset t = if Instant.timeOfDay t < (16 + offset t) * nanosPerHour then
Day.midnight (Instant.day t) else Day.midnight (Instant.day t + 1)`. -/
theorem bucketIn_eq (t : Instant) : bucketIn offset t =
    if Instant.timeOfDay t < (16 + offset t) * nanosPerHour then Day.midnight (Instant.day t)
    else Day.midnight (Instant.day t + 1) := by
  have hhours := h.standard_or_daylight t
  unfold bucketIn Instant.day Instant.timeOfDay Day.midnight marketCloseHour nanosPerHour
    nanosPerDay nanosPerSecond
  dsimp only
  rcases hhours with hhours | hhours <;> rw [hhours] <;> split <;> split <;> lia

/-- `offset u = offset t`: from seven o'clock of UTC on, clocks are not changed any more that
day. -/
theorem offset_eq (ht : 7 * nanosPerHour ≤ Instant.timeOfDay t) (hle : t ≤ u)
    (hday : Instant.day u = Instant.day t) : offset u = offset t := by
  obtain ⟨k, rfl⟩ := Int.le.dest hle
  induction k with
  | zero => rw [Int.natCast_zero, Int.add_zero]
  | succ k ih =>
    rw [Int.natCast_succ, ← Int.add_assoc] at hday ⊢
    have hbefore : Instant.day (t + k) = Instant.day t := by
      unfold Instant.day nanosPerDay nanosPerSecond at *
      lia
    rw [← ih (Int.le_add_of_nonneg_right (Int.natCast_nonneg k)) hbefore]
    by_contra hne
    have hswitch := h.switches (t + k) hne
    have hhours := h.standard_or_daylight (t + k)
    unfold Instant.day Instant.timeOfDay nanosPerHour nanosPerDay nanosPerSecond at *
    rcases hhours with hhours | hhours <;> rw [hhours] at hswitch <;> lia

/-- **A market day is the day of the event or the next one**:
`bucketIn offset t = Day.midnight (Instant.day t)` or
`bucketIn offset t = Day.midnight (Instant.day t + 1)`. -/
theorem bucketIn_eq_or (t : Instant) : bucketIn offset t = Day.midnight (Instant.day t) ∨
    bucketIn offset t = Day.midnight (Instant.day t + 1) := by
  rw [h.bucketIn_eq]
  split
  · exact .inl rfl
  · exact .inr rfl

/-- A market day is no earlier than the day of the event, and at most one day later:
`Day.midnight (Instant.day t) ≤ bucketIn offset t` and
`bucketIn offset t ≤ Day.midnight (Instant.day t + 1)`. -/
theorem bucketIn_bounds (t : Instant) : Day.midnight (Instant.day t) ≤ bucketIn offset t ∧
    bucketIn offset t ≤ Day.midnight (Instant.day t + 1) := by
  have hnext : Day.midnight (Instant.day t) ≤ Day.midnight (Instant.day t + 1) :=
    Day.midnight_le_iff.2 (Int.le_add_one (Int.le_refl _))
  rcases h.bucketIn_eq_or t with heq | heq <;> rw [heq]
  · exact ⟨Int.le_refl _, hnext⟩
  · exact ⟨hnext, Int.le_refl _⟩

/-- **Later events do not count for earlier days**: `bucketIn offset t ≤ bucketIn offset u`. -/
theorem bucketIn_mono (hle : t ≤ u) : bucketIn offset t ≤ bucketIn offset u := by
  have hdays : Instant.day t ≤ Instant.day u := Int.ediv_le_ediv (by decide) hle
  rcases Int.lt_or_eq_of_le hdays with hlt | heq
  · calc bucketIn offset t ≤ Day.midnight (Instant.day t + 1) := (h.bucketIn_bounds t).2
      _ ≤ Day.midnight (Instant.day u) := Day.midnight_le_iff.2 hlt
      _ ≤ bucketIn offset u := (h.bucketIn_bounds u).1
  · by_cases hclose : Instant.timeOfDay t < (16 + offset t) * nanosPerHour
    · calc bucketIn offset t = Day.midnight (Instant.day u) := by
            rw [h.bucketIn_eq, if_pos hclose, heq]
        _ ≤ bucketIn offset u := (h.bucketIn_bounds u).1
    · -- the clock stays as it is after the close
      have hhours := h.standard_or_daylight t
      have hsame : offset u = offset t := by
        refine h.offset_eq ?_ hle heq.symm
        unfold nanosPerHour nanosPerSecond at *
        lia
      have hcloseU : ¬Instant.timeOfDay u < (16 + offset u) * nanosPerHour := by
        rw [hsame]
        unfold Instant.day Instant.timeOfDay nanosPerDay nanosPerHour nanosPerSecond at *
        lia
      rw [h.bucketIn_eq, h.bucketIn_eq, if_neg hclose, if_neg hcloseU, heq]

/-- **Midnight is no exception**: it comes before the close of its day. `bucketIn offset t = t`. -/
theorem bucketIn_midnight (ht : Instant.timeOfDay t = 0) : bucketIn offset t = t := by
  have hhours := h.standard_or_daylight t
  have hclose : Instant.timeOfDay t < (16 + offset t) * nanosPerHour := by
    rw [ht]
    unfold nanosPerHour nanosPerSecond
    lia
  rw [h.bucketIn_eq, if_pos hclose]
  exact Int.ediv_mul_cancel_of_emod_eq_zero ht

end NewYorkRule

/-- **The market day is that by the clock of New York**, at midnight as well:
`bucketIn newYorkOffset t = marketBucket t`. -/
theorem bucketIn_newYorkOffset (t : Instant) : bucketIn newYorkOffset t = marketBucket t := by
  rw [marketBucket_eq]
  split
  · exact newYorkOffset_rule.bucketIn_midnight ‹_›
  · rfl

/-! ## (4) Market dates -/

/-- The first of sorted dates from a day on is the least one:
`(dates.find? fun d => decide (bound ≤ d)) = some t ↔ IsLeast {d | d ∈ dates ∧ bound ≤ d} t`. -/
theorem find?_eq_some_iff_isLeast {dates : List Instant} (hdates : dates.Pairwise (· ≤ ·))
    {bound t : Instant} : (dates.find? fun d => decide (bound ≤ d)) = some t ↔
      IsLeast {d | d ∈ dates ∧ bound ≤ d} t := by
  have hleast : ∀ {t}, (dates.find? fun d => decide (bound ≤ d)) = some t →
      IsLeast {d | d ∈ dates ∧ bound ≤ d} t := by
    intro t ht
    obtain ⟨hbound, before, behind, rfl, hbefore⟩ := List.find?_eq_some_iff_append.1 ht
    refine ⟨⟨List.mem_append_right _ List.mem_cons_self, of_decide_eq_true hbound⟩, ?_⟩
    rintro d ⟨hd, hle⟩
    rcases List.mem_append.1 hd with hd | hd
    · exact absurd (decide_eq_true hle) (by simpa using hbefore d hd)
    · rcases List.mem_cons.1 hd with rfl | hd
      · exact Int.le_refl _
      · exact (List.pairwise_cons.1 (List.pairwise_append.1 hdates).2.1).1 d hd
  refine ⟨hleast, fun ht => ?_⟩
  cases hfind : dates.find? fun d => decide (bound ≤ d) with
  | none => exact absurd (decide_eq_true ht.1.2) (by simpa using List.find?_eq_none.1 hfind t ht.1.1)
  | some u => rw [(hleast hfind).unique ht]

/-- **The market date of an event** is the least one from its market day on, when that day does not
come before all dates: `snapToMarket? t dates zone = some d` just when
`(∃ first, dates.head? = some first ∧ first ≤ marketBucket t zone)` and
`IsLeast {d | d ∈ dates ∧ marketBucket t zone ≤ d} d`. -/
theorem snapToMarket?_eq_some_iff {dates : List Instant} (hdates : dates.Pairwise (· ≤ ·))
    {t d : Instant} {zone : Zone} : snapToMarket? t dates zone = some d ↔
      (∃ first, dates.head? = some first ∧ first ≤ marketBucket t zone) ∧
        IsLeast {d | d ∈ dates ∧ marketBucket t zone ≤ d} d := by
  rw [← find?_eq_some_iff_isLeast hdates]
  unfold snapToMarket?
  cases dates.head? with
  | none => simp
  | some first =>
    dsimp only
    split
    · simp only [reduceCtorEq, Option.some.injEq, exists_eq_left', false_iff, not_and]
      intro hle
      lia
    · simp only [Option.some.injEq, exists_eq_left']
      lia

/-! ## (5) What market days are -/

/-- The market days of events, and the sorted dates of a market. -/
structure MarketDays (dates : List Instant) : Prop where
  /-- The clocks of New York are five or four hours behind UTC, and changed at two o'clock. -/
  clock : NewYorkRule newYorkOffset
  /-- A market day is the day of the event or the next one. -/
  day_or_next : ∀ t, marketBucket t = Day.midnight (Instant.day t) ∨
    marketBucket t = Day.midnight (Instant.day t + 1)
  /-- Later events do not count for earlier days. -/
  mono : ∀ t u, t ≤ u → marketBucket t ≤ marketBucket u
  /-- At midnight as well, the market day is that by the clock of New York. -/
  uniform : ∀ t, bucketIn newYorkOffset t = marketBucket t
  /-- The market date of an event is the least one from its market day on, when that day does not
  come before all dates. -/
  snap_iff : ∀ t d, snapToMarket? t dates = some d ↔
    (∃ first, dates.head? = some first ∧ first ≤ marketBucket t) ∧
      IsLeast {d | d ∈ dates ∧ marketBucket t ≤ d} d
  /-- Later events have no earlier market dates. -/
  snap_mono : ∀ t u d e, t ≤ u → snapToMarket? t dates = some d →
    snapToMarket? u dates = some e → d ≤ e

/-- **Market days and market dates keep the order of events**: `MarketDays dates`. -/
theorem marketDays {dates : List Instant} (hdates : dates.Pairwise (· ≤ ·)) : MarketDays dates where
  clock := newYorkOffset_rule
  day_or_next t := by
    rw [← bucketIn_newYorkOffset]
    exact newYorkOffset_rule.bucketIn_eq_or t
  mono t u hle := by
    rw [← bucketIn_newYorkOffset, ← bucketIn_newYorkOffset]
    exact newYorkOffset_rule.bucketIn_mono hle
  uniform := bucketIn_newYorkOffset
  snap_iff t d := snapToMarket?_eq_some_iff hdates
  snap_mono t u d e hle hd he := by
    have hleast := ((snapToMarket?_eq_some_iff hdates).1 hd).2
    have hdate := ((snapToMarket?_eq_some_iff hdates).1 he).2.1
    have hmono := newYorkOffset_rule.bucketIn_mono hle
    rw [bucketIn_newYorkOffset, bucketIn_newYorkOffset] at hmono
    exact hleast.2 ⟨hdate.1, Int.le_trans hmono hdate.2⟩

/-- The dates around a weekend: an event on Friday evening counts for Monday. -/
theorem marketDays_weekend :
    snapToMarket? (Day.midnight 18271 + 22 * nanosPerHour)
        [Day.midnight 18270, Day.midnight 18271, Day.midnight 18274] =
      some (Day.midnight 18274) ∧
    MarketDays [Day.midnight 18270, Day.midnight 18271, Day.midnight 18274] :=
  ⟨by decide, marketDays (by decide)⟩

end PanelQuery
