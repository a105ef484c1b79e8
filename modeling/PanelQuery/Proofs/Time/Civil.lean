import PanelQuery.Time.Civil

/-! # Months of days

The month that a day is said to fall in is the one whose days contain it. Four hundred years have
the same days over and over; within them, the year of a day is found by leaving out the leap days
before it, and the month of a day within its year by a straight line.

* **`yearOfCycle`** — the year of a day of the four hundred years, and its bounds;
* **`Month.firstDay_eq`** — the first day of a month, by the year that starts in March;
* **`Day.firstDay_month_le`, `Day.lt_firstDay_month_succ`** — a day lies in its month;
* **`Month.firstDay_le_iff`** — days from the first day of a month on. -/

namespace PanelQuery

/-! ## (1) Years of the cycle -/

/-- `marchYearStart (400 * era + year) = 146097 * era + marchYearStart year`: every cycle of four
hundred years has the same days. -/
theorem marchYearStart_add (era year : Int) :
    marchYearStart (400 * era + year) = 146097 * era + marchYearStart year := by
  unfold marchYearStart
  lia

/-- Years follow each other: `marchYearStart year + 365 ≤ marchYearStart (year + 1)` and
`marchYearStart (year + 1) ≤ marchYearStart year + 366`. -/
theorem marchYearStart_lt_succ (year : Int) :
    marchYearStart year + 365 ≤ marchYearStart (year + 1) ∧
      marchYearStart (year + 1) ≤ marchYearStart year + 366 := by
  unfold marchYearStart
  lia

/-- The year of a day of the cycle. -/
def yearOfCycle (n : Int) : Int := (n - n / 1460 + n / 36524 - n / 146096) / 365

variable {n : Int}

/-- The years of the cycle are counted from zero: `0 ≤ yearOfCycle n ∧ yearOfCycle n < 400`. -/
theorem yearOfCycle_bounds (hn : 0 ≤ n) (hlt : n < 146097) :
    0 ≤ yearOfCycle n ∧ yearOfCycle n < 400 := by
  unfold yearOfCycle
  lia

/-- Later days are in no earlier year: `yearOfCycle m ≤ yearOfCycle n`. -/
theorem yearOfCycle_mono {m : Int} (h : m ≤ n) : yearOfCycle m ≤ yearOfCycle n := by
  unfold yearOfCycle
  refine Int.ediv_le_ediv (by decide) ?_
  lia

/-- `yearOfCycle (marchYearStart year) = year`: a year of the cycle is that of its first day. -/
theorem yearOfCycle_marchYearStart {year : Int} (h : 0 ≤ year) (hlt : year < 400) :
    yearOfCycle (marchYearStart year) = year := by
  have hall : ∀ y : Fin 400, yearOfCycle (marchYearStart (y.val : Int)) = y.val := by
    decide +kernel
  have hyear := hall ⟨year.toNat, by lia⟩
  rwa [Int.toNat_of_nonneg h] at hyear

/-- A day of the cycle comes no earlier than its year: `marchYearStart (yearOfCycle n) ≤ n`. -/
theorem marchYearStart_yearOfCycle_le (hn : 0 ≤ n) (hlt : n < 146097) :
    marchYearStart (yearOfCycle n) ≤ n := by
  obtain ⟨hlow, hhigh⟩ := yearOfCycle_bounds hn hlt
  have hle : 365 * yearOfCycle n + yearOfCycle n / 4 - yearOfCycle n / 100 ≤ n := by
    unfold yearOfCycle
    lia
  unfold marchYearStart
  lia

/-- A day of the cycle comes before the next year: `n < marchYearStart (yearOfCycle n + 1)`. -/
theorem lt_marchYearStart_yearOfCycle (hn : 0 ≤ n) (hlt : n < 146097) :
    n < marchYearStart (yearOfCycle n + 1) := by
  obtain ⟨hlow, hhigh⟩ := yearOfCycle_bounds hn hlt
  refine Int.not_le.1 fun hge => ?_
  by_cases hlast : yearOfCycle n + 1 < 400
  · -- then the day would be in the next year
    have hmono := yearOfCycle_mono hge
    rw [yearOfCycle_marchYearStart (by lia) hlast] at hmono
    lia
  · have heq : yearOfCycle n + 1 = 400 := by lia
    rw [heq] at hge
    exact absurd (Int.lt_of_le_of_lt hge hlt) (by decide)

/-! ## (2) Months of the year -/

/-- The first day of a month, by the year that starts in March:
`Month.firstDay (12 * year + month + 2)` is
`marchYearStart year + marchMonthStart month - epochOffset`. -/
theorem Month.firstDay_eq (year : Int) {month : Int} (h : 0 ≤ month) (hlt : month < 12) :
    Month.firstDay (12 * year + month + 2) =
      marchYearStart year + marchMonthStart month - epochOffset := by
  have hyear : (12 * year + month + 2 - 2) / 12 = year := by lia
  have hmonth : (12 * year + month + 2 - 2) % 12 = month := by lia
  unfold Month.firstDay
  dsimp only
  rw [hyear, hmonth]

/-- The month of a day of the year, and the days of that month: `0 ≤ (5 * day + 2) / 153`,
`(5 * day + 2) / 153 < 12`, `marchMonthStart ((5 * day + 2) / 153) ≤ day` and
`day < marchMonthStart ((5 * day + 2) / 153 + 1)`. -/
theorem marchMonth_bounds {day : Int} (h : 0 ≤ day) (hlt : day < 366) :
    0 ≤ (5 * day + 2) / 153 ∧ (5 * day + 2) / 153 < 12 ∧
      marchMonthStart ((5 * day + 2) / 153) ≤ day ∧
        day < marchMonthStart ((5 * day + 2) / 153 + 1) := by
  unfold marchMonthStart
  lia

/-- Months follow each other: `Month.firstDay m < Month.firstDay (m + 1)`. -/
theorem Month.firstDay_lt_succ (m : Month) : Month.firstDay m < Month.firstDay (m + 1) := by
  obtain ⟨year, month, hmonth, hlt, rfl⟩ :
      ∃ year month : Int, 0 ≤ month ∧ month < 12 ∧ m = 12 * year + month + 2 :=
    ⟨(m - 2) / 12, (m - 2) % 12, by lia, by lia, by lia⟩
  rw [Month.firstDay_eq year hmonth hlt]
  by_cases hlast : month + 1 < 12
  · have hnext : 12 * year + month + 2 + 1 = 12 * year + (month + 1) + 2 := by lia
    rw [hnext, Month.firstDay_eq year (by lia) hlast]
    unfold marchMonthStart
    lia
  · -- the last month of the year is followed by the first one of the next
    have hnext : 12 * year + month + 2 + 1 = 12 * (year + 1) + 0 + 2 := by lia
    have hmonth : month = 11 := by lia
    have hyear := (marchYearStart_lt_succ year).1
    rw [hnext, Month.firstDay_eq (year + 1) (by decide) (by decide), hmonth]
    unfold marchMonthStart
    lia

/-- Later months begin later: `Month.firstDay m ≤ Month.firstDay n`. -/
theorem Month.firstDay_mono {m n : Month} (h : m ≤ n) : Month.firstDay m ≤ Month.firstDay n := by
  obtain ⟨k, rfl⟩ := Int.le.dest h
  induction k with
  | zero => simp
  | succ k ih =>
    have hlt := Month.firstDay_lt_succ (m + k)
    have hle := ih (by lia)
    rw [Int.natCast_succ, ← Int.add_assoc]
    exact Int.le_trans hle (Int.le_of_lt hlt)

/-! ## (3) The month of a day -/

namespace Day

/-- A day and its month, by year, month and day of the year, from March on: for some
`year day : Int`, `0 ≤ day`, `day < 366`, `d = marchYearStart year + day - epochOffset`,
`d < marchYearStart (year + 1) - epochOffset` and
`Day.month d = 12 * year + (5 * day + 2) / 153 + 2`. -/
theorem exists_march (d : Day) :
    ∃ year day : Int, 0 ≤ day ∧ day < 366 ∧ d = marchYearStart year + day - epochOffset ∧
      d < marchYearStart (year + 1) - epochOffset ∧
      Day.month d = 12 * year + (5 * day + 2) / 153 + 2 := by
  have hn : 0 ≤ (d + epochOffset) % 146097 := by lia
  have hlt : (d + epochOffset) % 146097 < 146097 := by lia
  have hsplit : d + epochOffset = 146097 * ((d + epochOffset) / 146097) +
      (d + epochOffset) % 146097 := by lia
  obtain ⟨hlow, hhigh⟩ := yearOfCycle_bounds hn hlt
  have hle := marchYearStart_yearOfCycle_le hn hlt
  have hbefore := lt_marchYearStart_yearOfCycle hn hlt
  have hlength := (marchYearStart_lt_succ (yearOfCycle ((d + epochOffset) % 146097))).2
  have hnext := marchYearStart_add ((d + epochOffset) / 146097)
    (yearOfCycle ((d + epochOffset) % 146097) + 1)
  have hstart : marchYearStart (yearOfCycle ((d + epochOffset) % 146097)) =
      365 * yearOfCycle ((d + epochOffset) % 146097) +
        yearOfCycle ((d + epochOffset) % 146097) / 4 -
          yearOfCycle ((d + epochOffset) % 146097) / 100 := by
    unfold marchYearStart
    lia
  refine ⟨400 * ((d + epochOffset) / 146097) + yearOfCycle ((d + epochOffset) % 146097),
    (d + epochOffset) % 146097 - marchYearStart (yearOfCycle ((d + epochOffset) % 146097)),
    by lia, by lia, ?_, ?_, ?_⟩
  · rw [marchYearStart_add]
    lia
  · rw [Int.add_assoc, hnext]
    lia
  · rw [hstart]
    rfl

/-- **A day comes no earlier than its month**: `Month.firstDay (Day.month d) ≤ d`. -/
theorem firstDay_month_le (d : Day) : Month.firstDay (Day.month d) ≤ d := by
  obtain ⟨year, day, hday, hlt, hd, -, hmonth⟩ := exists_march d
  obtain ⟨hlow, hhigh, hstart, -⟩ := marchMonth_bounds hday hlt
  rw [hmonth, Month.firstDay_eq year hlow hhigh, hd]
  lia

/-- **A day comes before the next month**: `d < Month.firstDay (Day.month d + 1)`. -/
theorem lt_firstDay_month_succ (d : Day) : d < Month.firstDay (Day.month d + 1) := by
  obtain ⟨year, day, hday, hlt, hd, hyear, hmonth⟩ := exists_march d
  obtain ⟨hlow, hhigh, -, hend⟩ := marchMonth_bounds hday hlt
  rw [hmonth]
  by_cases hlast : (5 * day + 2) / 153 + 1 < 12
  · have hnext : 12 * year + (5 * day + 2) / 153 + 2 + 1 =
        12 * year + ((5 * day + 2) / 153 + 1) + 2 := by lia
    rw [hnext, Month.firstDay_eq year (by lia) hlast, hd]
    lia
  · have hnext : 12 * year + (5 * day + 2) / 153 + 2 + 1 = 12 * (year + 1) + 0 + 2 := by lia
    have hzero : marchMonthStart 0 = 0 := by decide
    rw [hnext, Month.firstDay_eq (year + 1) (by decide) (by decide), hzero]
    lia

end Day

/-- **The days from the first day of a month on** are those of that month and of later ones:
`Month.firstDay m ≤ d ↔ m ≤ Day.month d`. -/
theorem Month.firstDay_le_iff {m : Month} {d : Day} : Month.firstDay m ≤ d ↔ m ≤ Day.month d := by
  constructor
  · intro hle
    refine Int.not_lt.1 fun hnext => ?_
    have hmono := Month.firstDay_mono hnext
    have hlt := Day.lt_firstDay_month_succ d
    lia
  · intro hle
    exact Int.le_trans (Month.firstDay_mono hle) (Day.firstDay_month_le d)

end PanelQuery
