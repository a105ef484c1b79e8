import PanelQuery.Proofs.Time.Calendar
import PanelQuery.TimeWindow

/-! # Windows of months and years

Some months before a day is a day of the month that many months earlier, be it the last one. So more
months earlier is no later, and the windows of more months have the times of those of fewer. Every
window is a stretch without gaps, and it either does not depend on the latest observation or ends
with it.

* **`Day.monthsBefore_anti`, `Day.monthsBefore_lt`** — days some months earlier are in order;
* **`Instant.monthsBefore?_anti`** — so are instants, as long as dates can name them;
* **`TimeWindow.contains_of_between`** — windows have no gaps;
* **`TimeWindow.fixed_or_relative`** — what windows have to do with the latest observation;
* **`TimeWindow.contains_lastMonths_mono`** — windows of more and of fewer months. -/

namespace PanelQuery

/-! ## (1) Some months earlier -/

namespace Day

variable {d : Day} {m n : Nat}

/-- The day some months earlier is no earlier than its month:
`Month.firstDay (month d - n) ≤ monthsBefore d n`. -/
theorem firstDay_le_monthsBefore (d : Day) (n : Nat) :
    Month.firstDay (month d - n) ≤ monthsBefore d n := by
  have hfirst := firstDay_month_le d
  have hnext := Month.firstDay_lt_succ (month d - n)
  unfold monthsBefore Month.lastDay
  lia

/-- The day some months earlier is before the next month:
`monthsBefore d n < Month.firstDay (month d - n + 1)`. -/
theorem monthsBefore_lt_firstDay (d : Day) (n : Nat) :
    monthsBefore d n < Month.firstDay (month d - n + 1) := by
  unfold monthsBefore Month.lastDay
  lia

/-- **More months earlier is no later**: `monthsBefore d n ≤ monthsBefore d m`. -/
theorem monthsBefore_anti (h : m ≤ n) : monthsBefore d n ≤ monthsBefore d m := by
  rcases Nat.lt_or_eq_of_le h with hlt | rfl
  · -- the earlier month is over before the later one begins
    have hmonths : Month.firstDay (month d - n + 1) ≤ Month.firstDay (month d - m) :=
      Month.firstDay_mono (by lia)
    have hbefore := monthsBefore_lt_firstDay d n
    have hafter := firstDay_le_monthsBefore d m
    lia
  · exact Int.le_refl _

/-- A day comes after those some months earlier: `monthsBefore d n < d`. -/
theorem monthsBefore_lt (h : 0 < n) : monthsBefore d n < d := by
  have hmonths : Month.firstDay (month d - n + 1) ≤ Month.firstDay (month d) :=
    Month.firstDay_mono (by lia)
  have hbefore := monthsBefore_lt_firstDay d n
  have hfirst := firstDay_month_le d
  lia

/-- A month before the end of March is the end of February, be it a leap day. -/
example : monthsBefore 19813 1 = 19782 ∧ (civil 19813 = ⟨2024, 3, 31⟩) ∧
    civil 19782 = ⟨2024, 2, 29⟩ := by decide

end Day

namespace Instant

variable {t b : Instant} {m n : Nat}

/-- `Day.midnight (day t) + timeOfDay t = t`: an instant is so long after the start of its day. -/
theorem midnight_day_add_timeOfDay (t : Instant) : Day.midnight (day t) + timeOfDay t = t :=
  Int.ediv_mul_add_emod t nanosPerDay

/-- The instant some months earlier, where dates can name it: `t.monthsBefore? n = some b` just when
`Day.midnight (Day.monthsBefore (day t) n) + timeOfDay t = b ∧ earliest ≤ b`. -/
theorem monthsBefore?_eq_some_iff : t.monthsBefore? n = some b ↔
    Day.midnight (Day.monthsBefore (day t) n) + timeOfDay t = b ∧ earliest ≤ b := by
  unfold monthsBefore?
  dsimp only
  rw [Option.ite_none_right_eq_some, Option.some.injEq]
  constructor
  · rintro ⟨hearliest, rfl⟩
    exact ⟨rfl, hearliest⟩
  · rintro ⟨rfl, hearliest⟩
    exact ⟨hearliest, rfl⟩

/-- **Fewer months earlier is no earlier**, and dates can name it if they can name the other:
`∃ c, t.monthsBefore? m = some c ∧ b ≤ c`. -/
theorem monthsBefore?_anti (h : m ≤ n) (hb : t.monthsBefore? n = some b) :
    ∃ c, t.monthsBefore? m = some c ∧ b ≤ c := by
  obtain ⟨rfl, hearliest⟩ := monthsBefore?_eq_some_iff.1 hb
  have hle := Int.add_le_add_right
    (Day.midnight_le_iff.2 (Day.monthsBefore_anti (d := day t) h)) (timeOfDay t)
  exact ⟨_, monthsBefore?_eq_some_iff.2 ⟨rfl, Int.le_trans hearliest hle⟩, hle⟩

/-- An instant comes after those some months earlier: `b < t`. -/
theorem monthsBefore?_lt (h : 0 < n) (hb : t.monthsBefore? n = some b) : b < t := by
  obtain ⟨rfl, -⟩ := monthsBefore?_eq_some_iff.1 hb
  have hlt := Day.midnight_lt_iff.2 (Day.monthsBefore_lt (d := day t) h)
  have ht := midnight_day_add_timeOfDay t
  lia

/-- An instant comes no earlier than its year: `t.yearStart ≤ t`. -/
theorem yearStart_le (t : Instant) : t.yearStart ≤ t := by
  have hmonth : Month.ofYear (Day.civil (day t)).year 1 ≤ Day.month (day t) := by
    unfold Month.ofYear Day.civil
    lia
  have hday := Day.midnight_le_iff.2 (Month.firstDay_le_iff.2 hmonth)
  have htime : 0 ≤ timeOfDay t := Int.emod_nonneg _ (by decide)
  have ht := midnight_day_add_timeOfDay t
  unfold yearStart
  lia

end Instant

/-! ## (2) Times of a window -/

namespace TimeWindow

variable {w : TimeWindow} {anchor a b c t : Instant} {m n : Nat}

/-- The times in the window of some months: `(lastMonths n).contains anchor t = true` just when
`(∀ begins, anchor.monthsBefore? n = some begins → begins < t) ∧ t ≤ anchor`. -/
theorem contains_lastMonths_iff : (lastMonths n).contains anchor t = true ↔
    (∀ begins, anchor.monthsBefore? n = some begins → begins < t) ∧ t ≤ anchor := by
  simp [contains, Option.all_eq_true]

/-- `yearToDate.contains anchor t = true ↔ anchor.yearStart ≤ t ∧ t ≤ anchor`: the times in the
window of a year. -/
theorem contains_yearToDate_iff :
    yearToDate.contains anchor t = true ↔ anchor.yearStart ≤ t ∧ t ≤ anchor := by
  simp [contains]

/-- `(between a b).contains anchor t = true ↔ a ≤ t ∧ t ≤ b`: the times between two. -/
theorem contains_between_iff : (between a b).contains anchor t = true ↔ a ≤ t ∧ t ≤ b := by
  simp [contains]

/-- **Windows have no gaps**: `w.contains anchor b = true`. -/
theorem contains_of_between (ha : w.contains anchor a = true) (hc : w.contains anchor c = true)
    (hab : a ≤ b) (hbc : b ≤ c) : w.contains anchor b = true := by
  cases w with
  | lastMonths n =>
    rw [contains_lastMonths_iff] at ha hc ⊢
    exact ⟨fun begins h => Int.lt_of_lt_of_le (ha.1 begins h) hab, Int.le_trans hbc hc.2⟩
  | yearToDate =>
    rw [contains_yearToDate_iff] at ha hc ⊢
    exact ⟨Int.le_trans ha.1 hab, Int.le_trans hbc hc.2⟩
  | between first last =>
    rw [contains_between_iff] at ha hc ⊢
    exact ⟨Int.le_trans ha.1 hab, Int.le_trans hbc hc.2⟩
  | allTime => rfl

/-- `t ≤ anchor ∧ (lastMonths n).contains anchor anchor = true`: windows of months end with the
latest observation. -/
theorem lastMonths_relative (h : (lastMonths n).contains anchor t = true) :
    t ≤ anchor ∧ (lastMonths n).contains anchor anchor = true := by
  rw [contains_lastMonths_iff] at h ⊢
  exact ⟨h.2, fun begins hbegins => Int.lt_of_lt_of_le (h.1 begins hbegins) h.2, Int.le_refl _⟩

/-- **A window is fixed, or ends with the latest observation**: then this is one of its times as
soon as it has any. `(∀ anchor anchor', w.contains anchor = w.contains anchor')` or
`∀ anchor t, w.contains anchor t = true → t ≤ anchor ∧ w.contains anchor anchor = true`. -/
theorem fixed_or_relative (w : TimeWindow) :
    (∀ anchor anchor', w.contains anchor = w.contains anchor') ∨
      ∀ anchor t, w.contains anchor t = true → t ≤ anchor ∧ w.contains anchor anchor = true := by
  cases w with
  | lastMonths n => exact .inr fun anchor t => lastMonths_relative
  | yearToDate =>
    refine .inr fun anchor t ht => ?_
    rw [contains_yearToDate_iff] at ht ⊢
    exact ⟨ht.2, anchor.yearStart_le, Int.le_refl _⟩
  | between first last => exact .inl fun _ _ => rfl
  | allTime => exact .inl fun _ _ => rfl

/-- A window that goes on to the latest observation. -/
def ReachesLatest : TimeWindow → Prop
  | lastMonths n => 1 ≤ n
  | yearToDate => True
  | between _ _ => False
  | allTime => True

instance : DecidablePred ReachesLatest
  | lastMonths n => inferInstanceAs (Decidable (1 ≤ n))
  | yearToDate => inferInstanceAs (Decidable True)
  | between _ _ => inferInstanceAs (Decidable False)
  | allTime => inferInstanceAs (Decidable True)

/-- **A window that goes on to the latest observation** has the time of it:
`w.contains anchor anchor = true`. -/
theorem ReachesLatest.contains_anchor (hw : w.ReachesLatest) (anchor : Instant) :
    w.contains anchor anchor = true := by
  cases w with
  | lastMonths n =>
    rw [contains_lastMonths_iff]
    exact ⟨fun begins => Instant.monthsBefore?_lt hw, Int.le_refl _⟩
  | yearToDate =>
    rw [contains_yearToDate_iff]
    exact ⟨anchor.yearStart_le, Int.le_refl _⟩
  | between first last => exact hw.elim
  | allTime => rfl

/-- **The window of more months** has the times of that of fewer:
`(lastMonths n).contains anchor t = true`. -/
theorem contains_lastMonths_mono (h : m ≤ n) (ht : (lastMonths m).contains anchor t = true) :
    (lastMonths n).contains anchor t = true := by
  rw [contains_lastMonths_iff] at ht ⊢
  refine ⟨fun begins hbegins => ?_, ht.2⟩
  obtain ⟨later, hlater, hle⟩ := Instant.monthsBefore?_anti h hbegins
  exact Int.lt_of_le_of_lt hle (ht.1 later hlater)

/-- The times that are in two windows of months are those of the shorter one:
`((lastMonths m).contains anchor t && (lastMonths n).contains anchor t)` is
`(lastMonths (min n m)).contains anchor t`. -/
theorem contains_lastMonths_min (m n : Nat) (anchor t : Instant) :
    ((lastMonths m).contains anchor t && (lastMonths n).contains anchor t) =
      (lastMonths (min n m)).contains anchor t := by
  rw [Bool.eq_iff_iff, Bool.and_eq_true]
  rcases Nat.le_total m n with h | h
  · rw [Nat.min_eq_right h]
    exact and_iff_left_of_imp (contains_lastMonths_mono h)
  · rw [Nat.min_eq_left h]
    exact and_iff_right_of_imp (contains_lastMonths_mono h)

end TimeWindow

end PanelQuery
