import PanelQuery.Proofs.Time.Civil
import PanelQuery.Time.Calendar

/-! # The loop over periods

`Schedule.periodEnds` goes from one end of a period to the next, until the last day is reached or
the end of a period cannot be told. It goes round once for each period of the span but the last, and
then it ends. The closed form of what it gives is a list over these periods.

* **`Month.lastDay?_eq_some_iff`** — the last day of a month is told unless it is the last of all;
* **`Schedule.endsFrom`, `Schedule.periodEnds_eq`** — the closed form;
* **`Schedule.LoopEnds`, `Schedule.loopEnds_periodEnds`** — the rounds of the loop, which ends;
* **`Schedule.periods_eq`** — calendars of periods. -/

namespace PanelQuery

/-! ## (1) Months with a last day -/

namespace Month

variable {m : Month} {d : Day}

/-- The first day of a month is named by dates just when `firstDay m ≤ Day.latest`. -/
theorem firstDay_le_latest_iff : firstDay m ≤ Day.latest ↔ m < afterLatest := by
  have hlast : Day.month Day.latest + 1 = afterLatest := by decide
  rw [firstDay_le_iff, ← hlast, Int.lt_add_one_iff]

/-- `lastDay? m = some d` just when `d` is the last day of `m` and not the last of all. -/
theorem lastDay?_eq_some_iff : lastDay? m = some d ↔ d = lastDay m ∧ d < Day.latest := by
  unfold lastDay? firstDay? lastDay
  by_cases hm : m + 1 < afterLatest
  · have hle := firstDay_le_latest_iff.2 hm
    rw [if_pos hm, Option.map_some, Option.some.injEq, eq_comm, iff_self_and]
    rintro rfl
    exact Int.sub_one_lt_iff.2 hle
  · rw [if_neg hm, Option.map_none]
    refine iff_of_false (fun h => nomatch h) ?_
    rintro ⟨rfl, hlt⟩
    exact hm (firstDay_le_latest_iff.1 (Int.sub_one_lt_iff.1 hlt))

/-- `lastDay? m = none` just when the last day of `m` does not come before the last of all. -/
theorem lastDay?_eq_none_iff : lastDay? m = none ↔ Day.latest ≤ lastDay m := by
  constructor
  · intro hnone
    refine Int.not_lt.1 fun hlt => ?_
    rw [lastDay?_eq_some_iff.2 ⟨rfl, hlt⟩] at hnone
    cases hnone
  · intro hle
    refine Option.eq_none_iff_forall_ne_some.2 fun d hd => ?_
    obtain ⟨rfl, hlt⟩ := lastDay?_eq_some_iff.1 hd
    exact Int.not_lt.2 hle hlt

end Month

namespace Schedule

/-! ## (2) The closed form -/

/-- The last day of the period `p` of `months` months: `p` counts periods since the year zero. -/
def periodLast (months : Nat) (p : Int) : Day := Month.firstDay ((p + 1) * months) - 1

/-- The last days of the periods from `p` on that come before the period of the last day, as long as
they are told. -/
def endsFrom (months : Nat) (p : Int) (last : Day) : List Day :=
  ((List.range (Day.month last / months - p).toNat).map fun (n : Nat) =>
    periodLast months (p + (n : Int))).filter fun d => decide (d < Day.latest)

variable {months : Nat} {p : Int} {last : Day}

/-- A period is that of the last day or an earlier one just when it does not end before that day:
`last ≤ periodLast months p ↔ Day.month last / months ≤ p`. -/
theorem le_periodLast_iff (hmonths : 0 < months) :
    last ≤ periodLast months p ↔ Day.month last / months ≤ p := by
  have hfirst : Month.firstDay ((p + 1) * months) ≤ last ↔ p + 1 ≤ Day.month last / months := by
    rw [Month.firstDay_le_iff, Int.le_ediv_iff_mul_le (by lia)]
  unfold periodLast
  lia

/-- Later periods end later: `periodLast months p ≤ periodLast months q`. -/
theorem periodLast_mono {q : Int} (h : p ≤ q) : periodLast months p ≤ periodLast months q := by
  have hle : (p + 1) * months ≤ (q + 1) * months :=
    Int.mul_le_mul_of_nonneg_right (by lia) (Int.natCast_nonneg months)
  exact Int.sub_le_sub_right (Month.firstDay_mono hle) 1

/-- No period before that of the last day is left: `endsFrom months p last = []`. -/
theorem endsFrom_of_le (h : Day.month last / months ≤ p) : endsFrom months p last = [] := by
  have hzero : (Day.month last / months - p).toNat = 0 := by lia
  rw [endsFrom, hzero]
  rfl

/-- The period `p` itself, and those after it. -/
theorem endsFrom_of_lt (h : p < Day.month last / months)
    (hlatest : periodLast months p < Day.latest) :
    endsFrom months p last = periodLast months p :: endsFrom months (p + 1) last := by
  have hsucc : (Day.month last / months - p).toNat =
      (Day.month last / months - (p + 1)).toNat + 1 := by lia
  have hshift : ∀ n : Nat, p + ((n + 1 : Nat) : Int) = p + 1 + n := by
    intro n
    lia
  rw [endsFrom, hsucc, List.range_succ_eq_map, List.map_cons, List.map_map,
    List.filter_cons_of_pos (by simpa using hlatest), endsFrom]
  simp only [Function.comp_def, Nat.succ_eq_add_one, hshift, Int.natCast_zero, Int.add_zero]

/-- Where the end of `p` is not told, no later one is. -/
theorem endsFrom_of_latest_le (hlatest : Day.latest ≤ periodLast months p) :
    endsFrom months p last = [] := by
  refine List.filter_eq_nil_iff.2 fun d hd => ?_
  obtain ⟨n, -, rfl⟩ := List.mem_map.1 hd
  have hle : periodLast months p ≤ periodLast months (p + (n : Int)) :=
    periodLast_mono (Int.le_add_of_nonneg_right (Int.natCast_nonneg n))
  simpa using Int.le_trans hlatest hle

/-- What the loop over periods gives from the period `p` on. -/
def endsAndCut (months : Nat) (p : Int) (last : Day) : List Day × Bool :=
  if periodLast months (Day.month last / months) < Day.latest then
    (endsFrom months p last ++ [last], periodLast months (Day.month last / months) != last)
  else (endsFrom months p last, false)

/-- **The closed form**: from the period `p` on, which ends with the month `start + offset`, the
loop gives `endsAndCut months p last`. -/
theorem periodEnds_eq (hmonths : 0 < months) {start : Month} {offset : Nat}
    (hp : p ≤ Day.month last / months) (hstart : start + (offset : Int) = (p + 1) * months - 1) :
    periodEnds months hmonths start last offset = endsAndCut months p last := by
  have hlastDay : Month.lastDay (start + (offset : Int)) = periodLast months p := by
    rw [hstart, Month.lastDay, Int.sub_add_cancel, periodLast]
  -- one round for each period before that of the last day
  induction hleft : (Day.month last / months - p).toNat generalizing p offset with
  | zero =>
    -- the period of the last day, in which the loop ends
    have heq : p = Day.month last / months := by lia
    rw [periodEnds]
    split
    next hnone =>
      rw [Month.lastDay?_eq_none_iff, hlastDay, heq] at hnone
      rw [endsAndCut, if_neg (Int.not_lt.2 hnone), endsFrom_of_le (Int.le_of_eq heq.symm)]
    next e hend =>
      obtain ⟨rfl, hlatest⟩ := Month.lastDay?_eq_some_iff.1 hend
      rw [hlastDay] at hlatest ⊢
      have hle := (le_periodLast_iff hmonths).2 (Int.le_of_eq heq.symm)
      rw [heq] at hlatest hle
      rw [heq, if_pos hle, endsAndCut, if_pos hlatest, endsFrom_of_le (Int.le_refl _)]
      refine Prod.ext rfl (Bool.eq_iff_iff.2 ?_)
      simp only [decide_eq_true_eq, bne_iff_ne]
      lia
  | succ left ih =>
    -- an earlier period: its end is a date, unless it cannot be told
    have hlt : p < Day.month last / months := by lia
    rw [periodEnds]
    split
    next hnone =>
      rw [Month.lastDay?_eq_none_iff, hlastDay] at hnone
      have hle := Int.le_trans hnone (periodLast_mono (Int.le_of_lt hlt))
      rw [endsAndCut, if_neg (Int.not_lt.2 hle), endsFrom_of_latest_le hnone]
    next e hend =>
      obtain ⟨rfl, hlatest⟩ := Month.lastDay?_eq_some_iff.1 hend
      rw [hlastDay] at hlatest ⊢
      have hnot : ¬last ≤ periodLast months p := by
        rw [le_periodLast_iff hmonths]
        exact Int.not_le.2 hlt
      have hnext : start + ((offset + months : Nat) : Int) = (p + 1 + 1) * months - 1 := by
        rw [Int.natCast_add, ← Int.add_assoc, hstart, Int.add_mul (p + 1)]
        lia
      have hlater : Month.lastDay (start + ((offset + months : Nat) : Int)) =
          periodLast months (p + 1) := by
        rw [hnext, Month.lastDay, Int.sub_add_cancel, periodLast]
      rw [if_neg hnot, ih hlt hnext hlater (by lia)]
      unfold endsAndCut
      rw [endsFrom_of_lt hlt hlatest]
      by_cases hknown : periodLast months (Day.month last / months) < Day.latest
      · rw [if_pos hknown, if_pos hknown]
        rfl
      · rw [if_neg hknown, if_neg hknown]

/-! ## (3) The loop ends -/

/-- The loop over periods, from the one that ends with the month `start + offset` on, ends with some
days and whether the last one stands in place of a later one. -/
inductive LoopEnds (months : Nat) (start : Month) (last : Day) : Nat → List Day × Bool → Prop where
  /-- The end of the period cannot be told. -/
  | untold {offset : Nat} (hend : Month.lastDay? (start + offset) = none) :
      LoopEnds months start last offset ([], false)
  /-- The period does not end before the last day. -/
  | reached {offset : Nat} {e : Day} (hend : Month.lastDay? (start + offset) = some e)
      (hle : last ≤ e) : LoopEnds months start last offset ([last], decide (last < e))
  /-- The period ends before the last day, and the loop goes round once more. -/
  | round {offset : Nat} {e : Day} {later : List Day} {cut : Bool}
      (hend : Month.lastDay? (start + offset) = some e) (hlt : e < last)
      (hlater : LoopEnds months start last (offset + months) (later, cut)) :
      LoopEnds months start last offset (e :: later, cut)

/-- **The loop over periods ends**, whatever the span is:
`LoopEnds months start last offset (periodEnds months hmonths start last offset)`. -/
theorem loopEnds_periodEnds (hmonths : 0 < months) (start : Month) (last : Day) (offset : Nat) :
    LoopEnds months start last offset (periodEnds months hmonths start last offset) := by
  induction offset using periodEnds.induct months hmonths start last with
  | case1 offset hnone =>
    rw [periodEnds]
    split
    next => exact .untold hnone
    next e hend => simp [hnone] at hend
  | case2 offset e hend hle =>
    rw [periodEnds]
    split
    next hnone => simp [hend] at hnone
    next e' hend' =>
      obtain rfl := Option.some.inj (hend.symm.trans hend')
      rw [if_pos hle]
      exact .reached hend hle
  | case3 offset e hend hnot later cut heq ih =>
    rw [periodEnds]
    split
    next hnone => simp [hend] at hnone
    next e' hend' =>
      obtain rfl := Option.some.inj (hend.symm.trans hend')
      rw [if_neg hnot]
      exact .round hend (Int.not_le.1 hnot) ih

/-! ## (4) Calendars of periods -/

/-- `periodStart months d = Day.month d / months * months`: periods counted from the January of the
year are counted from the year zero as well, when a year has whole ones. -/
theorem periodStart_eq (hyear : months ∣ 12) (d : Day) :
    periodStart months d = Day.month d / months * months := by
  obtain ⟨k, hk⟩ := hyear
  have hne : (months : Int) ≠ 0 := by
    rintro hzero
    lia
  -- a year has `k` whole periods
  have hcast : (12 : Int) = k * months := by
    rw [Int.mul_comm]
    exact_mod_cast hk
  have hsplit : Day.month d = Day.month d % 12 + Day.month d / 12 * k * months := by
    have hmod := Int.emod_add_mul_ediv (Day.month d) 12
    rw [Int.mul_assoc, ← hcast]
    lia
  have hdiv : Day.month d / months = Day.month d % 12 / months + Day.month d / 12 * k := by
    rw [← Int.add_mul_ediv_right (Day.month d % 12) (Day.month d / 12 * k) hne, ← hsplit]
  have hmonth : (Day.civil d).month - 1 = Day.month d % 12 := Int.add_sub_cancel _ _
  have hwhole : Day.month d / 12 * k * months = 12 * (Day.month d / 12) := by
    rw [Int.mul_assoc, ← hcast, Int.mul_comm]
  unfold periodStart
  dsimp only
  rw [hdiv, hmonth, Int.add_mul, hwhole, Month.ofYear, Int.add_sub_cancel, Int.add_comm]
  rfl

/-- **Calendars of periods, in closed form.** The first period is incomplete unless its first day
is the first one of the span. -/
theorem periods_eq (hmonths : 0 < months) (hyear : months ∣ 12) {first : Day} (hle : first ≤ last) :
    periods months hmonths first last =
      ⟨(endsAndCut months (Day.month first / months) last).1.map Day.midnight,
        Month.firstDay (Day.month first / months * months) != first,
        (endsAndCut months (Day.month first / months) last).2⟩ := by
  have hmono : Day.month first / months ≤ Day.month last / months :=
    Int.ediv_le_ediv (by lia)
      (Month.firstDay_le_iff.1 (Int.le_trans (Day.firstDay_month_le first) hle))
  have hstart : Day.month first / months * months + ((months - 1 : Nat) : Int) =
      (Day.month first / months + 1) * months - 1 := by
    rw [Int.add_mul]
    lia
  unfold periods
  dsimp only
  rw [periodStart_eq hyear, periodEnds_eq hmonths hmono hstart]

end Schedule

end PanelQuery
