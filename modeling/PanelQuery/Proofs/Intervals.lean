import Mathlib.Data.List.Permutation
import PanelQuery.Proofs.Resampling
import PanelQuery.Proofs.Series.Search

/-! # Resampling by intervals

What a schedule makes of a series, said date by date: each date owns the interval after the date
before it and up to itself. Nothing is said of a cursor, and each interval is taken from all points.

* **`Points.interval`, `Points.beforeInterval`** — the points of an interval, and those before it;
* **`Policy.ofInterval?`, `Policy.ofGap?`** — the value of an interval with points, and without;
* **`Schedule.valueByInterval?`, `Schedule.byIntervals`** — the value of a date, and all of them;
* **`Schedule.resample_eq_byIntervals`** — points moved onto dates in order;
* **`Schedule.apply_ofDates`** — points moved onto whatever dates, with or without a weight. -/

namespace PanelQuery

/-! ## (1) The definition by intervals -/

section Definition

variable {α : Type}

/-- `Points.interval ps previous d`: the points after a date, if one is given, and up to another. -/
def Points.interval (ps : Points α) (previous : Option Instant) (d : Instant) : Points α :=
  ps.filter fun p => previous.all (fun c => decide (c < p.time)) && decide (p.time ≤ d)

/-- `Points.beforeInterval ps previous`: the points before the interval that begins after a date. An
interval without beginning has none before it. -/
def Points.beforeInterval (ps : Points α) (previous : Option Instant) : Points α :=
  match previous with
  | none => []
  | some c => ps.filter fun p => decide (p.time ≤ c)

variable [Scalar α]

/-- The value of an interval that has points: their last value, their sum or their compounded
growth, from left to right. -/
def Policy.ofInterval? (policy : Policy) (values : List α) : Option α :=
  match policy with
  | lastValue => values.getLast?
  | arithmetic => some (values.foldl (fun total v => total + v) Scalar.sumStart)
  | geometric => some (values.foldl (fun growth v => growth * (1 + v)) 1 - 1)
  | drop => none
  | zero => none

/-- `Policy.ofGap? policy before`: the value of an interval without points, given the values before
it. -/
def Policy.ofGap? (policy : Policy) (before : List α) : Option α :=
  match policy with
  | lastValue => before.getLast?
  | zero => some 0
  | drop => none
  | arithmetic => none
  | geometric => none

namespace Schedule

/-- `previous? s i`: the date before the one at a place. -/
def previous? (s : Schedule) (i : Nat) : Option Instant := if i = 0 then none else s.dates[i - 1]?

/-- Whether the interval of the date at a place is incomplete: the first one may be, and so may the
last one. -/
def isIncomplete (s : Schedule) (i : Nat) : Bool :=
  (i == 0 && s.beginIncomplete) || (i + 1 == s.dates.length && s.endIncomplete)

/-- The value of the date `d` at a place. -/
def valueByInterval? (s : Schedule) (h : Header) (ps : Points α) (i : Nat) (d : Instant) :
    Option α :=
  let inside := ps.interval (s.previous? i) d
  if inside = [] then h.upsample.ofGap? (ps.beforeInterval (s.previous? i)).values
  else if (h.downsample = .arithmetic ∨ h.downsample = .geometric) ∧ s.isIncomplete i then none
  else h.downsample.ofInterval? inside.values

/-- `byIntervals s h ps`: the dates that have values, each with its value. -/
def byIntervals (s : Schedule) (h : Header) (ps : Points α) : Points α :=
  s.dates.zipIdx.filterMap fun date =>
    (s.valueByInterval? h ps date.2 date.1).map fun v => ⟨date.1, v⟩

end Schedule

/-- `Points.withoutZeros ps weights`: the points without those on whose dates a weight is zero. -/
def Points.withoutZeros (ps weights : Points α) : Points α :=
  ps.filter fun p => !weights.any fun q => q.time == p.time && q.value == 0

/-- `Schedule.weightedByIntervals s h ps`: the dates that have values, without those on which the
weight has the value zero. -/
def Schedule.weightedByIntervals (s : Schedule) (h : Header) (ps : Points α) :
    Option (Series α) → Points α
  | none => s.byIntervals h ps
  | some w => (s.byIntervals h ps).withoutZeros (s.byIntervals w.header w.points)

end Definition

variable {α : Type} {ps : Points α} {previous : Option Instant} {c d : Instant}

/-! ## (2) Points that are left after a date -/

namespace Points

/-- `rest ps previous`: the points after a date, if one is given. -/
def rest (ps : Points α) (previous : Option Instant) : Points α :=
  match previous with
  | none => ps
  | some c => ps.dropWhile fun p => decide (p.time ≤ c)

/-- `ps.upTo d = ps.upTo c ++ upTo (ps.rest (some c)) d`: the points up to a date are those up to an
earlier one, and those after it. -/
theorem upTo_eq_append (ps : Points α) (hcd : c ≤ d) :
    ps.upTo d = ps.upTo c ++ upTo (ps.rest (some c)) d := by
  unfold upTo rest
  induction ps with
  | nil => rfl
  | cons p ps ih =>
    by_cases hp : p.time ≤ c
    · have hd : p.time ≤ d := Int.le_trans hp hcd
      simp [hp, hd, ih]
    · simp [hp]

/-- `rest (ps.rest (some c)) (some d) = ps.rest (some d)`: what is left after a date, of what is
left after an earlier one. -/
theorem rest_rest (ps : Points α) (hcd : c ≤ d) :
    rest (ps.rest (some c)) (some d) = ps.rest (some d) := by
  unfold rest
  induction ps with
  | nil => rfl
  | cons p ps ih =>
    by_cases hp : p.time ≤ c
    · have hd : p.time ≤ d := Int.le_trans hp hcd
      simpa [hp, hd] using ih
    · simp [hp]

/-- `(carried? (ps.rest (some c)) d).or (ps.carried? c) = ps.carried? d`: what is carried forward to
a date, taken up at an earlier one. -/
theorem carried?_rest (ps : Points α) (hcd : c ≤ d) :
    (carried? (ps.rest (some c)) d).or (ps.carried? c) = ps.carried? d := by
  unfold carried? asOf?
  rw [ps.upTo_eq_append hcd, List.getLast?_append, Option.map_or]

/-- `valueAt? (ps.rest (some c)) d = ps.valueAt? d`: a value is found among what is left after an
earlier date. -/
theorem valueAt?_rest (ps : Points α) (hcd : c < d) :
    valueAt? (ps.rest (some c)) d = ps.valueAt? d := by
  unfold rest
  induction ps with
  | nil => rfl
  | cons p ps ih =>
    by_cases hp : p.time ≤ c
    · have hne : p.time ≠ d := Int.ne_of_lt (Int.lt_of_le_of_lt hp hcd)
      simpa [hp, valueAt?_cons_of_ne hne] using ih
    · simp [hp]

/-- `(ps.dropWhile fun p => decide (p.time ≤ c)) = ps.filter fun p => decide (c < p.time)`: of
points in order, those after a date are an end. -/
theorem Increasing.dropWhile_eq_filter (hps : ps.Increasing) (c : Instant) :
    (ps.dropWhile fun p => decide (p.time ≤ c)) = ps.filter fun p => decide (c < p.time) := by
  induction ps with
  | nil => rfl
  | cons p ps ih =>
    obtain ⟨hp, hps⟩ := increasing_cons.1 hps
    by_cases hc : p.time ≤ c
    · rw [List.dropWhile_cons_of_pos (by exact decide_eq_true hc), ih hps,
        List.filter_cons_of_neg (by exact fun hlt => Int.not_lt.2 hc (of_decide_eq_true hlt))]
    · -- all later points come after the date as well
      have hall : ∀ q ∈ p :: ps, decide (c < q.time) = true := by
        refine List.forall_mem_cons.2 ⟨decide_eq_true (Int.not_le.1 hc), fun q hq => ?_⟩
        exact decide_eq_true (Int.lt_trans (Int.not_le.1 hc) (hp q hq))
      rw [List.dropWhile_cons_of_neg (by exact fun hle => hc (of_decide_eq_true hle)),
        List.filter_eq_self.2 hall]

/-- What is left of points in order is in order: `(ps.rest previous).Increasing`. -/
theorem Increasing.rest (hps : ps.Increasing) (previous : Option Instant) :
    (ps.rest previous).Increasing := by
  cases previous with
  | none => exact hps
  | some c => exact hps.sublist (List.dropWhile_sublist _)

/-- **The points up to a date, of those that are left, are its interval**:
`((ps.rest previous).takeWhile fun p => decide (p.time ≤ d)) = ps.interval previous d`. -/
theorem Increasing.takeWhile_rest (hps : ps.Increasing) (previous : Option Instant) (d : Instant) :
    ((ps.rest previous).takeWhile fun p => decide (p.time ≤ d)) = ps.interval previous d := by
  rw [← upTo, ← (hps.rest previous).filter_le_eq_upTo, interval]
  cases previous with
  | none => rfl
  | some c =>
    rw [Points.rest, hps.dropWhile_eq_filter, List.filter_filter]
    exact List.filter_congr fun p _ => Bool.and_comm _ _

/-- `((ps.rest previous).dropWhile fun p => decide (p.time ≤ d)) = ps.rest (some d)`: the points
after a date, of those that are left. -/
theorem Increasing.dropWhile_rest (hps : ps.Increasing) (hd : ∀ c ∈ previous, c < d) :
    ((ps.rest previous).dropWhile fun p => decide (p.time ≤ d)) = ps.rest (some d) := by
  cases previous with
  | none => rfl
  | some c =>
    rw [(hps.rest (some c)).dropWhile_eq_filter, Points.rest, Points.rest,
      hps.dropWhile_eq_filter, hps.dropWhile_eq_filter, List.filter_filter]
    refine List.filter_congr fun p _ => ?_
    -- what comes after the later date comes after the earlier one
    have hlt : d < p.time → c < p.time := Int.lt_trans (hd c rfl)
    rw [← Bool.decide_and]
    exact decide_eq_decide.2 ⟨And.left, fun h => ⟨h, hlt h⟩⟩

/-- `ps.beforeInterval (some d) = ps.beforeInterval previous ++ ps.interval previous d`: up to a
date there are the points before its interval and those of it. -/
theorem Increasing.beforeInterval_append (hps : ps.Increasing) (hd : ∀ c ∈ previous, c < d) :
    ps.beforeInterval (some d) = ps.beforeInterval previous ++ ps.interval previous d := by
  cases previous with
  | none => exact (List.filter_congr fun p _ => (Bool.true_and _).symm : _ = ps.interval none d)
  | some c =>
    have hcd : c < d := hd c rfl
    have hbefore : (ps.filter fun p => decide (p.time ≤ c)).filter (fun p => decide (p.time ≤ d)) =
        ps.filter fun p => decide (p.time ≤ c) := by
      refine List.filter_eq_self.2 fun p hp => decide_eq_true ?_
      exact Int.le_trans (of_decide_eq_true (List.mem_filter.1 hp).2) (Int.le_of_lt hcd)
    have hafter : (ps.dropWhile fun p => decide (p.time ≤ c)).filter
        (fun p => decide (p.time ≤ d)) = ps.interval (some c) d := by
      rw [← hps.takeWhile_rest, ← upTo, ← (hps.rest (some c)).filter_le_eq_upTo]
      rfl
    calc ps.filter (fun p => decide (p.time ≤ d))
        = ((ps.filter fun p => decide (p.time ≤ c)) ++
            ps.dropWhile fun p => decide (p.time ≤ c)).filter
              (fun p => decide (p.time ≤ d)) := by rw [hps.filter_le_append c]
      _ = (ps.filter fun p => decide (p.time ≤ c)) ++ ps.interval (some c) d := by
          rw [List.filter_append, hbefore, hafter]

end Points

/-! ## (3) The cursor and the intervals -/

variable [Scalar α]

/-- `policy.isAggregating = true ↔ policy = .arithmetic ∨ policy = .geometric`: the policies by
their names are those that fold whole intervals. -/
theorem Policy.isAggregating_iff {policy : Policy} :
    policy.isAggregating = true ↔ policy = .arithmetic ∨ policy = .geometric := by
  cases policy <;> decide

/-- `policy.fold? period = policy.ofInterval? period.values`: the value of a period is that of an
interval with its values. -/
theorem Policy.fold?_eq_ofInterval? (policy : Policy) (period : Points α) :
    policy.fold? period = policy.ofInterval? period.values := by
  cases policy with
  | lastValue => exact (List.getLast?_map ..).symm
  | geometric =>
    rw [fold?, ofInterval?, Scalar.productLeft, List.foldl_map]
  | arithmetic => rfl
  | drop => rfl
  | zero => rfl

/-- `policy.fill? (before.getLast?.map Point.value) = policy.ofGap? before.values`: the value of a
gap, given the last value before it. -/
theorem Policy.fill?_eq_ofGap? (policy : Policy) (before : Points α) :
    policy.fill? (before.getLast?.map Point.value) = policy.ofGap? before.values := by
  cases policy with
  | lastValue => exact (List.getLast?_map ..).symm
  | zero => rfl
  | drop => rfl
  | arithmetic => rfl
  | geometric => rfl

/-- `(ps.any fun q => q.time == t && q.value == 0) = (ps.valueAt? t).any fun v => v == 0`: points in
order have the value zero at a time just when it is found there. -/
theorem Points.Increasing.any_zero (hps : ps.Increasing) (t : Instant) :
    (ps.any fun q => q.time == t && q.value == 0) = (ps.valueAt? t).any fun v => v == 0 := by
  rw [Bool.eq_iff_iff, List.any_eq_true, Option.any_eq_true]
  constructor
  · rintro ⟨q, hq, hzero⟩
    obtain ⟨htime, hvalue⟩ := Bool.and_eq_true_iff.1 hzero
    obtain rfl := eq_of_beq htime
    exact ⟨q.value, hps.valueAt?_eq_some_iff.2 hq, hvalue⟩
  · rintro ⟨v, hv, hzero⟩
    refine ⟨⟨t, v⟩, hps.valueAt?_eq_some_iff.1 hv, ?_⟩
    rw [beq_self_eq_true, Bool.true_and]
    exact hzero

namespace Schedule

variable {s : Schedule} {h : Header}

/-- **The value of a date**, from the points of its interval and the last value before it. -/
theorem valueOn?_eq_valueByInterval? (s : Schedule) (h : Header) (ps : Points α) (i : Nat)
    (d : Instant) :
    h.valueOn? (s.isIncomplete i) ((ps.beforeInterval (s.previous? i)).getLast?.map Point.value)
      (ps.interval (s.previous? i) d) = s.valueByInterval? h ps i d := by
  unfold Header.valueOn? valueByInterval?
  rw [h.upsample.fill?_eq_ofGap?, h.downsample.fold?_eq_ofInterval?]
  simp only [List.isEmpty_iff, Bool.and_eq_true, Policy.isAggregating_iff]

/-- `s.previous? before.length = before.getLast?`: the date before the rest of the dates. -/
theorem previous?_length {before dates : List Instant} (hdates : s.dates = before ++ dates) :
    s.previous? before.length = before.getLast? := by
  obtain rfl | ⟨earlier, c, rfl⟩ := List.eq_nil_or_concat' before
  · rfl
  · rw [previous?, List.length_append, List.length_singleton, if_neg (Nat.succ_ne_zero _), hdates,
      Nat.add_sub_cancel, List.getLast?_concat, List.append_assoc, List.getElem?_append_right
      (Nat.le_refl _), Nat.sub_self]
    rfl

/-- **From a date on**, with the points that are left after the date before it and the last value
up to there, the cursor makes the same as the intervals. -/
theorem resampleFrom_eq (hs : s.dates.Pairwise (· < ·)) (hps : ps.Increasing)
    {before dates : List Instant} (hdates : s.dates = before ++ dates) :
    resampleFrom h s.endIncomplete (before.isEmpty && s.beginIncomplete)
      ((ps.beforeInterval before.getLast?).getLast?.map Point.value)
      (ps.rest before.getLast?) dates =
    (dates.zipIdx before.length).filterMap fun date =>
      (s.valueByInterval? h ps date.2 date.1).map fun v => ⟨date.1, v⟩ := by
  induction dates generalizing before with
  | nil => rfl
  | cons d dates ih =>
    have hlater : ∀ c ∈ before.getLast?, c < d := by
      intro c hc
      rw [hdates, List.pairwise_append] at hs
      exact hs.2.2 c (List.mem_of_getLast? hc) d List.mem_cons_self
    have hcut : ((before.isEmpty && s.beginIncomplete) || (dates.isEmpty && s.endIncomplete)) =
        s.isIncomplete before.length := by
      rw [isIncomplete, hdates, List.length_append, List.length_cons]
      cases before <;> cases dates <;> simp
    -- the points that are left for the next date, and the last value before it
    have hrest : s.dates = (before ++ [d]) ++ dates := by rw [hdates, List.append_cons]
    have hnext := ih hrest
    have hstarted : (before ++ [d]).isEmpty = false := by
      rw [List.isEmpty_eq_false_iff]
      exact List.append_ne_nil_of_right_ne_nil before (List.cons_ne_nil d [])
    rw [List.getLast?_concat, hps.beforeInterval_append hlater, List.getLast?_append,
      Option.map_or, hstarted, Bool.false_and, List.length_append, List.length_singleton] at hnext
    have hvalue : h.valueOn? (s.isIncomplete before.length)
        ((ps.beforeInterval before.getLast?).getLast?.map Point.value)
        (ps.interval before.getLast? d) = s.valueByInterval? h ps before.length d := by
      rw [← previous?_length hdates, valueOn?_eq_valueByInterval?]
    rw [resampleFrom, List.zipIdx_cons, List.filterMap_cons]
    dsimp only
    rw [hps.takeWhile_rest, hps.dropWhile_rest hlater, hcut, hvalue, hnext]
    cases s.valueByInterval? h ps before.length d with
    | none => rfl
    | some v => rfl

/-- **Points moved onto dates in order** are what their intervals make of them:
`s.resample h ps = s.byIntervals h ps`. -/
theorem resample_eq_byIntervals (hs : s.dates.Pairwise (· < ·)) (h : Header)
    (hps : ps.Increasing) : s.resample h ps = s.byIntervals h ps := by
  have hdates : s.dates = [] ++ s.dates := rfl
  exact resampleFrom_eq hs hps hdates

/-- **Points on dates in order with a weight** are those that the intervals make of both:
`s.apply h ps weight = s.weightedByIntervals h ps weight`. -/
theorem apply_eq_weightedByIntervals (hs : s.dates.Pairwise (· < ·)) (h : Header)
    (hps : ps.Increasing) {weight : Option (Series α)} (hweight : ∀ w ∈ weight, w.Increasing) :
    s.apply h ps weight = s.weightedByIntervals h ps weight := by
  cases weight with
  | none => exact resample_eq_byIntervals hs h hps
  | some w =>
    rw [weightedByIntervals, ← resample_eq_byIntervals hs h hps,
      ← resample_eq_byIntervals hs w.header (hweight w rfl)]
    refine List.filter_congr fun p _ => ?_
    rw [(increasing_resample hs w.header w.points).any_zero]
    cases (s.resample w.header w.points).valueAt? p.time with
    | none => rfl
    | some v => rfl

/-- Points on dates are on some of the dates, each once and in their order:
`(s.apply h ps weight).times.Sublist s.dates`. -/
theorem times_apply_sublist (s : Schedule) (h : Header) (ps : Points α)
    (weight : Option (Series α)) : (s.apply h ps weight).times.Sublist s.dates := by
  cases weight with
  | none => exact times_resampleFrom_sublist
  | some w => exact (List.filter_sublist.map Point.time).trans times_resampleFrom_sublist

/-- **A series moved onto whatever dates**, in whatever order and however often given: it has at
most one point for each of them, in order, and these are what the intervals make of the series and
of its weight. The values of the weight on the dates may be searched for by halving. -/
theorem apply_ofDates (dates : List Instant) (beginIncomplete endIncomplete : Bool) (h : Header)
    (hps : ps.Increasing) {weight : Option (Series α)} (hweight : ∀ w ∈ weight, w.Increasing) :
    let s := ofDates dates beginIncomplete endIncomplete
    s.dates.Pairwise (· < ·) ∧ (∀ t, t ∈ s.dates ↔ t ∈ dates) ∧
      (s.apply h ps weight).times.Sublist s.dates ∧
      (∀ w ∈ weight, (s.resample w.header w.points).Searchable) ∧
      s.apply h ps weight = s.weightedByIntervals h ps weight := by
  have hs : (ofDates dates beginIncomplete endIncomplete).dates.Pairwise (· < ·) :=
    distinctSorted_pairwise dates
  exact ⟨hs, fun t => mem_distinctSorted, times_apply_sublist _ h ps weight,
    fun w _ => (increasing_resample hs w.header w.points).searchable,
    apply_eq_weightedByIntervals hs h hps hweight⟩

/-- The sums of two periods of three: the first one is incomplete, and on the date of the last one,
which has no points, the weight is zero. -/
theorem apply_ofDates_sums :
    Points.Increasing [⟨5, 1⟩, ⟨12, 2⟩, ⟨15, (3 : Rat)⟩] ∧
    (ofDates [30, 10, 20, 20] true false).apply
      { upsample := .zero, downsample := .arithmetic } [⟨5, 1⟩, ⟨12, 2⟩, ⟨15, (3 : Rat)⟩]
      (some ⟨.labelled "Weight", [⟨12, 1⟩, ⟨25, 0⟩], true⟩) = [⟨20, 5⟩] := by
  have hpoints : Points.Increasing [⟨5, 1⟩, ⟨12, 2⟩, ⟨15, (3 : Rat)⟩] := by decide
  have hweight : ∀ w ∈ some (⟨.labelled "Weight", [⟨12, 1⟩, ⟨25, (0 : Rat)⟩], true⟩ : Series Rat),
      w.Increasing := by
    rintro w ⟨⟩
    decide
  have hdates : ofDates [30, 10, 20, 20] true false = ⟨[10, 20, 30], true, false⟩ := by cbv
  obtain ⟨-, -, -, -, happly⟩ := apply_ofDates [30, 10, 20, 20] true false
    { upsample := .zero, downsample := .arithmetic } hpoints hweight
  refine ⟨hpoints, ?_⟩
  rw [happly, hdates]
  decide +kernel

end Schedule

end PanelQuery
