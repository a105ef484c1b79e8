import Mathlib.Data.List.Forall2
import PanelQuery.Alignment
import PanelQuery.Proofs.Series.OnDates

/-! # Common dates

Series that are aligned share the dates of the first one, from the date on at which each of them has
a value. Nothing that is known later changes this.

* **`Series.commonDates`** — these dates;
* **`Series.times_of_mem_alignCommon`** — every aligned series has exactly these dates;
* **`Series.alignCommon_cutAt`** — aligned series that are cut are cut series that are aligned;
* **`Series.clock`, `Series.Follows`** — the common dates and the values on them, told by
  observations;
* **`Series.follows_alignCommon`** — aligned series follow the given ones on one clock. -/

namespace PanelQuery

variable {α : Type}

/-! ## (1) Dates in order -/

section Dates

variable {ts : List Instant} {P Q : Instant → Bool}

/-- Once a condition fails that fails from some time on, it fails for all dates that follow:
`∀ t ∈ ts.dropWhile P, P t = false`. -/
theorem forall_mem_dropWhile (h : ts.Pairwise (· < ·))
    (hP : ∀ t t', t ≤ t' → P t = false → P t' = false) : ∀ t ∈ ts.dropWhile P, P t = false := by
  induction ts with
  | nil => exact List.forall_mem_nil _
  | cons t ts ih =>
    obtain ⟨ht, hts⟩ := List.pairwise_cons.1 h
    by_cases hPt : P t = true
    · rw [List.dropWhile_cons_of_pos hPt]
      exact ih hts
    · rw [List.dropWhile_cons_of_neg hPt]
      have hfalse : P t = false := Bool.of_not_eq_true hPt
      exact List.forall_mem_cons.2 ⟨hfalse, fun t' ht' =>
        hP t t' (Int.le_of_lt (ht t' ht')) hfalse⟩

/-- **Dropping dates and cutting dates off may change places**, as long as dates up to the cut are
dropped alike: `(ts.filter fun t => decide (t ≤ d)).dropWhile P` is
`(ts.dropWhile Q).filter fun t => decide (t ≤ d)`. -/
theorem dropWhile_filter_le (h : ts.Pairwise (· < ·)) {d : Instant}
    (hPQ : ∀ t, t ≤ d → P t = Q t) :
    (ts.filter fun t => decide (t ≤ d)).dropWhile P =
      (ts.dropWhile Q).filter fun t => decide (t ≤ d) := by
  induction ts with
  | nil => rfl
  | cons t ts ih =>
    obtain ⟨ht, hts⟩ := List.pairwise_cons.1 h
    by_cases hd : t ≤ d
    · rw [List.filter_cons_of_pos (by exact decide_eq_true hd)]
      by_cases hQ : Q t = true
      · rw [List.dropWhile_cons_of_pos ((hPQ t hd).trans hQ), List.dropWhile_cons_of_pos hQ]
        exact ih hts
      · rw [List.dropWhile_cons_of_neg (by rwa [hPQ t hd]), List.dropWhile_cons_of_neg hQ,
          List.filter_cons_of_pos (by exact decide_eq_true hd)]
    · -- all dates are behind the cut
      have hall : ∀ t' ∈ t :: ts, ¬decide (t' ≤ d) = true := by
        intro t' ht' hle
        have hle : t' ≤ d := of_decide_eq_true hle
        rcases List.mem_cons.1 ht' with rfl | ht'
        · exact hd hle
        · exact hd (Int.le_trans (Int.le_of_lt (ht t' ht')) hle)
      rw [List.filter_eq_nil_iff.2 hall, List.filter_eq_nil_iff.2 fun t' ht' =>
        hall t' ((List.dropWhile_sublist Q).subset ht')]
      rfl

end Dates

namespace Series

/-! ## (2) Aligned series -/

/-- `commonDates driver all`: the dates of a driver from the one on at which all series have a
value. -/
def commonDates (driver : Series α) (all : List (Series α)) : List Instant :=
  driver.points.times.dropWhile fun d => !all.all fun s => (s.points.carried? d).isSome

/-- `carriedTo dates s`: a series with the values that it carries forward to some dates. -/
def carriedTo (dates : List Instant) (s : Series α) : Series α :=
  s.withPoints (dates.filterMap fun d => (s.points.carried? d).map fun v => ⟨d, v⟩)

/-- Aligned series carry their values forward to the common dates: `alignCommon (driver :: others)`
is `(driver :: others).map (carriedTo (commonDates driver (driver :: others)))`. -/
theorem alignCommon_cons [Scalar α] (driver : Series α) (others : List (Series α)) :
    alignCommon (driver :: others) =
      (driver :: others).map (carriedTo (commonDates driver (driver :: others))) :=
  rfl

/-- Common dates are in order: `(commonDates driver all).Pairwise (· < ·)`. -/
theorem commonDates_pairwise {driver : Series α} (h : driver.Increasing) (all : List (Series α)) :
    (commonDates driver all).Pairwise (· < ·) :=
  (Points.increasing_iff_times.1 h).sublist (List.dropWhile_sublist _)

/-- On common dates all series have a value: `(s.points.carried? d).isSome`. -/
theorem isSome_carried?_of_mem_commonDates {driver : Series α} (h : driver.Increasing)
    {all : List (Series α)} {s : Series α} (hs : s ∈ all) {d : Instant}
    (hd : d ∈ commonDates driver all) : (s.points.carried? d).isSome := by
  -- a series that has a value at one date has one at all later dates
  have hnot := forall_mem_dropWhile (Points.increasing_iff_times.1 h)
    (fun t t' ht hall => ?_) d hd
  · rw [Bool.not_eq_false'] at hnot
    exact List.all_eq_true.1 hnot s hs
  · rw [Bool.not_eq_false'] at hall ⊢
    refine List.all_eq_true.2 fun s' hs' => ?_
    exact Points.isSome_carried?_mono ht (List.all_eq_true.1 hall s' hs')

/-- `(s.carriedTo dates).points = Points.onDates dates s.points.carried?`: the points of a series on
dates in order. -/
theorem points_carriedTo {dates : List Instant} (h : dates.Pairwise (· < ·)) (s : Series α) :
    (s.carriedTo dates).points = Points.onDates dates s.points.carried? :=
  Points.ofWrites_of_increasing (Points.increasing_onDates h s.points.carried?)

/-- `(s.carriedTo (commonDates driver all)).points.times = commonDates driver all`: a series that is
moved to the common dates has a value on each of them. -/
theorem times_carriedTo {driver : Series α} (h : driver.Increasing) {all : List (Series α)}
    {s : Series α} (hs : s ∈ all) :
    (s.carriedTo (commonDates driver all)).points.times = commonDates driver all := by
  rw [points_carriedTo (commonDates_pairwise h _)]
  exact Points.times_onDates fun d hd => isSome_carried?_of_mem_commonDates h hs hd

/-- **Every aligned series has exactly the common dates**:
`s.points.times = commonDates driver (driver :: others)`. -/
theorem times_of_mem_alignCommon [Scalar α] {driver : Series α} (h : driver.Increasing)
    {others : List (Series α)} {s : Series α} (hs : s ∈ alignCommon (driver :: others)) :
    s.points.times = commonDates driver (driver :: others) := by
  rw [alignCommon_cons] at hs
  obtain ⟨s', hs', rfl⟩ := List.mem_map.1 hs
  exact times_carriedTo h hs'

/-! ## (3) Cuts -/

/-- `(s.cutAt d).points.carried? t = s.points.carried? t`: what a cut series carries forward to a
time before the cut. -/
theorem carried?_cutAt {s : Series α} (h : s.Increasing) {t d : Instant} (ht : t ≤ d) :
    (s.cutAt d).points.carried? t = s.points.carried? t := by
  show Points.carried? (s.points.filter _) t = _
  rw [Points.Increasing.filter_le_eq_upTo h, Points.carried?_upTo ht]

/-- **Common dates of cut series** are the common dates up to the cut:
`commonDates (driver.cutAt d) (all.map (cutAt d))` is
`(commonDates driver all).filter fun t => decide (t ≤ d)`. -/
theorem commonDates_cutAt {driver : Series α} (h : driver.Increasing) {all : List (Series α)}
    (hall : ∀ s ∈ all, s.Increasing) (d : Instant) :
    commonDates (driver.cutAt d) (all.map (cutAt d)) =
      (commonDates driver all).filter fun t => decide (t ≤ d) := by
  unfold commonDates
  rw [show (driver.cutAt d).points.times = _ from Points.times_filter_le driver.points d]
  refine dropWhile_filter_le (Points.increasing_iff_times.1 h) fun t ht => ?_
  -- up to the cut, all series have a value just when all cut ones have
  have hsame : ∀ s ∈ all, ((s.cutAt d).points.carried? t).isSome = (s.points.carried? t).isSome :=
    fun s hs => congrArg Option.isSome (carried?_cutAt (hall s hs) ht)
  rw [List.all_map]
  refine congrArg (! ·) (Bool.eq_iff_iff.2 ?_)
  rw [List.all_eq_true, List.all_eq_true]
  exact forall₂_congr fun s hs => by rw [Function.comp_apply, hsame s hs]

/-- A cut series on the dates up to the cut:
`(s.cutAt d).carriedTo (dates.filter fun t => decide (t ≤ d)) = (s.carriedTo dates).cutAt d`. -/
theorem carriedTo_cutAt {dates : List Instant} (h : dates.Pairwise (· < ·)) {s : Series α}
    (hs : s.Increasing) (d : Instant) :
    (s.cutAt d).carriedTo (dates.filter fun t => decide (t ≤ d)) = (s.carriedTo dates).cutAt d := by
  have hcarried : ∀ t ∈ dates.filter fun t => decide (t ≤ d),
      (s.cutAt d).points.carried? t = s.points.carried? t := fun t ht =>
    carried?_cutAt hs (of_decide_eq_true (List.mem_filter.1 ht).2)
  have hpoints : ((s.cutAt d).carriedTo (dates.filter fun t => decide (t ≤ d))).points =
      ((s.carriedTo dates).cutAt d).points := by
    rw [points_carriedTo (h.filter _), Points.onDates_congr hcarried,
      ← Points.filter_onDates fun t => decide (t ≤ d), ← points_carriedTo h]
    rfl
  exact congrArg (Series.mk s.header · s.isWeight) hpoints

/-- **Cutting and aligning may change places**:
`alignCommon (all.map (cutAt d)) = (alignCommon all).map (cutAt d)`. -/
theorem alignCommon_cutAt [Scalar α] {all : List (Series α)} (h : ∀ s ∈ all, s.Increasing)
    (d : Instant) : alignCommon (all.map (cutAt d)) = (alignCommon all).map (cutAt d) := by
  cases all with
  | nil => rfl
  | cons driver others =>
    have hdriver : driver.Increasing := h driver List.mem_cons_self
    rw [List.map_cons, alignCommon_cons, alignCommon_cons, ← List.map_cons,
      commonDates_cutAt hdriver h, List.map_map, List.map_map]
    refine List.map_congr_left fun s hs => ?_
    exact carriedTo_cutAt (commonDates_pairwise hdriver _) (h s hs) d

/-! ## (4) One clock -/

/-- `clock driver all`: the dates of a driver from the first one on up to which every series has an
observation; none if there is no such date. -/
def clock (driver : Series α) (all : List (Series α)) : List Instant :=
  driver.points.times.dropWhile fun d => decide ¬∀ s ∈ all, ∃ p ∈ s.points, p.time ≤ d

/-- A series that follows another one on some dates: it has the other one's description, and on each
of the dates the value of the other one's last observation up to then. -/
structure Follows (dates : List Instant) (s t : Series α) : Prop where
  header : t.header = s.header
  isWeight : t.isWeight = s.isWeight
  times : t.points.times = dates
  value : ∀ q ∈ t.points, ∃ p ∈ s.points, p.value = q.value ∧ p.time ≤ q.time ∧
    ∀ p' ∈ s.points, p'.time ≤ q.time → p'.time ≤ p.time

/-- `(s.points.carried? d).isSome ↔ ∃ p ∈ s.points, p.time ≤ d`: a series in order has a value to
carry forward once it has an observation. -/
theorem Increasing.isSome_carried?_iff {s : Series α} (h : s.Increasing) {d : Instant} :
    (s.points.carried? d).isSome ↔ ∃ p ∈ s.points, p.time ≤ d := by
  constructor
  · intro hsome
    obtain ⟨v, hv⟩ := Option.isSome_iff_exists.1 hsome
    obtain ⟨p, hp, -, hpd, -⟩ := (Points.Increasing.carried?_eq_some_iff h).1 hv
    exact ⟨p, hp, hpd⟩
  · intro hbegun
    obtain ⟨p, hp, hpd, hlast⟩ := Points.exists_last hbegun
    rw [Points.Increasing.carried?_of_last h hp hpd hlast]
    rfl

/-- **The common dates are the clock**: `commonDates driver all = clock driver all`. -/
theorem commonDates_eq_clock {all : List (Series α)} (h : ∀ s ∈ all, s.Increasing)
    (driver : Series α) : commonDates driver all = clock driver all := by
  unfold commonDates clock
  refine congrArg (List.dropWhile · driver.points.times) (funext fun d => ?_)
  have hall : (all.all fun s => (s.points.carried? d).isSome) =
      decide (∀ s ∈ all, ∃ p ∈ s.points, p.time ≤ d) := by
    rw [Bool.eq_iff_iff, List.all_eq_true, decide_eq_true_iff]
    exact forall₂_congr fun s hs => (h s hs).isSome_carried?_iff
  rw [hall, decide_not]

/-- `clock driver all = clock driver all'`: the clock of series asks for each of them, in whatever
order and how often they are listed. -/
theorem clock_congr {all all' : List (Series α)} (h : ∀ s, s ∈ all ↔ s ∈ all')
    (driver : Series α) : clock driver all = clock driver all' := by
  unfold clock
  refine congrArg (List.dropWhile · driver.points.times) (funext fun d => ?_)
  refine decide_eq_decide.2 (not_congr ?_)
  exact forall_congr' fun s => imp_congr_left (h s)

/-- A series with its values on dates in order, if it has some on each:
`Follows dates s (s.carriedTo dates)`. -/
theorem follows_carriedTo {s : Series α} (h : s.Increasing) {dates : List Instant}
    (hdates : dates.Pairwise (· < ·)) (hsome : ∀ d ∈ dates, (s.points.carried? d).isSome) :
    Follows dates s (s.carriedTo dates) where
  header := rfl
  isWeight := rfl
  times := by
    rw [points_carriedTo hdates]
    exact Points.times_onDates hsome
  value q hq := by
    rw [points_carriedTo hdates] at hq
    exact (Points.Increasing.carried?_eq_some_iff h).1 (Points.mem_onDates.1 hq).2

/-- **Aligned series follow the given ones, all on one clock**: the dates of the first one, from the
first of them on up to which every series has an observation. `List.Forall₂ (Follows (clock driver
(driver :: others))) (driver :: others) (alignCommon (driver :: others))`. -/
theorem follows_alignCommon [Scalar α] {driver : Series α} {others : List (Series α)}
    (h : ∀ s ∈ driver :: others, s.Increasing) :
    List.Forall₂ (Follows (clock driver (driver :: others))) (driver :: others)
      (alignCommon (driver :: others)) := by
  have hdriver : driver.Increasing := h driver List.mem_cons_self
  rw [alignCommon_cons, ← commonDates_eq_clock h, List.forall₂_map_right_iff, List.forall₂_same]
  exact fun s hs => follows_carriedTo (h s hs) (commonDates_pairwise hdriver _) fun d hd =>
    isSome_carried?_of_mem_commonDates hdriver hs hd

end Series

end PanelQuery
