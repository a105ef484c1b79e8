import PanelQuery.Proofs.Alignment
import PanelQuery.Proofs.Alignment.ByDates
import PanelQuery.Proofs.Resampling.Composition
import PanelQuery.Transform

/-! # Changes of a level on other dates

The changes of a level, added up over the periods of a schedule, are the changes of the level on
the dates of the schedule; and so is growth, when it is compounded. In between, the value before a
period is all that the later steps depend on.

* **`Policy.step`** — what a policy folds on the way from one value to another;
* **`Points.stepsFrom`, `Points.steps`** — the steps of a level, with and without a value before it;
* **`Points.total_stepsFrom`** — the steps of a period fold to the one step over it;
* **`Schedule.resampleFrom_stepsFrom`** — steps on dates, once the level has begun;
* **`Schedule.steps_resampleFrom`, `Schedule.steps_resample`** — steps on all dates;
* **`Series.transform_applySeries`** — both transforms, for numbers without rounding. -/

namespace PanelQuery

/-! ## (1) Steps -/

/-- What is folded on the way from one value to another: growth, or else the difference. -/
def Policy.step (policy : Policy) (u v : Rat) : Rat :=
  match policy with
  | geometric => v / u - 1
  | _ => v - u

/-- Whether a policy can step from a value: growth has no base in zero. -/
def Policy.StepsFrom (policy : Policy) (u : Rat) : Prop := policy = .geometric → u ≠ 0

namespace Policy

variable (policy : Policy) {u v : Rat}

/-- `policy.step u u = 0`: there is no step from a value to itself. -/
theorem step_self (hu : policy.StepsFrom u) : policy.step u u = 0 := by
  cases policy with
  | geometric =>
    have hu : u ≠ 0 := hu rfl
    simp [step, hu]
  | arithmetic => simp [step]
  | lastValue => simp [step]
  | drop => simp [step]
  | zero => simp [step]

/-- **Two steps are joined to one**:
`policy.join (policy.step u v) (policy.step v w) = policy.step u w`. -/
theorem join_step (hv : policy.StepsFrom v) (w : Rat) :
    policy.join (policy.step u v) (policy.step v w) = policy.step u w := by
  cases policy with
  | geometric =>
    have hv : v ≠ 0 := hv rfl
    have hmul : v / u * (w / v) = w / u := by rw [mul_comm, div_mul_div_cancel₀ hv]
    simp [step, join, hmul]
  | arithmetic => simp [step, join]
  | lastValue => simp [step, join]
  | drop => simp [step, join]
  | zero => simp [step, join]

end Policy

namespace Points

/-- `stepsFrom policy u`: the steps from a value to the first of some points, and from each to the
next. -/
def stepsFrom (policy : Policy) (u : Rat) : Points Rat → Points Rat
  | [] => []
  | p :: ps => ⟨p.time, policy.step u p.value⟩ :: stepsFrom policy p.value ps

/-- The steps from each of some points to the next. -/
def steps (policy : Policy) : Points Rat → Points Rat
  | [] => []
  | p :: ps => stepsFrom policy p.value ps

/-- **Changes are steps**: `ps.changes = ps.steps .arithmetic`. -/
theorem changes_eq_steps (ps : Points Rat) : ps.changes = ps.steps .arithmetic := by
  cases ps with
  | nil => rfl
  | cons p ps =>
    induction ps generalizing p with
    | nil => rfl
    | cons q ps ih => exact congrArg (_ :: ·) (ih q)

/-- **Growth is in steps**, when no value is zero: `ps.growth = ps.steps .geometric`. -/
theorem growth_eq_steps {ps : Points Rat} (h : ∀ p ∈ ps, p.value ≠ 0) :
    ps.growth = ps.steps .geometric := by
  cases ps with
  | nil => rfl
  | cons p ps =>
    induction ps generalizing p with
    | nil => rfl
    | cons q ps ih =>
      obtain ⟨hp, hps⟩ := List.forall_mem_cons.1 h
      have hbase : (p.value == 0) = false := beq_eq_false_iff_ne.2 hp
      rw [growth, List.tail_cons, List.zip_cons_cons, List.filterMap_cons]
      simp only [hbase, Bool.false_eq_true, if_false]
      exact congrArg (_ :: ·) (ih q hps)

variable (policy : Policy) (u : Rat) (ps : Points Rat) (d : Instant)

/-- `(ps.stepsFrom policy u).upTo d = (ps.upTo d).stepsFrom policy u`: the steps up to a date are
those of the points up to it. -/
theorem upTo_stepsFrom : (ps.stepsFrom policy u).upTo d = (ps.upTo d).stepsFrom policy u := by
  unfold upTo
  induction ps generalizing u with
  | nil => rfl
  | cons p ps ih => by_cases hp : p.time ≤ d <;> simp [stepsFrom, hp, ih]

/-- The steps after a date begin with what is carried forward to it:
`rest (ps.stepsFrom policy u) (some d)` is
`(ps.rest (some d)).stepsFrom policy ((ps.carried? d).getD u)`. -/
theorem rest_stepsFrom :
    rest (ps.stepsFrom policy u) (some d) =
      (ps.rest (some d)).stepsFrom policy ((ps.carried? d).getD u) := by
  induction ps generalizing u with
  | nil => rfl
  | cons p ps ih =>
    by_cases hp : p.time ≤ d
    · rw [carried?_cons_of_le hp, Option.getD_some]
      simpa [stepsFrom, rest, hp] using ih p.value
    · rw [carried?, asOf?, upTo]
      simp [stepsFrom, rest, hp]

variable {policy u ps d}

/-- A policy can step from what is carried forward to a date:
`policy.StepsFrom ((ps.carried? d).getD u)`. -/
theorem stepsFrom_carried (hu : policy.StepsFrom u) (hps : ∀ p ∈ ps, policy.StepsFrom p.value)
    (d : Instant) : policy.StepsFrom ((ps.carried? d).getD u) := by
  rw [carried?, asOf?]
  cases hlast : (ps.upTo d).getLast? with
  | none => exact hu
  | some p => exact hps p ((List.takeWhile_sublist _).subset (List.mem_of_getLast? hlast))

/-- `ps.stepsFrom policy u = [] ↔ ps = []`: a period of steps is empty just when the period is. -/
theorem stepsFrom_eq_nil_iff : ps.stepsFrom policy u = [] ↔ ps = [] := by
  cases ps with
  | nil => simp [stepsFrom]
  | cons p ps => simp [stepsFrom]

/-- **The steps of a period fold to the one step** from the value before it to its last value:
`policy.total (ps.stepsFrom policy u) = policy.step u ((ps.getLast?.map Point.value).getD u)`. -/
theorem total_stepsFrom (hu : policy.StepsFrom u) (hps : ∀ p ∈ ps, policy.StepsFrom p.value) :
    policy.total (ps.stepsFrom policy u) =
      policy.step u ((ps.getLast?.map Point.value).getD u) := by
  induction ps generalizing u with
  | nil => rw [stepsFrom, Policy.total_nil]; exact (policy.step_self hu).symm
  | cons p ps ih =>
    obtain ⟨hp, hps⟩ := List.forall_mem_cons.1 hps
    have hlast : ((p :: ps).getLast?.map Point.value).getD u =
        (ps.getLast?.map Point.value).getD p.value := by
      rw [List.getLast?_cons]
      cases ps.getLast? <;> rfl
    rw [stepsFrom, ← List.singleton_append, Policy.total_append, Policy.total_singleton, ih hp hps,
      policy.join_step hp, hlast]

/-- `ps.carried? d = none ∧ ps.rest (some d) = ps`: points that all come later are not carried, and
are all left. -/
theorem carried?_rest_of_forall_lt (h : ∀ p ∈ ps, d < p.time) :
    ps.carried? d = none ∧ ps.rest (some d) = ps :=
  ⟨carried?_eq_none fun p hp => Int.not_le.2 (h p hp),
    (upTo_append_of_le (List.forall_mem_nil fun p : Point Rat => p.time ≤ d) h).2⟩

end Points

/-! ## (2) Steps on dates -/

/-- The header of a level: its last value stands in a gap, and for a period. -/
def Header.IsLevel (h : Header) : Prop := h.upsample = .lastValue ∧ h.downsample = .lastValue

instance (h : Header) : Decidable h.IsLevel := inferInstanceAs (Decidable (_ ∧ _))

/-- The header of steps: they are folded over a period, and there is none in a gap. -/
def Header.IsFlow (h : Header) : Prop :=
  h.upsample = .zero ∧ (h.downsample = .arithmetic ∨ h.downsample = .geometric)

namespace Schedule

variable {level flow : Header} {ps : Points Rat} {dates : List Instant}

/-- A level on dates: on the first of them it has the last value up to there. -/
theorem resampleFrom_level (hlevel : level.IsLevel) (before : Option Rat) (ps : Points Rat)
    (d : Instant) (dates : List Instant) :
    resampleFrom level false false before ps (d :: dates) =
      pointOn d ((ps.carried? d).or before) ++
        resampleFrom level false false ((ps.carried? d).or before) (ps.rest (some d)) dates := by
  rw [resampleFrom_cons, level.valueOn?_of_lastValue hlevel.2, hlevel.1]
  rfl

/-- **Steps on dates, once the level has begun**: they are the steps of the level on the dates,
whatever came before. `resampleFrom flow false false before (ps.stepsFrom flow.downsample u) dates`
is `(resampleFrom level false false (some u) ps dates).stepsFrom flow.downsample u`. -/
theorem resampleFrom_stepsFrom (hlevel : level.IsLevel) (hflow : flow.IsFlow) {u : Rat}
    (hu : flow.downsample.StepsFrom u) (hps : ∀ p ∈ ps, flow.downsample.StepsFrom p.value)
    (before : Option Rat) :
    resampleFrom flow false false before (ps.stepsFrom flow.downsample u) dates =
      (resampleFrom level false false (some u) ps dates).stepsFrom flow.downsample u := by
  induction dates generalizing u ps before with
  | nil => rfl
  | cons d dates ih =>
    have hblock : ∀ p ∈ ps.upTo d, flow.downsample.StepsFrom p.value :=
      fun p hp => hps p ((List.takeWhile_sublist _).subset hp)
    have hlater : ∀ p ∈ ps.rest (some d), flow.downsample.StepsFrom p.value :=
      fun p hp => hps p ((List.dropWhile_sublist _).subset hp)
    have hcarried : (ps.carried? d).or (some u) = some ((ps.carried? d).getD u) := by
      cases ps.carried? d <;> rfl
    -- the period folds to one step, which is none in a gap
    have hvalue : flow.valueOn? false before ((ps.upTo d).stepsFrom flow.downsample u) =
        some (flow.downsample.step u ((ps.carried? d).getD u)) := by
      rw [flow.valueOn?_of_flow hflow.2, Points.total_stepsFrom hu hblock, Points.carried?,
        Points.asOf?]
      simp only [Points.stepsFrom_eq_nil_iff]
      split
      next hempty =>
        rw [hempty, hflow.1]
        exact congrArg some (flow.downsample.step_self hu).symm
      next => rfl
    rw [resampleFrom_cons, Points.upTo_stepsFrom, Points.rest_stepsFrom, hvalue,
      resampleFrom_level hlevel, hcarried, ih (Points.stepsFrom_carried hu hps d) hlater]
    rfl

/-- `before? s d`: the date before another, if there is one. -/
def before? (s : Schedule) (d : Instant) : Option Instant :=
  (s.dates.takeWhile fun c => decide (c < d)).getLast?

/-- `sinceBegun s series out`: the points on those dates for which a series has begun by the date
before. -/
def sinceBegun (s : Schedule) (series : Series Rat) (out : Series Rat) : Series Rat :=
  out.keep fun p => (s.before? p.time).any fun c =>
    series.points.head?.any fun first => decide (first.time ≤ c)

/-- `(s.before? d).any (fun c => decide (t ≤ c)) = true ↔ ∃ c ∈ s.dates, c < d ∧ t ≤ c`: some date
before another comes after an instant just when the last of them does. -/
theorem any_before?_iff {s : Schedule} (hs : s.dates.Pairwise (· < ·)) (d t : Instant) :
    (s.before? d).any (fun c => decide (t ≤ c)) = true ↔ ∃ c ∈ s.dates, c < d ∧ t ≤ c := by
  rw [before?, Option.any_eq_true]
  constructor
  · rintro ⟨c, hc, htc⟩
    have hmem := List.mem_of_getLast? hc
    have hcd : decide (c < d) = true := List.mem_takeWhile_imp (p := fun c => decide (c < d)) hmem
    exact ⟨c, (List.takeWhile_sublist _).subset hmem, of_decide_eq_true hcd, of_decide_eq_true htc⟩
  · rintro ⟨c, hc, hcd, htc⟩
    -- no date before the other is passed over
    have hmem : c ∈ s.dates.takeWhile fun c => decide (c < d) := by
      rw [← List.takeWhile_append_dropWhile (p := fun c => decide (c < d)) (l := s.dates)] at hc
      refine (List.mem_append.1 hc).resolve_right fun hlate => ?_
      have hnot := forall_mem_dropWhile hs (fun t t' htt' ht => ?_) c hlate
      · exact absurd hcd (of_decide_eq_false hnot)
      · exact decide_eq_false fun hlt =>
          of_decide_eq_false ht (Int.lt_of_le_of_lt htt' hlt)
    have hordered : (s.dates.takeWhile fun c => decide (c < d)).Pairwise (· ≤ ·) :=
      (hs.sublist (List.takeWhile_sublist _)).imp Int.le_of_lt
    refine ⟨_, List.getLast?_eq_some_getLast (List.ne_nil_of_mem hmem), decide_eq_true ?_⟩
    exact Int.le_trans htc (hordered.rel_getLast_of_rel_getLast_getLast hmem (Int.le_refl _))

/-- **Steps on all dates**: those of the dates before which the level has begun are the steps of the
level on the dates. -/
theorem steps_resampleFrom (hlevel : level.IsLevel) (hflow : flow.IsFlow)
    (hdates : dates.Pairwise (· < ·)) {p : Point Rat} (hinc : Points.Increasing (p :: ps))
    (hps : ∀ q ∈ p :: ps, flow.downsample.StepsFrom q.value) (before : Option Rat)
    {test : Instant → Bool}
    (htest : ∀ d ∈ dates, test d = true ↔ ∃ c ∈ dates, c < d ∧ p.time ≤ c) :
    (resampleFrom flow false false before (Points.steps flow.downsample (p :: ps)) dates).filter
        (fun q => test q.time) =
      (resampleFrom level false false none (p :: ps) dates).steps flow.downsample := by
  induction dates generalizing before with
  | nil => rfl
  | cons d dates ih =>
    obtain ⟨hd, hdates⟩ := List.pairwise_cons.1 hdates
    -- no date comes before the first one
    have hfirst : test d = false := by
      refine Bool.eq_false_iff.2 fun hyes => ?_
      obtain ⟨c, hc, hcd, -⟩ := (htest d List.mem_cons_self).1 hyes
      rcases List.mem_cons.1 hc with rfl | hc
      · exact Int.lt_irrefl _ hcd
      · exact Int.lt_irrefl _ (Int.lt_trans hcd (hd c hc))
    have hpoint : ∀ v : Option Rat, (pointOn d v).filter (fun q => test q.time) = [] := by
      intro v
      cases v <;> simp [pointOn, hfirst]
    rw [resampleFrom_cons, List.filter_append, hpoint, List.nil_append]
    obtain ⟨hp, hinc'⟩ := Points.increasing_cons.1 hinc
    by_cases hbegun : p.time ≤ d
    · -- the level begins by this date, so that all later dates have a step
      obtain ⟨hfrom, hfroms⟩ := List.forall_mem_cons.1 hps
      have hlater : ∀ q ∈ ps.rest (some d), flow.downsample.StepsFrom q.value :=
        fun q hq => hfroms q ((List.dropWhile_sublist _).subset hq)
      have hall : ∀ t ∈ dates, test t = true := fun t ht =>
        (htest t (List.mem_cons_of_mem d ht)).2 ⟨d, List.mem_cons_self, hd t ht, hbegun⟩
      have hrest : Points.rest (p :: ps) (some d) = ps.rest (some d) := by
        simp [Points.rest, hbegun]
      rw [resampleFrom_level hlevel, Points.carried?_cons_of_le hbegun, hrest, Points.steps,
        Points.rest_stepsFrom,
        List.filter_eq_self.2 fun q hq => hall _ (time_mem_of_mem_resampleFrom hq),
        resampleFrom_stepsFrom hlevel hflow (Points.stepsFrom_carried hfrom hfroms d) hlater]
      rfl
    · -- neither the level nor any step comes up to this date
      have hlate : ∀ q ∈ p :: ps, d < q.time := by
        refine List.forall_mem_cons.2 ⟨Int.not_le.1 hbegun, fun q hq => ?_⟩
        exact Int.lt_trans (Int.not_le.1 hbegun) (hp q hq)
      obtain ⟨hcarried, hrest⟩ := Points.carried?_rest_of_forall_lt hlate
      obtain ⟨hcarried', hrest'⟩ :=
        Points.carried?_rest_of_forall_lt (List.forall_mem_cons.1 hlate).2
      rw [resampleFrom_level hlevel, hcarried, hrest, Points.steps, Points.rest_stepsFrom,
        hcarried', hrest']
      refine ih hdates _ fun t ht => ?_
      rw [htest t (List.mem_cons_of_mem d ht), List.exists_mem_cons_iff]
      simp [hbegun]

/-- A level takes no values on dates but its own: `∃ p ∈ ps, p.value = q.value`. -/
theorem exists_of_mem_resample (hlevel : level.IsLevel) {s : Schedule}
    (hs : s.dates.Pairwise (· < ·)) (hflags : s.beginIncomplete = false ∧ s.endIncomplete = false)
    {q : Point Rat} (hq : q ∈ s.resample level ps) : ∃ p ∈ ps, p.value = q.value := by
  unfold resample at hq
  rw [hflags.1, hflags.2, resampleFrom_carried hlevel.2 hlevel.1 hs, Points.mem_onDates,
    Option.or_none] at hq
  obtain ⟨p, hp, hvalue⟩ := Option.map_eq_some_iff.1 hq.2
  exact ⟨p, (List.takeWhile_sublist _).subset (List.mem_of_getLast? hp), hvalue⟩

/-- **Steps on a schedule** are the steps of the level, on those dates for which the level has begun
by the date before. -/
theorem steps_resample (hlevel : level.IsLevel) (hflow : flow.IsFlow) {s : Schedule}
    (hs : s.dates.Pairwise (· < ·)) (hflags : s.beginIncomplete = false ∧ s.endIncomplete = false)
    (hinc : ps.Increasing) (hps : ∀ q ∈ ps, flow.downsample.StepsFrom q.value) :
    (s.resample flow (ps.steps flow.downsample)).filter (fun p => (s.before? p.time).any fun c =>
        ps.head?.any fun first => decide (first.time ≤ c)) =
      (s.resample level ps).steps flow.downsample := by
  cases ps with
  | nil =>
    -- without a level there are no dates on which it has begun
    have hnone : s.resample level ([] : Points Rat) = [] := by
      refine List.eq_nil_iff_forall_not_mem.2 fun q hq => ?_
      obtain ⟨p, hp, -⟩ := exists_of_mem_resample hlevel hs hflags hq
      cases hp
    rw [hnone]
    exact List.filter_eq_nil_iff.2 fun p _ => by cases s.before? p.time <;> simp
  | cons p ps =>
    unfold resample
    rw [hflags.1, hflags.2]
    exact steps_resampleFrom hlevel hflow hs hinc hps none fun d _ => any_before?_iff hs d p.time

end Schedule

/-! ## (3) The transforms -/

/-- `Analytic.exact sqrt pow`: exact rationals with whatever roots and powers, of which no change
makes use. -/
@[reducible] def Analytic.exact (sqrt : Rat → Rat) (pow : Rat → Rat → Rat) : Analytic Rat where
  sqrt
  pow

/-- Steps are in order when the points are: `(ps.steps policy).Increasing`. -/
theorem Points.Increasing.steps {ps : Points Rat} (h : ps.Increasing) (policy : Policy) :
    (ps.steps policy).Increasing := by
  have htimes : ∀ (ps : Points Rat) (u : Rat), (ps.stepsFrom policy u).times = ps.times := by
    intro ps
    induction ps with
    | nil => exact fun u => rfl
    | cons p ps ih => exact fun u => congrArg (p.time :: ·) (ih p.value)
  cases ps with
  | nil => exact h
  | cons p ps =>
    rw [Points.steps, increasing_iff_times, htimes]
    exact increasing_iff_times.1 (increasing_cons.1 h).2

namespace Series

variable (sqrt : Rat → Rat) (pow : Rat → Rat → Rat) {s : Series Rat}

/-- `(@transform Rat (.exact sqrt pow) kind window s).points = s.points.steps policy`: a transform
whose values are steps, taken of points in order. -/
theorem points_transform_of_steps {kind : Transform} {window : Nat} {policy : Policy}
    (hsteps : ∀ ps : Points Rat, (∀ p ∈ ps, policy.StepsFrom p.value) →
      @Transform.points Rat (.exact sqrt pow) kind window ps = ps.steps policy)
    (hs : s.Increasing) (hvalues : ∀ p ∈ s.points, policy.StepsFrom p.value) :
    (@transform Rat (.exact sqrt pow) kind window s).points = s.points.steps policy := by
  have hwrites := Points.ofWrites_of_increasing (Points.Increasing.steps hs policy)
  rw [← hsteps s.points hvalues] at hwrites ⊢
  exact hwrites

/-- A transform whose values are steps may be taken before a level is moved onto dates, or after. -/
theorem transform_applySeries_of_steps (kind : Transform) (window : Nat)
    (hsteps : ∀ ps : Points Rat,
      (∀ p ∈ ps, (kind.header s.header).downsample.StepsFrom p.value) →
        @Transform.points Rat (.exact sqrt pow) kind window ps =
          ps.steps (kind.header s.header).downsample)
    (hs : s.Increasing) (hlevel : s.header.IsLevel) (hflow : (kind.header s.header).IsFlow)
    (hvalues : ∀ p ∈ s.points, (kind.header s.header).downsample.StepsFrom p.value)
    (dates : List Instant) :
    let t := Schedule.ofDates dates false false
    t.sinceBegun s (t.applySeries (@transform Rat (.exact sqrt pow) kind window s) none) =
      @transform Rat (.exact sqrt pow) kind window (t.applySeries s none) := by
  intro t
  have ht : t.dates.Pairwise (· < ·) := distinctSorted_pairwise dates
  have hlevels : (t.applySeries s none).points = t.resample s.header s.points :=
    Schedule.points_applySeries ht s none
  have hfrom : ∀ q ∈ t.resample s.header s.points,
      (kind.header s.header).downsample.StepsFrom q.value := by
    intro q hq
    obtain ⟨p, hp, hvalue⟩ := Schedule.exists_of_mem_resample hlevel ht ⟨rfl, rfl⟩ hq
    rw [← hvalue]
    exact hvalues p hp
  -- the points of both transformed series are steps
  have hpoints := points_transform_of_steps sqrt pow hsteps hs hvalues
  have hpoints' : (@transform Rat (.exact sqrt pow) kind window (t.applySeries s none)).points =
      (t.resample s.header s.points).steps (kind.header s.header).downsample := by
    rw [← hlevels]
    refine points_transform_of_steps sqrt pow hsteps ?_ (hlevels ▸ hfrom)
    rw [Series.Increasing, hlevels]
    exact Schedule.increasing_resample ht s.header s.points
  have hout : (t.applySeries (@transform Rat (.exact sqrt pow) kind window s) none).points =
      t.resample (kind.header s.header) (s.points.steps (kind.header s.header).downsample) := by
    rw [← hpoints]
    exact Schedule.points_applySeries ht _ none
  have hsame := Schedule.steps_resample hlevel hflow ht ⟨rfl, rfl⟩ hs hvalues
  rw [← hout, ← hpoints'] at hsame
  exact congrArg (fun ps => (⟨kind.header s.header, ps, s.isWeight⟩ : Series Rat)) hsame

/-- **Changes commute with resampling**, and so does growth of a level that is never zero. On the
dates for which the level has begun by the date before, its changes, added up over each period, are
the changes of the level on the dates; and its growth, compounded over each period, is the growth of
the level on the dates. -/
theorem transform_applySeries (hs : s.Increasing) (hlevel : s.header.IsLevel) (window : Nat)
    (dates : List Instant) :
    let t := Schedule.ofDates dates false false
    t.sinceBegun s (t.applySeries (@transform Rat (.exact sqrt pow) .change window s) none) =
        @transform Rat (.exact sqrt pow) .change window (t.applySeries s none) ∧
      ((∀ p ∈ s.points, p.value ≠ 0) →
        t.sinceBegun s
            (t.applySeries (@transform Rat (.exact sqrt pow) .percentageChange window s) none) =
          @transform Rat (.exact sqrt pow) .percentageChange window (t.applySeries s none)) := by
  constructor
  · exact transform_applySeries_of_steps sqrt pow .change window (fun ps _ => ps.changes_eq_steps)
      hs hlevel ⟨rfl, .inl rfl⟩ (fun p _ hpolicy => nomatch hpolicy) dates
  · intro hvalues
    exact transform_applySeries_of_steps sqrt pow .percentageChange window
      (fun ps hps => Points.growth_eq_steps fun p hp => hps p hp rfl) hs hlevel
      ⟨rfl, .inr rfl⟩ (fun p hp _ => hvalues p hp) dates

/-- Prices of which the second period has two, the third none: the change over the second period is
the sum of two changes, that over the third is zero, and the first period, before which there is no
price, has none. -/
theorem transform_applySeries_prices :
    let price : Series Rat := ⟨.labelled "Price", [⟨5, 100⟩, ⟨12, 110⟩, ⟨18, 88⟩, ⟨35, 132⟩], false⟩
    let t := Schedule.ofDates [10, 20, 30, 40] false false
    price.Increasing ∧ price.header.IsLevel ∧ (∀ p ∈ price.points, p.value ≠ 0) ∧
      (t.sinceBegun price (t.applySeries
        (@transform Rat (.exact id fun x _ => x) .change 1 price) none)).points =
          [⟨20, -12⟩, ⟨30, 0⟩, ⟨40, 44⟩] ∧
      (t.sinceBegun price (t.applySeries
        (@transform Rat (.exact id fun x _ => x) .percentageChange 1 price) none)).points =
          [⟨20, -3/25⟩, ⟨30, 0⟩, ⟨40, 1/2⟩] := by
  intro price t
  have hinc : price.Increasing := by decide
  have hlevel : price.header.IsLevel := by decide
  have hvalues : ∀ p ∈ price.points, p.value ≠ 0 := by decide +kernel
  have hdates : Schedule.ofDates [10, 20, 30, 40] false false =
      ⟨[10, 20, 30, 40], false, false⟩ := by
    cbv
  have hmoved : t.applySeries price none =
      ⟨price.header, [⟨10, 100⟩, ⟨20, 88⟩, ⟨30, 88⟩, ⟨40, 132⟩], false⟩ := by
    rw [show t = _ from hdates]
    cbv
  obtain ⟨hchange, hgrowth⟩ :=
    transform_applySeries id (fun x _ => x) hinc hlevel 1 [10, 20, 30, 40]
  refine ⟨hinc, hlevel, hvalues, ?_, ?_⟩
  · rw [hchange, hmoved]
    exact (Points.ofWrites_of_increasing (by decide +kernel)).trans (by decide +kernel)
  · rw [hgrowth hvalues, hmoved]
    exact (Points.ofWrites_of_increasing (by decide +kernel)).trans (by decide +kernel)

end Series

end PanelQuery
