import PanelQuery.Alignment
import PanelQuery.Proofs.Resampling.Composition
import PanelQuery.Proofs.Resampling.OwnDates

/-! # Alignment date by date

What aligned points have on each date, and when that is what a schedule makes of them.

* **`Points.align_eq_onDates`** — a date has the observation of that very time, or what fills the
  gap;
* **`Points.align_agrees`** — levels: alignment is resampling, from the first observation on. -/

namespace PanelQuery

variable {α : Type} [Scalar α] {h : Header} {ps : Points α} {dates : List Instant}
  {before : Option α}

namespace Points

/-! ## (1) Aligned points -/

omit [Scalar α] in
/-- `(ps.takeWhile fun p => decide (p.time < d)) = ps.upTo (d - 1)`: the points that are passed
before a date are those up to the instant before it. -/
theorem takeWhile_lt (ps : Points α) (d : Instant) :
    (ps.takeWhile fun p => decide (p.time < d)) = ps.upTo (d - 1) :=
  congrArg (List.takeWhile · ps) (funext fun _ => decide_eq_decide.2 Int.le_sub_one_iff.symm)

omit [Scalar α] in
/-- `(ps.dropWhile fun p => decide (p.time < d)) = ps.rest (some (d - 1))`: the points from a date
on are those after the instant before it. -/
theorem dropWhile_lt (ps : Points α) (d : Instant) :
    (ps.dropWhile fun p => decide (p.time < d)) = ps.rest (some (d - 1)) :=
  congrArg (List.dropWhile · ps) (funext fun _ => decide_eq_decide.2 Int.le_sub_one_iff.symm)

omit [Scalar α] in
/-- Of points none of which comes before a date, the one on it is the first, or there is none:
`(match ps.head? with | some p => if p.time = d then some p.value else other | none => other)` is
`(ps.valueAt? d).or other`. -/
theorem Increasing.valueAt?_of_forall_le (hps : ps.Increasing) {d : Instant}
    (h : ∀ p ∈ ps, d ≤ p.time) (other : Option α) :
    (match ps.head? with
      | some p => if p.time = d then some p.value else other
      | none => other) = (ps.valueAt? d).or other := by
  cases ps with
  | nil => rfl
  | cons p ps =>
    obtain ⟨hp, -⟩ := increasing_cons.1 hps
    by_cases heq : p.time = d
    · simp [heq, valueAt?_cons_of_eq]
    · have hlater : valueAt? ps d = none := valueAt?_eq_none fun q hq hqd => by
        have hpq := hp q hq
        have hpd := h p List.mem_cons_self
        lia
      simp [heq, valueAt?_cons_of_ne, hlater]

/-- The value of a date in an alignment: what is observed then, or what fills the gap. -/
def alignedValue? (h : Header) (before : Option α) (ps : Points α) (d : Instant) : Option α :=
  (ps.valueAt? d).or (h.upsample.fill? ((ps.carried? d).or before))

/-- A date without observation has what the last point before it leaves:
`alignedValue? h before ps d` is
`(ps.valueAt? d).or (h.upsample.fill? ((ps.carried? (d - 1)).or before))`. -/
theorem Increasing.alignedValue?_eq (hps : ps.Increasing) (before : Option α) (d : Instant) :
    alignedValue? h before ps d =
      (ps.valueAt? d).or (h.upsample.fill? ((ps.carried? (d - 1)).or before)) := by
  unfold alignedValue?
  cases hvalue : ps.valueAt? d with
  | some v => rfl
  | none =>
    have hcarried : ps.carried? d = ps.carried? (d - 1) := carried?_congr fun p hp => by
      have hne : p.time ≠ d := by
        rintro rfl
        rw [hps.valueAt?_eq_some_iff.2 hp] at hvalue
        cases hvalue
      lia
    rw [hcarried]

/-- **Aligned points date by date**, from some date on:
`alignFrom h before ps dates = onDates dates (alignedValue? h before ps)`. -/
theorem alignFrom_eq_onDates (hdates : dates.Pairwise (· < ·)) (hps : ps.Increasing) :
    alignFrom h before ps dates = onDates dates (alignedValue? h before ps) := by
  induction dates generalizing before ps with
  | nil => rfl
  | cons d dates ih =>
    obtain ⟨hd, hdates⟩ := List.pairwise_cons.1 hdates
    have hlt : d - 1 < d := by lia
    -- the points that are left are on the date or after it
    have hleft : ∀ p ∈ ps.rest (some (d - 1)), d ≤ p.time := fun p hp => by
      have hlt := hps.lt_of_mem_dropWhile hp
      lia
    have hvalue := (hps.rest (some (d - 1))).valueAt?_of_forall_le hleft
      (h.upsample.fill? ((ps.carried? (d - 1)).or before))
    rw [ps.valueAt?_rest hlt, ← hps.alignedValue?_eq] at hvalue
    -- and they suffice for the dates after it
    have hlater : ∀ t ∈ dates, alignedValue? h ((ps.carried? (d - 1)).or before)
        (ps.rest (some (d - 1))) t = alignedValue? h before ps t := by
      intro t ht
      have hlt : d - 1 < t := Int.lt_trans hlt (hd t ht)
      unfold alignedValue?
      rw [ps.valueAt?_rest hlt, ← ps.carried?_rest (Int.le_of_lt hlt), Option.or_assoc]
    have hnext : alignFrom h ((ps.carried? (d - 1)).or before) (ps.rest (some (d - 1))) dates = _ :=
      (ih hdates (hps.rest (some (d - 1)))).trans (onDates_congr hlater)
    rw [alignFrom, onDates_cons, ← hvalue, ← hnext, takeWhile_lt, dropWhile_lt]
    rfl

/-- **Aligned points date by date**: dates before the first observation are left out, and others
have the observation of that very time, or what fills the gap. `ps.align dates h = onDates
(dates.filter fun d => ps.head?.any fun first => decide (first.time ≤ d)) (alignedValue? h none
ps)`. -/
theorem align_eq_onDates (hdates : dates.Pairwise (· < ·)) (hps : ps.Increasing) (h : Header) :
    ps.align dates h =
      onDates (dates.filter fun d => ps.head?.any fun first => decide (first.time ≤ d))
        (alignedValue? h none ps) := by
  cases ps with
  | nil => simp [align]
  | cons first ps =>
    exact alignFrom_eq_onDates (hdates.filter _) hps

/-! ## (2) Alignment and resampling -/

omit [Scalar α] in
/-- `ps.carried? d = some v`: what is observed at a time is carried forward to that time. -/
theorem Increasing.carried?_of_valueAt? (hps : ps.Increasing) {d : Instant} {v : α}
    (hv : ps.valueAt? d = some v) : ps.carried? d = some v :=
  hps.carried?_of_last (hps.valueAt?_eq_some_iff.1 hv) (Int.le_refl d) fun _ _ hq => hq

omit [Scalar α] in
/-- `ps.carried? d = none`: before the first observation nothing is carried forward. -/
theorem carried?_of_lt_head {d : Instant}
    (hd : (ps.head?.any fun first => decide (first.time ≤ d)) = false) : ps.carried? d = none := by
  cases ps with
  | nil => rfl
  | cons first ps =>
    rw [← Option.not_isSome_iff_eq_none, isSome_carried?_cons]
    simpa using hd

/-- `ps.align dates h = onDates dates ps.carried?`: a level that is carried forward has on each date
what is carried to it. -/
theorem align_carried (hdates : dates.Pairwise (· < ·)) (hps : ps.Increasing)
    (hfill : h.upsample = .lastValue) : ps.align dates h = onDates dates ps.carried? := by
  have hvalue : ∀ d, alignedValue? h none ps d = ps.carried? d := by
    intro d
    unfold alignedValue?
    rw [hfill, Policy.fill?, Option.or_none]
    cases hv : ps.valueAt? d with
    | none => rfl
    | some v => rw [hps.carried?_of_valueAt? hv, Option.some_or]
  rw [align_eq_onDates hdates hps, onDates_congr fun d _ => hvalue d]
  exact onDates_filter fun d _ hd => carried?_of_lt_head hd

end Points

namespace Schedule

/-- A level that is carried forward is so by a schedule as well:
`resampleFrom h false false before ps dates` is
`Points.onDates dates fun d => (ps.carried? d).or before`. -/
theorem resampleFrom_carried (hlast : h.downsample = .lastValue) (hfill : h.upsample = .lastValue)
    (hdates : dates.Pairwise (· < ·)) :
    resampleFrom h false false before ps dates =
      Points.onDates dates fun d => (ps.carried? d).or before := by
  induction dates generalizing before ps with
  | nil => rfl
  | cons d dates ih =>
    obtain ⟨hd, hdates⟩ := List.pairwise_cons.1 hdates
    have hlater : ∀ t ∈ dates, (Points.carried? (ps.rest (some d)) t).or (lastBy before ps d) =
        (ps.carried? t).or before := by
      intro t ht
      rw [← ps.carried?_rest (Int.le_of_lt (hd t ht)), Option.or_assoc]
      rfl
    have hvalue : h.valueOn? false before (ps.upTo d) = (ps.carried? d).or before := by
      rw [h.valueOn?_of_lastValue hlast, hfill]
      rfl
    rw [resampleFrom_cons, ih hdates, Points.onDates_congr hlater, hvalue, Points.onDates_cons]
    cases (ps.carried? d).or before <;> rfl

end Schedule

/-- `h.ownValue? false carried d observed = observed.or (h.upsample.fill? carried)`: an observation
of a level stays what it is on its own date. -/
theorem Header.ownValue?_of_lastValue (hlast : h.downsample = .lastValue) (carried : Option α)
    (d : Instant) (observed : Option α) :
    h.ownValue? false carried d observed = observed.or (h.upsample.fill? carried) := by
  cases observed <;> simp [ownValue?, hlast, Policy.fold?]

/-- **Alignment agrees with resampling.** A level that is carried forward is the same on all dates;
and a level all of whose observations are on the dates, however gaps are filled, is the same on the
dates from the first observation on. -/
theorem Points.align_agrees {dates : List Instant} (hdates : dates.Pairwise (· < ·))
    {ps : Points α} (hps : ps.Increasing) {h : Header} (hlast : h.downsample = .lastValue) :
    (h.upsample = .lastValue →
      ps.align dates h = (Schedule.ofDates dates false false).resample h ps) ∧
    ((∀ p ∈ ps, p.time ∈ dates) →
      ps.align dates h = ((Schedule.ofDates dates false false).resample h ps).filter fun q =>
        ps.head?.any fun first => decide (first.time ≤ q.time)) := by
  have hs : (Schedule.ofDates dates false false).dates = dates := distinctSorted_of_pairwise hdates
  constructor
  · intro hfill
    unfold Schedule.resample
    rw [align_carried hdates hps hfill, hs]
    simp only [Schedule.ofDates, Schedule.resampleFrom_carried hlast hfill hdates, Option.or_none]
  · intro hsub
    have hown := Schedule.resample_ownDates (s := .ofDates dates false false)
      (distinctSorted_pairwise dates) h hps (by rw [hs]; exact hsub)
    rw [hown, hs, filter_onDates fun d => ps.head?.any fun first => decide (first.time ≤ d),
      align_eq_onDates hdates hps]
    refine onDates_congr fun d _ => ?_
    simp [Schedule.isCut, Schedule.ofDates, Header.ownValue?_of_lastValue hlast, alignedValue?]

/-- A level on dates with a gap between its points: it is carried into the gap, but not to the date
before the first point; where gaps are zero, alignment leaves out the zero on that date. -/
theorem Points.align_agrees_levels :
    List.Pairwise (· < ·) ([10, 20, 30, 40] : List Instant) ∧
    Increasing [⟨20, 1⟩, ⟨40, (2 : Rat)⟩] ∧
    (Schedule.ofDates [10, 20, 30, 40] false false).resample {} [⟨20, 1⟩, ⟨40, (2 : Rat)⟩] =
      [⟨20, 1⟩, ⟨30, 1⟩, ⟨40, 2⟩] ∧
    ((Schedule.ofDates [10, 20, 30, 40] false false).resample { upsample := .zero }
      [⟨20, 1⟩, ⟨40, (2 : Rat)⟩]).filter (fun q => decide (20 ≤ q.time)) =
      [⟨20, 1⟩, ⟨30, 0⟩, ⟨40, 2⟩] := by
  have hdates : List.Pairwise (· < ·) ([10, 20, 30, 40] : List Instant) := by decide
  have hpoints : Increasing [⟨20, 1⟩, ⟨40, (2 : Rat)⟩] := by decide
  have hcarried := (align_agrees hdates hpoints (h := {}) rfl).1 rfl
  have hfilled := (align_agrees hdates hpoints (h := { upsample := .zero }) rfl).2 (by decide)
  refine ⟨hdates, hpoints, ?_, ?_⟩
  · rw [← hcarried]
    decide +kernel
  · refine hfilled.symm.trans ?_
    decide +kernel

/-! ## (3) Aligned points that are aligned -/

namespace Points

/-- Points are aligned to the dates and no others:
`(alignFrom h before ps dates).times.Sublist dates`. -/
theorem times_alignFrom_sublist (h : Header) (before : Option α) (ps : Points α)
    (dates : List Instant) : (alignFrom h before ps dates).times.Sublist dates := by
  induction dates generalizing before ps with
  | nil => exact .slnil
  | cons d dates ih =>
    rw [alignFrom]
    split
    · exact (ih ..).cons_cons d
    · exact (ih ..).cons d

/-- Points are aligned to the dates from the first observation on: `(ps.align dates h).times.Sublist
(dates.filter fun d => ps.head?.any fun first => decide (first.time ≤ d))`. -/
theorem times_align_sublist (ps : Points α) (dates : List Instant) (h : Header) :
    (ps.align dates h).times.Sublist
      (dates.filter fun d => ps.head?.any fun first => decide (first.time ≤ d)) := by
  cases ps with
  | nil => exact List.nil_sublist _
  | cons first ps => exact times_alignFrom_sublist h none (first :: ps) _

/-- Points aligned to dates in order are in order: `(ps.align dates h).Increasing`. -/
theorem increasing_align (hdates : dates.Pairwise (· < ·)) (ps : Points α) (h : Header) :
    (ps.align dates h).Increasing :=
  increasing_iff_times.2 ((hdates.filter _).sublist (times_align_sublist ps dates h))

/-- **Where gaps are filled, every date has a point**, once there is something to fill them with:
`(alignFrom h before ps dates).times = dates`. -/
theorem times_alignFrom (hfill : h.upsample = .lastValue ∨ h.upsample = .zero)
    (hbegun : before.isSome ∨ ∃ first, ps.head? = some first ∧ ∀ d ∈ dates, first.time ≤ d) :
    (alignFrom h before ps dates).times = dates := by
  induction dates generalizing before ps with
  | nil => rfl
  | cons d dates ih =>
    rw [alignFrom, takeWhile_lt, dropWhile_lt]
    by_cases hpassed : (((ps.upTo (d - 1)).getLast?.map Point.value).or before).isSome
    · -- a gap is filled with what has been passed
      obtain ⟨v, hv⟩ := Option.isSome_iff_exists.1 hpassed
      have hfilled : ∃ w, h.upsample.fill? (some v) = some w := by
        rcases hfill with hfill | hfill
        · exact ⟨v, by rw [hfill]; rfl⟩
        · exact ⟨0, by rw [hfill]; rfl⟩
      obtain ⟨w, hw⟩ := hfilled
      have hlater : (alignFrom h (some v) (ps.rest (some (d - 1))) dates).times = dates :=
        ih (.inl rfl)
      simp only [hv, hw]
      cases (rest ps (some (d - 1))).head? with
      | none => exact congrArg (d :: ·) hlater
      | some p =>
        by_cases hp : p.time = d
        · simpa [hp, times] using hlater
        · simpa [hp, times] using hlater
    · -- nothing has been passed, so that the first point is on the date
      obtain ⟨hnone, rfl⟩ := Option.or_eq_none_iff.1 (Option.not_isSome_iff_eq_none.1 hpassed)
      obtain ⟨first, hfirst, hle⟩ := hbegun.resolve_left (by simp)
      obtain ⟨rest, rfl⟩ := List.head?_eq_some_iff.1 hfirst
      have hd := hle d List.mem_cons_self
      have hnot : ¬first.time ≤ d - 1 := fun hlt => by
        have hsome : (carried? (first :: rest) (d - 1)).isSome := isSome_carried?_cons.2 hlt
        rw [carried?, asOf?, hnone] at hsome
        cases hsome
      have heq : first.time = d := by lia
      have hleft : Points.rest (first :: rest) (some (d - 1)) = first :: rest := by
        show (first :: rest).dropWhile (fun p => decide (p.time ≤ d - 1)) = first :: rest
        exact List.dropWhile_cons_of_neg (by exact fun hlt => hnot (of_decide_eq_true hlt))
      have hlater : (alignFrom h none (first :: rest) dates).times = dates :=
        ih (.inr ⟨first, rfl, fun t ht => hle t (List.mem_cons_of_mem d ht)⟩)
      simp only [hnone, hleft, List.head?_cons, heq, Option.or_none, if_true]
      exact congrArg (d :: ·) hlater

/-- Where gaps are filled, each date from the first aligned point on has a point:
`d ∈ (ps.align dates h).times`. -/
theorem mem_times_align (hfill : h.upsample = .lastValue ∨ h.upsample = .zero) {d : Instant}
    (hd : d ∈ dates)
    (hbegun : ((ps.align dates h).head?.any fun first => decide (first.time ≤ d)) = true) :
    d ∈ (ps.align dates h).times := by
  obtain ⟨p, hp, hpd⟩ := (Option.any_eq_true _ _).1 hbegun
  have htime := (times_align_sublist ps dates h).subset (List.mem_map_of_mem (List.mem_of_head? hp))
  obtain ⟨-, hfirst⟩ := List.mem_filter.1 htime
  cases ps with
  | nil => cases hp
  | cons first ps =>
    have hle : first.time ≤ d := Int.le_trans (of_decide_eq_true hfirst) (of_decide_eq_true hpd)
    have htimes : (align dates h (first :: ps)).times =
        dates.filter fun d => decide (first.time ≤ d) :=
      times_alignFrom hfill
        (.inr ⟨first, rfl, fun t ht => of_decide_eq_true (List.mem_filter.1 ht).2⟩)
    rw [htimes]
    exact List.mem_filter.2 ⟨hd, decide_eq_true hle⟩

/-- **Points that are aligned already stay as they are** on dates among which theirs are:
`(ps.align dates h).align fewer h = ps.align dates h`. -/
theorem align_align {fewer : List Instant} (hdates : dates.Pairwise (· < ·))
    (hfewer : fewer.Pairwise (· < ·)) (hsub : fewer ⊆ dates)
    (hmem : ∀ p ∈ ps.align dates h, p.time ∈ fewer) :
    (ps.align dates h).align fewer h = ps.align dates h := by
  have hps := increasing_align hdates ps h
  have hgap : ∀ d ∈ fewer, ((ps.align dates h).head?.any fun first => decide (first.time ≤ d)) →
      alignedValue? h none (ps.align dates h) d = (ps.align dates h).valueAt? d := by
    intro d hd hbegun
    unfold alignedValue?
    cases hvalue : (ps.align dates h).valueAt? d with
    | some v => rfl
    | none =>
      by_cases hfill : h.upsample = .lastValue ∨ h.upsample = .zero
      · -- the date has a point after all
        have hin := mem_times_align hfill (hsub hd) hbegun
        obtain ⟨p, hp, rfl⟩ := List.mem_map.1 hin
        rw [hps.valueAt?_eq_some_iff.2 hp] at hvalue
        cases hvalue
      · cases hup : h.upsample <;> simp_all [Policy.fill?]
  have hself : ∀ p ∈ ps.align dates h, p.time ∈ fewer.filter fun d =>
      (ps.align dates h).head?.any fun first => decide (first.time ≤ d) := by
    intro p hp
    obtain ⟨⟨first, hfirst, hle⟩, -⟩ := hps.bounds hp
    exact List.mem_filter.2 ⟨hmem p hp, by simpa [hfirst] using hle⟩
  rw [align_eq_onDates hfewer hps]
  refine (onDates_congr fun d hd => ?_).trans (hps.onDates_valueAt? (hfewer.filter _) hself)
  obtain ⟨hd, hbegun⟩ := List.mem_filter.1 hd
  exact hgap d hd hbegun

end Points

end PanelQuery
