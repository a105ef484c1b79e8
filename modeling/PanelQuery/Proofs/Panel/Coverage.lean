import PanelQuery.Proofs.Intervals
import PanelQuery.Proofs.Panel.Resampling
import PanelQuery.Proofs.Time.Periods

/-! # Observations after the last date of a calendar

A panel is resampled on the calendar of its own span, and yet not every observation is in one of the
intervals. A date is the first instant of its day, and so the last date comes before the rest of the
last day. On a daily calendar it also comes before a weekend at the end. Observations after the last
date are ignored.

* **`Schedule.covers`, `Schedule.intervalAt`** — times up to some date, and the points of an
  interval;
* **`Schedule.existsUnique_mem_intervalAt`, `Schedule.not_mem_intervalAt`** — a point that is
  covered is in one interval, and any other in none;
* **`Schedule.applySeries_keep_covers`** — points that are not covered are ignored;
* **`Schedule.covers_spanning_iff`** — the times that a calendar covers;
* **`Panel.covers_calendar`, `Panel.not_covers_calendar_noon`** — when the calendar of a panel has a
  date at or after each of its observations. -/

namespace PanelQuery

/-! ## (1) Points that are covered -/

namespace Schedule

/-- `covers s t`: some date is at or after a time. -/
def covers (s : Schedule) (t : Instant) : Bool := s.dates.any fun d => decide (t ≤ d)

variable {s : Schedule} {t : Instant}

/-- `s.covers t = true ↔ ∃ d ∈ s.dates, t ≤ d`: a time is covered when some date is at or after
it. -/
theorem covers_iff : s.covers t = true ↔ ∃ d ∈ s.dates, t ≤ d := by
  simp [covers]

section Intervals

variable {α : Type} {ps : Points α} {q : Point α} {i : Nat}

/-- `intervalAt s ps i`: the points of the interval of the date at a place. -/
def intervalAt (s : Schedule) (ps : Points α) (i : Nat) : Points α :=
  match s.dates[i]? with
  | some d => ps.interval (s.previous? i) d
  | none => []

/-- `(s.previous? i).all (fun c => decide (c < t)) = true ↔ ∀ c ∈ s.dates, c < d → c < t`: the dates
before a place come before a time just when the last one of them does. -/
theorem all_previous?_iff (hs : s.dates.Pairwise (· < ·)) {d : Instant}
    (hd : s.dates[i]? = some d) :
    (s.previous? i).all (fun c => decide (c < t)) = true ↔ ∀ c ∈ s.dates, c < d → c < t := by
  obtain ⟨hi, rfl⟩ := List.getElem?_eq_some_iff.1 hd
  have hdates : s.dates = s.dates.take i ++ s.dates[i] :: s.dates.drop (i + 1) := by simp
  have hlength : (s.dates.take i).length = i := List.length_take_of_le (Nat.le_of_lt hi)
  have hprevious := previous?_length hdates
  rw [hlength] at hprevious
  obtain ⟨hbefore, hafter, hsplit⟩ := List.pairwise_append.1 (hdates ▸ hs)
  rw [hprevious]
  constructor
  · intro hall c hc hcd
    rw [hdates, List.mem_append] at hc
    -- it is one of the dates before the place, the last of which comes before the time
    have hc : c ∈ s.dates.take i := hc.resolve_right fun hc => by
      rcases List.mem_cons.1 hc with rfl | hc
      · exact Int.lt_irrefl _ hcd
      · exact Int.lt_asymm hcd ((List.pairwise_cons.1 hafter).1 c hc)
    obtain ⟨b, hb⟩ := Option.isSome_iff_exists.1
      (List.getLast?_isSome.2 (List.ne_nil_of_mem hc))
    rw [hb] at hall
    exact Int.lt_of_le_of_lt (le_of_getLast?_eq_some hbefore hb hc) (of_decide_eq_true hall)
  · intro hall
    cases hb : (s.dates.take i).getLast? with
    | none => rfl
    | some b =>
      have hmem := List.mem_of_getLast? hb
      exact decide_eq_true (hall b (hdates ▸ List.mem_append_left _ hmem)
        (hsplit b hmem _ List.mem_cons_self))

/-- **The points of an interval** are those whose times it holds:
`q ∈ s.intervalAt ps i ↔ q ∈ ps ∧ ∃ d, s.dates[i]? = some d ∧ s.Holds d q.time`. -/
theorem mem_intervalAt_iff (hs : s.dates.Pairwise (· < ·)) :
    q ∈ s.intervalAt ps i ↔ q ∈ ps ∧ ∃ d, s.dates[i]? = some d ∧ s.Holds d q.time := by
  unfold intervalAt
  cases hd : s.dates[i]? with
  | none => simp
  | some d =>
    simp only [Points.interval, List.mem_filter, Bool.and_eq_true, decide_eq_true_eq,
      all_previous?_iff hs hd, Option.some.injEq, exists_eq_left', Holds,
      List.mem_of_getElem? hd, true_and]
    rw [and_comm (a := ∀ c ∈ s.dates, c < d → c < q.time)]

/-- **A point that is covered is in one interval**: `∃! i, q ∈ s.intervalAt ps i`. -/
theorem existsUnique_mem_intervalAt (hs : s.dates.Pairwise (· < ·)) (hq : q ∈ ps)
    (hcovers : s.covers q.time = true) : ∃! i, q ∈ s.intervalAt ps i := by
  obtain ⟨d, hholds, -⟩ := existsUnique_holds hs (covers_iff.1 hcovers)
  obtain ⟨i, hi⟩ := List.mem_iff_getElem?.1 hholds.1
  refine ⟨i, (mem_intervalAt_iff hs).2 ⟨hq, d, hi, hholds⟩, fun j hj => ?_⟩
  obtain ⟨-, d', hd', hholds'⟩ := (mem_intervalAt_iff hs).1 hj
  obtain rfl := hholds.unique hholds'
  exact (List.getElem?_inj (List.getElem?_eq_some_iff.1 hd').1 (hs.imp Int.ne_of_lt)).1
    (hd'.trans hi.symm)

/-- **A point that is not covered is in none**: `q ∉ s.intervalAt ps i`. -/
theorem not_mem_intervalAt (hs : s.dates.Pairwise (· < ·)) (hcovers : ¬s.covers q.time = true) :
    q ∉ s.intervalAt ps i := by
  intro hq
  obtain ⟨-, d, -, hd, hle, -⟩ := (mem_intervalAt_iff hs).1 hq
  exact hcovers (covers_iff.2 ⟨d, hd, hle⟩)

/-- `(ps.filter fun q => s.covers q.time).filter test = ps.filter test`: the points up to a date are
covered. -/
theorem filter_filter_covers {d : Instant} (hd : d ∈ s.dates) {test : Point α → Bool}
    (htest : ∀ q, test q = true → q.time ≤ d) :
    (ps.filter fun q => s.covers q.time).filter test = ps.filter test := by
  rw [List.filter_filter]
  refine List.filter_congr fun q _ => ?_
  cases hq : test q with
  | false => rfl
  | true => exact covers_iff.2 ⟨d, hd, htest q hq⟩

variable [Scalar α]

/-- What is moved onto a date depends on the points up to it:
`s.valueByInterval? h (ps.filter fun q => s.covers q.time) i d = s.valueByInterval? h ps i d`. -/
theorem valueByInterval?_filter_covers (h : Header) (ps : Points α) {i : Nat} {d : Instant}
    (hd : s.dates[i]? = some d) :
    s.valueByInterval? h (ps.filter fun q => s.covers q.time) i d =
      s.valueByInterval? h ps i d := by
  have hinterval : Points.interval (ps.filter fun q => s.covers q.time) (s.previous? i) d =
      ps.interval (s.previous? i) d :=
    filter_filter_covers (List.mem_of_getElem? hd) fun q hq =>
      of_decide_eq_true (Bool.and_eq_true_iff.1 hq).2
  have hbefore : Points.beforeInterval (ps.filter fun q => s.covers q.time) (s.previous? i) =
      ps.beforeInterval (s.previous? i) := by
    cases hc : s.previous? i with
    | none => rfl
    | some c =>
      have hmem : c ∈ s.dates := by
        rw [previous?, Option.ite_none_left_eq_some] at hc
        exact List.mem_of_getElem? hc.2
      exact filter_filter_covers hmem fun q => of_decide_eq_true
  unfold valueByInterval?
  rw [hinterval, hbefore]

/-- `s.resample h (ps.filter fun q => s.covers q.time) = s.resample h ps`: points that are not
covered leave no trace on the dates. -/
theorem resample_filter_covers (hs : s.dates.Pairwise (· < ·)) (h : Header)
    (hps : ps.Increasing) :
    s.resample h (ps.filter fun q => s.covers q.time) = s.resample h ps := by
  rw [resample_eq_byIntervals hs h (hps.filter _), resample_eq_byIntervals hs h hps]
  refine List.filterMap_congr fun ⟨d, i⟩ hmem => ?_
  rw [valueByInterval?_filter_covers h ps (List.mem_zipIdx_iff_getElem?.1 hmem)]

/-- **Points that are not covered are ignored**, those of a weight as well: `s.applySeries
(series.keep fun q => s.covers q.time) (weight.map fun w => w.keep fun q => s.covers q.time) =
s.applySeries series weight`. -/
theorem applySeries_keep_covers (hs : s.dates.Pairwise (· < ·)) {series : Series α}
    (hseries : series.Increasing) (weight : Option (Series α))
    (hweight : ∀ w ∈ weight, w.Increasing) :
    s.applySeries (series.keep fun q => s.covers q.time)
      (weight.map fun w => w.keep fun q => s.covers q.time) = s.applySeries series weight := by
  have hpoints : ∀ series : Series α, series.Increasing →
      s.resample (series.keep fun q => s.covers q.time).header
        (series.keep fun q => s.covers q.time).points = s.resample series.header series.points :=
    fun series hseries => resample_filter_covers hs series.header hseries
  unfold applySeries apply
  rw [hpoints series hseries]
  cases weight with
  | none => rfl
  | some w =>
    rw [Option.map_some]
    dsimp only
    rw [hpoints w (hweight w rfl)]
    rfl

end Intervals

/-! ## (2) Calendars -/

section Spans

variable {f : Frequency} {low high : Instant}

/-- **A calendar that reaches the last day** covers the times up to its midnight:
`(spanning f low high).covers t = true ↔ t ≤ Day.midnight (Instant.day high)`. -/
theorem covers_spanning_iff (hle : Instant.day low ≤ Instant.day high)
    (hlatest : Instant.day high ≤ Day.latest) (hreach : f.Reaches (Instant.day high)) :
    (spanning f low high).covers t = true ↔ t ≤ Day.midnight (Instant.day high) := by
  have hselects := spanning_selects f hle
  rw [covers_iff]
  constructor
  · rintro ⟨_, hd, ht⟩
    obtain ⟨d, rfl, -, hdlast, -⟩ := (hselects.mem_iff _).1 hd
    exact Int.le_trans ht (Day.midnight_le_iff.2 hdlast)
  · intro ht
    exact ⟨_, (hselects.mem_iff _).2 ⟨_, rfl, hle, Int.le_refl _,
      (Frequency.isDate_last_iff hlatest).2 hreach⟩, ht⟩

/-- **A calendar covers the end of its span** just when that is a midnight that it reaches:
`(spanning f low high).covers high = true` just when
`high = Day.midnight (Instant.day high) ∧ f.Reaches (Instant.day high)`. -/
theorem covers_spanning_high_iff (hle : Instant.day low ≤ Instant.day high)
    (hlatest : Instant.day high ≤ Day.latest) :
    (spanning f low high).covers high = true ↔
      high = Day.midnight (Instant.day high) ∧ f.Reaches (Instant.day high) := by
  have hselects := spanning_selects f hle
  have hmidnight : Day.midnight (Instant.day high) ≤ high := Int.ediv_mul_le high (by decide)
  rw [covers_iff]
  constructor
  · rintro ⟨_, hd, hhigh⟩
    obtain ⟨d, rfl, -, hdlast, hdate⟩ := (hselects.mem_iff _).1 hd
    have hbegins := Day.midnight_le_iff.2 hdlast
    have hsame := Int.le_antisymm (Int.le_trans hhigh hbegins) hmidnight
    obtain rfl : d = Instant.day high :=
      Int.le_antisymm hdlast (Day.midnight_le_iff.1 (Int.le_trans hmidnight hhigh))
    exact ⟨hsame, (Frequency.isDate_last_iff hlatest).1 hdate⟩
  · rintro ⟨hsame, hreach⟩
    exact covers_iff.1 ((covers_spanning_iff hle hlatest hreach).2 (Int.le_of_eq hsame))

end Spans

end Schedule

/-! ## (3) Panels -/

section Panels

variable {α : Type}

/-- `Panel.Covered p s`: a calendar covers all observations of a panel. -/
def Panel.Covered (p : Panel α) (s : Schedule) : Prop :=
  ∀ e ∈ p.entities, ∀ series ∈ e.series, ∀ q ∈ series.points, s.covers q.time = true

instance (p : Panel α) (s : Schedule) : Decidable (p.Covered s) :=
  inferInstanceAs (Decidable (∀ e ∈ p.entities, _))

/-- `p.Covered s ↔ s.covers last = true`: a calendar covers all observations when it covers the last
one. -/
theorem Panel.covered_iff_of_isSpan {p : Panel α} {first last : Instant}
    (hspan : IsSpan (p.entities.flatMap Entity.series) first last) {s : Schedule} :
    p.Covered s ↔ s.covers last = true := by
  constructor
  · intro hall
    obtain ⟨series, hseries, q, hq, rfl⟩ := hspan.last_mem
    obtain ⟨e, he, hseries⟩ := List.mem_flatMap.1 hseries
    exact hall e he series hseries q hq
  · intro hlast e he series hseries q hq
    obtain ⟨d, hd, hle⟩ := Schedule.covers_iff.1 hlast
    have hbound := (hspan.bounds series (List.mem_flatMap.2 ⟨e, he, hseries⟩) q hq).2
    exact Schedule.covers_iff.2 ⟨d, hd, Int.le_trans hbound hle⟩

variable [Scalar α]

/-- What a calendar does not cover is ignored in an entity: `Entity.resampleOn s { e with series :=
e.series.map fun series => series.keep fun q => s.covers q.time } = e.resampleOn s`. -/
theorem Entity.resampleOn_keep_covers {s : Schedule} (hs : s.dates.Pairwise (· < ·)) {e : Entity α}
    (he : ∀ series ∈ e.series, series.Increasing) :
    Entity.resampleOn s { e with
        series := e.series.map fun series => series.keep fun q => s.covers q.time } =
      e.resampleOn s := by
  have hweight : Entity.weight? { e with
      series := e.series.map fun series => series.keep fun q => s.covers q.time } =
      e.weight?.map fun w => w.keep fun q => s.covers q.time :=
    List.find?_map
  refine congrArg (Entity.mk e.identity · e.category) ?_
  rw [hweight, List.map_map]
  refine List.map_congr_left fun series hseries => ?_
  have hsame : (series.keep fun q => s.covers q.time).isWeight = series.isWeight := rfl
  rw [Function.comp_apply, hsame]
  cases series.isWeight with
  | true =>
    exact Schedule.applySeries_keep_covers hs (he series hseries) none (by simp)
  | false =>
    exact Schedule.applySeries_keep_covers hs (he series hseries) e.weight? fun w hw =>
      he w (List.mem_of_find?_eq_some hw)

namespace Panel

/-- `keepCovered s p`: what is left of a panel when the points that a calendar does not cover are
left out. -/
def keepCovered (s : Schedule) (p : Panel α) : Panel α :=
  p.mapSeries fun series => series.keep fun q => s.covers q.time

/-- **What a calendar does not cover is ignored**:
`(p.keepCovered s).resampleOn s = p.resampleOn s`. -/
theorem resampleOn_keepCovered {s : Schedule} (hs : s.dates.Pairwise (· < ·)) {p : Panel α}
    (hp : p.Increasing) : (p.keepCovered s).resampleOn s = p.resampleOn s := by
  refine congrArg (Panel.mk · p.title p.errors p.hint) ?_
  unfold keepCovered mapSeries
  rw [List.map_map]
  exact List.map_congr_left fun e he => Entity.resampleOn_keep_covers hs (hp e he)

/-- A calendar of a panel, and what it does to the observations of the panel up to the last one. -/
structure CalendarUpTo (p : Panel α) (f : Frequency) (last : Instant) (s : Schedule) : Prop where
  calendar?_eq : p.calendar? f = some s
  /-- Resampling moves the panel onto the dates of the calendar. -/
  resampleTo_eq : p.resampleTo f = p.resampleOn s
  /-- An observation up to some date is in one interval. -/
  existsUnique : ∀ (ps : Points α), ∀ q ∈ ps, (∃ d ∈ s.dates, q.time ≤ d) →
    ∃! i, q ∈ s.intervalAt ps i
  /-- An observation after all dates is in no interval. -/
  not_mem : ∀ (ps : Points α), ∀ q ∈ ps, (¬∃ d ∈ s.dates, q.time ≤ d) →
    ∀ i, q ∉ s.intervalAt ps i
  /-- Observations after all dates are ignored. -/
  ignores : (p.keepCovered s).resampleOn s = p.resampleOn s
  /-- No observation is after all dates just when the last one is at the midnight that begins its
  day, and the calendar reaches that day. -/
  covered_iff : p.Covered s ↔
    last = Day.midnight (Instant.day last) ∧ f.Reaches (Instant.day last)
  /-- A calendar that reaches the last day covers what is not after the midnight that begins it. -/
  covers_iff : f.Reaches (Instant.day last) →
    ∀ t, s.covers t = true ↔ t ≤ Day.midnight (Instant.day last)

/-- **The calendar of a panel covers it** just when the last observation is at midnight, of a day
that is a date: of a day from Monday to Friday when it is daily, of any day when it is weekly, and
else of a day in a period that is known to end. There are `first` and `last` with
`p.span? = some (first, last)`, `IsSpan (p.entities.flatMap Entity.series) first last` and
`p.CalendarUpTo f last (Schedule.spanning f first last)`. What comes after the last date is
ignored. -/
theorem covers_calendar {p : Panel α} (hp : p.Increasing)
    (hdated : ∀ e ∈ p.entities, ∀ s ∈ e.series, ∀ q ∈ s.points, Instant.day q.time ≤ Day.latest)
    (hobserved : ∃ e ∈ p.entities, ∃ s ∈ e.series, s.points ≠ []) (f : Frequency) :
    ∃ first last, p.span? = some (first, last) ∧
      IsSpan (p.entities.flatMap Entity.series) first last ∧
      p.CalendarUpTo f last (Schedule.spanning f first last) := by
  obtain ⟨e, he, s, hs, hne⟩ := hobserved
  obtain ⟨first, last, hspan⟩ := Panel.span?_isSome he hs (List.head_mem hne)
  have hcalendar : p.calendar? f = some (Schedule.spanning f first last) := by
    rw [calendar?, hspan, Option.map_some]
  have hends := Panel.isSpan hp hspan
  have hpairwise := Schedule.spanning_pairwise f first last
  have hle : Instant.day first ≤ Instant.day last := by
    have hbounds := hends.bounds s (List.mem_flatMap.2 ⟨e, he, hs⟩) _ (List.head_mem hne)
    exact Int.ediv_le_ediv (by decide) (Int.le_trans hbounds.1 hbounds.2)
  have hlatest : Instant.day last ≤ Day.latest := by
    obtain ⟨s, hs, q, hq, rfl⟩ := hends.last_mem
    obtain ⟨e, he, hs⟩ := List.mem_flatMap.1 hs
    exact hdated e he s hs q hq
  refine ⟨first, last, hspan, hends, ?_⟩
  exact {
    calendar?_eq := hcalendar
    resampleTo_eq := resampleTo_of_some hcalendar
    existsUnique := fun ps q hq hdate =>
      Schedule.existsUnique_mem_intervalAt hpairwise hq (Schedule.covers_iff.2 hdate)
    not_mem := fun ps q _ hdate i =>
      Schedule.not_mem_intervalAt hpairwise fun hcovers => hdate (Schedule.covers_iff.1 hcovers)
    ignores := resampleOn_keepCovered hpairwise hp
    covered_iff := by
      rw [covered_iff_of_isSpan hends, Schedule.covers_spanning_high_iff hle hlatest]
    covers_iff := fun hreach t => Schedule.covers_spanning_iff hle hlatest hreach }

/-- A panel with one level. -/
def level (points : Points Rat) : Panel Rat :=
  { entities := [{
      identity := ⟨"x", "x", false⟩
      series := [⟨.labelled "level", points, false⟩] }] }

/-- Observations on a Thursday, a Friday and a Saturday, with a daily calendar: the last one is not
covered. -/
theorem covers_calendar_saturday :
    let p := level [⟨Day.midnight 0, 1⟩, ⟨Day.midnight 1, 2⟩, ⟨Day.midnight 2, 3⟩]
    p.Increasing ∧
      (∀ e ∈ p.entities, ∀ s ∈ e.series, ∀ q ∈ s.points, Instant.day q.time ≤ Day.latest) ∧
      (∃ e ∈ p.entities, ∃ s ∈ e.series, s.points ≠ []) ∧
      p.CalendarUpTo .daily (Day.midnight 2)
        (Schedule.spanning .daily (Day.midnight 0) (Day.midnight 2)) ∧
      ¬p.Covered (Schedule.spanning .daily (Day.midnight 0) (Day.midnight 2)) := by
  intro p
  have hp : p.Increasing := by unfold Panel.Increasing; decide
  have hdated : ∀ e ∈ p.entities, ∀ s ∈ e.series, ∀ q ∈ s.points,
      Instant.day q.time ≤ Day.latest := by decide
  have hobserved : ∃ e ∈ p.entities, ∃ s ∈ e.series, s.points ≠ [] := by decide
  obtain ⟨first, last, hspan, -, hcalendar⟩ := covers_calendar hp hdated hobserved .daily
  have hends : p.span? = some (Day.midnight 0, Day.midnight 2) := by decide +kernel
  obtain ⟨rfl, rfl⟩ := Prod.mk.inj (Option.some.inj (hspan.symm.trans hends))
  refine ⟨hp, hdated, hobserved, hcalendar, fun hcovered => ?_⟩
  -- a Saturday is no date
  exact absurd (hcalendar.covered_iff.1 hcovered).2.1 (by decide)

/-- **An observation at noon** is after all dates of a calendar that ends with it: the last date is
the midnight before. -/
theorem not_covers_calendar_noon :
    ¬∃ calendar, (level [⟨Day.midnight 0, 1⟩, ⟨Instant.ofSeconds 43200 0, 2⟩]).calendar? .monthly =
        some calendar ∧
      (level [⟨Day.midnight 0, 1⟩, ⟨Instant.ofSeconds 43200 0, 2⟩]).Covered calendar := by
  rintro ⟨calendar, hcalendar, hcovered⟩
  have hdates : (level [⟨Day.midnight 0, 1⟩, ⟨Instant.ofSeconds 43200 0, 2⟩]).calendar? .monthly =
      some ⟨[Day.midnight 0], false, true⟩ := by decide +kernel
  obtain rfl := Option.some.inj (hdates.symm.trans hcalendar)
  exact absurd hcovered (by decide)

end Panel

end Panels

end PanelQuery
