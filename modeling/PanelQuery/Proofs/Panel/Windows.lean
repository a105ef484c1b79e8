import Mathlib.Order.Bounds.Basic
import PanelQuery.Proofs.Panel.Span
import PanelQuery.Proofs.SetAlgebra.Weights
import PanelQuery.Proofs.Series.FiniteMap
import PanelQuery.Proofs.TimeWindow

/-! # Panels within windows

A window is anchored on the latest observation of all series, be they weights or not, and all of
them are cut alike. What is left has the same latest observation, or nothing is left, so the next
window is anchored where the first one was. A weight that was last written before the window begins
is cut with everything else; the entity counts again from the next time it is written.

* **`Panel.lastTimes`, `Panel.isGreatest_lastTimes`** — the anchor is the latest of the last times;
* **`Panel.AnchoredAt`, `AnchoredAt.clip_eq`, `AnchoredAt.during`** — a panel within a window is
  cut to the times of the window, and has the same anchor;
* **`Panel.clip_composes`** — windows one after another;
* **`Panel.countsAt_clip`** — when an entity counts within a window. -/

namespace PanelQuery

variable {α : Type}

/-! ## (1) The latest observation -/

/-- The last times of the series of an entity. -/
def Entity.lastTimes (e : Entity α) : List Instant :=
  e.series.filterMap fun s => s.points.getLast?.map Point.time

/-- The last times of the series of a panel. -/
def Panel.lastTimes (p : Panel α) : List Instant := p.entities.flatMap Entity.lastTimes

/-- `t ∈ e.lastTimes ↔ ∃ s ∈ e.series, ∃ q, s.points.getLast? = some q ∧ q.time = t`: a last time is
that of the last point of a series. -/
theorem Entity.mem_lastTimes {e : Entity α} {t : Instant} :
    t ∈ e.lastTimes ↔ ∃ s ∈ e.series, ∃ q, s.points.getLast? = some q ∧ q.time = t := by
  simp only [lastTimes, List.mem_filterMap, Option.map_eq_some_iff]

/-- The span of an entity ends with the latest of the last times:
`IsGreatest {t | t ∈ e.lastTimes} last`. -/
theorem Entity.isGreatest_lastTimes {e : Entity α} {first last : Instant}
    (h : e.span? = some (first, last)) : IsGreatest {t | t ∈ e.lastTimes} last := by
  simp only [Entity.span?, Option.bind_eq_bind, Option.bind_eq_some_iff, Option.pure_def,
    Option.some.injEq, Prod.mk.injEq] at h
  obtain ⟨_, -, _, hmax, -, rfl⟩ := h
  obtain ⟨hmem, hgreatest⟩ := List.max?_eq_some_iff.1 hmax
  exact ⟨hmem, fun t ht => hgreatest t ht⟩

namespace Panel

variable {p : Panel α} {first anchor : Instant}

/-- **The span of a panel ends with the latest of the last times**:
`IsGreatest {t | t ∈ p.lastTimes} anchor`. -/
theorem isGreatest_lastTimes (h : p.span? = some (first, anchor)) :
    IsGreatest {t | t ∈ p.lastTimes} anchor := by
  simp only [Panel.span?, Option.bind_eq_bind, Option.bind_eq_some_iff, Option.pure_def,
    Option.some.injEq, Prod.mk.injEq] at h
  obtain ⟨_, -, _, hmax, -, rfl⟩ := h
  obtain ⟨hmem, hgreatest⟩ := List.max?_eq_some_iff.1 hmax
  constructor
  · obtain ⟨⟨begins, ends⟩, hspan, rfl⟩ := List.mem_map.1 hmem
    obtain ⟨e, he, hspan⟩ := List.mem_filterMap.1 hspan
    exact List.mem_flatMap.2 ⟨e, he, (Entity.isGreatest_lastTimes hspan).1⟩
  · intro t ht
    obtain ⟨e, he, ht⟩ := List.mem_flatMap.1 ht
    obtain ⟨s, hs, q, hq, -⟩ := Entity.mem_lastTimes.1 ht
    obtain ⟨begins, ends, hspan⟩ := Entity.span?_isSome hs (List.mem_of_getLast? hq)
    have hends := hgreatest ends (List.mem_map_of_mem (f := Prod.snd)
      (List.mem_filterMap.2 ⟨e, he, hspan⟩))
    exact Int.le_trans ((Entity.isGreatest_lastTimes hspan).2 ht) hends

/-- A panel with a latest of its last times has a span that ends with it:
`∃ first, p.span? = some (first, anchor)`. -/
theorem span?_of_isGreatest (h : IsGreatest {t | t ∈ p.lastTimes} anchor) :
    ∃ first, p.span? = some (first, anchor) := by
  obtain ⟨e, he, hmem⟩ := List.mem_flatMap.1 h.1
  obtain ⟨s, hs, q, hq, -⟩ := Entity.mem_lastTimes.1 hmem
  obtain ⟨first, last, hspan⟩ := Panel.span?_isSome he hs (List.mem_of_getLast? hq)
  rw [(isGreatest_lastTimes hspan).unique h] at hspan
  exact ⟨first, hspan⟩

/-- `s.points = []`: a panel without span has no points. -/
theorem points_eq_nil_of_span? (h : p.span? = none) {e : Entity α} (he : e ∈ p.entities)
    {s : Series α} (hs : s ∈ e.series) : s.points = [] := by
  rw [List.eq_nil_iff_forall_not_mem]
  intro q hq
  obtain ⟨first, last, hspan⟩ := span?_isSome he hs hq
  rw [h] at hspan
  cases hspan

end Panel

/-! ## (2) Cuts to some of the times -/

/-- `Series.during P s`: the series at the times that pass a test. -/
def Series.during (P : Instant → Bool) (s : Series α) : Series α := s.keep fun q => P q.time

/-- `Entity.during P e`: the entity at the times that pass a test. -/
def Entity.during (P : Instant → Bool) (e : Entity α) : Entity α :=
  { e with series := e.series.map (Series.during P) }

/-- `Panel.during P p`: the panel at the times that pass a test. -/
def Panel.during (P : Instant → Bool) (p : Panel α) : Panel α :=
  { p with entities := p.entities.map (Entity.during P) }

namespace Panel

variable {p : Panel α} {P Q : Instant → Bool} {anchor : Instant}

/-- `(p.during P).during Q = p.during fun t => P t && Q t`: what two cuts leave has the times that
pass both tests. -/
theorem during_during (P Q : Instant → Bool) (p : Panel α) :
    (p.during P).during Q = p.during fun t => P t && Q t := by
  have hseries : Series.during Q ∘ Series.during P =
      Series.during (α := α) fun t => P t && Q t := by
    funext s
    simp [Series.during, Series.keep, List.filter_filter, Bool.and_comm]
  simp [during, Entity.during, Function.comp_def, ← hseries]

/-- `p.during P = p`: a panel without span is left as it is. -/
theorem during_of_span?_eq_none (h : p.span? = none) (P : Instant → Bool) : p.during P = p := by
  have hentities : p.entities.map (Entity.during P) = p.entities := by
    refine map_eq_self_iff.2 fun e he => ?_
    have hseries : e.series.map (Series.during P) = e.series := by
      refine map_eq_self_iff.2 fun s hs => ?_
      have hpoints : (s.points.filter fun q => P q.time) = s.points := by
        rw [points_eq_nil_of_span? h he hs, List.filter_nil]
      rw [Series.during, Series.keep, hpoints]
    rw [Entity.during, hseries]
  rw [during, hentities]

/-- `P t = true`: the last times that are left pass the test. -/
theorem of_mem_lastTimes_during {t : Instant} (h : t ∈ (p.during P).lastTimes) : P t = true := by
  obtain ⟨e, he, ht⟩ := List.mem_flatMap.1 h
  obtain ⟨e, -, rfl⟩ := List.mem_map.1 he
  obtain ⟨s, hs, q, hq, rfl⟩ := Entity.mem_lastTimes.1 ht
  obtain ⟨s, -, rfl⟩ := List.mem_map.1 hs
  exact (List.mem_filter.1 (List.mem_of_getLast? hq)).2

/-- A last time that passes the test is left: `t ∈ (p.during P).lastTimes`. -/
theorem mem_lastTimes_during {t : Instant} (h : t ∈ p.lastTimes) (ht : P t = true) :
    t ∈ (p.during P).lastTimes := by
  obtain ⟨e, he, hmem⟩ := List.mem_flatMap.1 h
  obtain ⟨s, hs, q, hq, rfl⟩ := Entity.mem_lastTimes.1 hmem
  have hlast : (s.during P).points.getLast? = some q := by
    obtain ⟨before, hpoints⟩ := List.getLast?_eq_some_iff.1 hq
    show (s.points.filter fun q => P q.time).getLast? = some q
    rw [hpoints, List.filter_append, List.filter_singleton, ht]
    exact List.getLast?_concat
  exact List.mem_flatMap.2 ⟨_, List.mem_map_of_mem he,
    Entity.mem_lastTimes.2 ⟨_, List.mem_map_of_mem hs, q, hlast, rfl⟩⟩

/-- **A cut that keeps the latest observation leaves the end of the span**, unless a later one was
hidden behind it: `∃ first', (p.during P).span? = some (first', anchor)`. -/
theorem span?_during {first : Instant} (h : p.span? = some (first, anchor))
    (hanchor : P anchor = true) (hle : ∀ t ∈ (p.during P).lastTimes, t ≤ anchor) :
    ∃ first', (p.during P).span? = some (first', anchor) :=
  span?_of_isGreatest ⟨mem_lastTimes_during (isGreatest_lastTimes h).1 hanchor, hle⟩

/-- In series in order nothing is hidden behind the latest observation:
`∀ t ∈ (p.during P).lastTimes, t ≤ anchor`. -/
theorem lastTimes_during_le (hp : p.Increasing) {first : Instant}
    (h : p.span? = some (first, anchor)) : ∀ t ∈ (p.during P).lastTimes, t ≤ anchor := by
  intro t ht
  obtain ⟨e, he, ht⟩ := List.mem_flatMap.1 ht
  obtain ⟨e, hmem, rfl⟩ := List.mem_map.1 he
  obtain ⟨s, hkept, q, hq, rfl⟩ := Entity.mem_lastTimes.1 ht
  obtain ⟨s, hs, rfl⟩ := List.mem_map.1 hkept
  have hq := (List.mem_filter.1 (List.mem_of_getLast? hq)).1
  exact ((Panel.isSpan hp h).bounds s (List.mem_flatMap.2 ⟨e, hmem, hs⟩) q hq).2

/-! ## (3) Windows one after another -/

/-- `AnchoredAt p anchor`: a panel with no latest observation but the anchor. -/
def AnchoredAt (p : Panel α) (anchor : Instant) : Prop :=
  ∀ first last, p.span? = some (first, last) → last = anchor

/-- Every panel has an anchor: `∃ anchor, p.AnchoredAt anchor`. -/
theorem exists_anchoredAt (p : Panel α) : ∃ anchor, p.AnchoredAt anchor := by
  cases h : p.span? with
  | none => exact ⟨0, fun first last hspan => by rw [h] at hspan; cases hspan⟩
  | some span =>
    refine ⟨span.2, fun first last hspan => ?_⟩
    rw [h] at hspan
    cases hspan
    rfl

/-- The anchor of a panel with a span: `p.AnchoredAt anchor`. -/
theorem anchoredAt_of_span? {first : Instant} (h : p.span? = some (first, anchor)) :
    p.AnchoredAt anchor := by
  intro first' last hspan
  rw [h] at hspan
  cases hspan
  rfl

namespace AnchoredAt

/-- **A panel within a window** is cut to the times of the window:
`p.clip w = p.during (w.contains anchor)`. -/
theorem clip_eq (h : p.AnchoredAt anchor) (w : TimeWindow) :
    p.clip w = p.during (w.contains anchor) := by
  unfold clip
  split
  next hspan => exact (during_of_span?_eq_none hspan _).symm
  next first last hspan =>
    rw [h first last hspan]
    rfl

/-- **The anchor survives a window** with no times after the anchor, which has it as soon as it has
any time: `(p.during P).AnchoredAt anchor`. -/
theorem during (h : p.AnchoredAt anchor) (hP : ∀ t, P t = true → t ≤ anchor ∧ P anchor = true) :
    (p.during P).AnchoredAt anchor := by
  intro first last hleft
  cases hspan : p.span? with
  | none =>
    rw [during_of_span?_eq_none hspan] at hleft
    exact h first last hleft
  | some span =>
    obtain ⟨begins, ends⟩ := span
    obtain rfl := h begins ends hspan
    -- something is left, so the anchor is
    have hpass := of_mem_lastTimes_during (isGreatest_lastTimes hleft).1
    obtain ⟨first', hanchor⟩ := span?_during hspan (hP last hpass).2 fun t ht =>
      (hP t (of_mem_lastTimes_during ht)).1
    exact anchoredAt_of_span? hanchor first last hleft

end AnchoredAt

/-- **A window twice** is the window once: `(p.clip w).clip w = p.clip w`. -/
theorem clip_clip (p : Panel α) (w : TimeWindow) : (p.clip w).clip w = p.clip w := by
  obtain ⟨anchor, h⟩ := p.exists_anchoredAt
  have hagain : (p.during (w.contains anchor)).clip w =
      (p.during (w.contains anchor)).during (w.contains anchor) := by
    rcases w.fixed_or_relative with hfixed | hrelative
    · obtain ⟨anchor', h'⟩ := (p.during (w.contains anchor)).exists_anchoredAt
      rw [h'.clip_eq, hfixed anchor' anchor]
    · exact (h.during (hrelative anchor)).clip_eq w
  rw [h.clip_eq, hagain, during_during]
  simp only [Bool.and_self]

/-- **A window of months within another one** is the window of the fewer months:
`(p.clip (.lastMonths m)).clip (.lastMonths n) = p.clip (.lastMonths (min n m))`. -/
theorem clip_lastMonths_clip_lastMonths (p : Panel α) (m n : Nat) :
    (p.clip (.lastMonths m)).clip (.lastMonths n) = p.clip (.lastMonths (min n m)) := by
  obtain ⟨anchor, h⟩ := p.exists_anchoredAt
  have hafter := h.during fun t => TimeWindow.lastMonths_relative (n := m)
  rw [h.clip_eq, hafter.clip_eq, during_during, h.clip_eq]
  exact congrArg p.during (funext (TimeWindow.contains_lastMonths_min m n anchor))

/-- `IsLatest p t`: a time after which the panel has no observation. -/
def IsLatest (p : Panel α) (t : Instant) : Prop :=
  ∀ e ∈ p.entities, ∀ s ∈ e.series, ∀ q ∈ s.points, q.time ≤ t

/-- A panel that is left of another one has its latest observations: it ends when the other one
does, and each series has the points that no point of any series comes after. -/
structure KeepsLatest (p p' : Panel α) : Prop where
  span : p'.span?.map Prod.snd = p.span?.map Prod.snd
  points : List.Forall₂ (fun e e' => List.Forall₂
    (fun s s' => ∀ q ∈ s.points, p.IsLatest q.time → q ∈ s'.points) e.series e'.series)
    p.entities p'.entities

/-- `q.time = anchor`: a latest time at which there is an observation is that at which the span
ends. -/
theorem IsLatest.eq_anchor (hp : p.Increasing) {first : Instant}
    (hspan : p.span? = some (first, anchor)) {e : Entity α} (he : e ∈ p.entities) {s : Series α}
    (hs : s ∈ e.series) {q : Point α} (hq : q ∈ s.points) (h : p.IsLatest q.time) :
    q.time = anchor := by
  have hbounds := (Panel.isSpan hp hspan).bounds s (List.mem_flatMap.2 ⟨e, he, hs⟩) q hq
  obtain ⟨s', hs', q', hq', rfl⟩ := (Panel.isSpan hp hspan).last_mem
  obtain ⟨e', he', hs'⟩ := List.mem_flatMap.1 hs'
  exact Int.le_antisymm hbounds.2 (h e' he' s' hs' q' hq')

/-- **A window that goes on to the latest observation keeps it**: `p.KeepsLatest (p.clip w)`. -/
theorem keepsLatest_clip (hp : p.Increasing) {w : TimeWindow} (hw : w.ReachesLatest) :
    p.KeepsLatest (p.clip w) := by
  obtain ⟨anchor, h⟩ := p.exists_anchoredAt
  have hanchor := hw.contains_anchor anchor
  rw [h.clip_eq]
  constructor
  · cases hspan : p.span? with
    | none => rw [during_of_span?_eq_none hspan, hspan]
    | some span =>
      obtain ⟨first, last⟩ := span
      obtain rfl := h first last hspan
      obtain ⟨first', hafter⟩ := span?_during hspan hanchor (lastTimes_during_le hp hspan)
      rw [hafter]
      rfl
  · refine List.forall₂_map_right_iff.2 (List.forall₂_same.2 fun e he => ?_)
    refine List.forall₂_map_right_iff.2 (List.forall₂_same.2 fun s hs q hq hlatest => ?_)
    obtain ⟨first, last, hspan⟩ := span?_isSome he hs hq
    obtain rfl := h first last hspan
    refine List.mem_filter.2 ⟨hq, ?_⟩
    rw [hlatest.eq_anchor hp hspan he hs hq]
    exact hanchor

/-- **Windows compose**: `(∀ w, (p.clip w).clip w = p.clip w)`,
`(∀ w : TimeWindow, w.ReachesLatest → p.Increasing → p.KeepsLatest (p.clip w))` and
`∀ m n, (p.clip (.lastMonths m)).clip (.lastMonths n) = p.clip (.lastMonths (min n m))`. A window
twice is the window once; a window that goes on to the latest observation keeps it; and a window of
months within another one is that of the fewer months. -/
theorem clip_composes (p : Panel α) :
    (∀ w, (p.clip w).clip w = p.clip w) ∧
      (∀ w : TimeWindow, w.ReachesLatest → p.Increasing → p.KeepsLatest (p.clip w)) ∧
      ∀ m n, (p.clip (.lastMonths m)).clip (.lastMonths n) = p.clip (.lastMonths (min n m)) :=
  ⟨p.clip_clip, fun _ hw hp => keepsLatest_clip hp hw, p.clip_lastMonths_clip_lastMonths⟩

/-- Prices at the last days of three months, and a weight that is set on the first one. -/
def leapWinter : Panel Float where
  entities := [{
    identity := ⟨"x", "x", false⟩
    series := [
      ⟨.labelled "Price", [⟨Day.midnight 19753, 1⟩, ⟨Day.midnight 19782, 2⟩,
        ⟨Day.midnight 19813, 3⟩], false⟩,
      ⟨.labelled "Weight", [⟨Day.midnight 19753, 1⟩], true⟩] }]

/-- Its series are in order: `leapWinter.Increasing`. -/
theorem increasing_leapWinter : leapWinter.Increasing := by
  unfold Panel.Increasing
  decide

/-- The month up to the end of March does not have the end of February, two months do. -/
theorem clip_composes_leapWinter :
    (TimeWindow.lastMonths 1).ReachesLatest ∧ leapWinter.Increasing ∧
      leapWinter.KeepsLatest (leapWinter.clip (.lastMonths 1)) ∧
      ((leapWinter.clip (.lastMonths 1)).entities.map fun e => e.series.map fun s => s.points) =
        [[[⟨Day.midnight 19813, 3⟩], []]] ∧
      ((leapWinter.clip (.lastMonths 2)).entities.map fun e => e.series.map fun s => s.points) =
        [[[⟨Day.midnight 19782, 2⟩, ⟨Day.midnight 19813, 3⟩], []]] ∧
      (leapWinter.clip (.lastMonths 2)).clip (.lastMonths 1) = leapWinter.clip (.lastMonths 1) := by
  have hreaches : (TimeWindow.lastMonths 1).ReachesLatest := by decide
  exact ⟨hreaches, increasing_leapWinter,
    (clip_composes leapWinter).2.1 _ hreaches increasing_leapWinter, rfl, rfl,
    (clip_composes leapWinter).2.2 2 1⟩

end Panel

/-! ## (4) Entities that count within windows -/

/-- **What is carried forward to a time within a cut** without gaps is what was carried forward to
it, if that was written within the cut, and else nothing:
`Points.asOf? (ps.filter fun q => P q.time) t = (ps.asOf? t).filter fun q => P q.time`. -/
theorem Points.Increasing.asOf?_filter {ps : Points α} (h : ps.Increasing) {P : Instant → Bool}
    {t : Instant} (hP : ∀ a b, P a = true → a ≤ b → b ≤ t → P b = true) :
    Points.asOf? (ps.filter fun q => P q.time) t = (ps.asOf? t).filter fun q => P q.time := by
  have hleft := h.filter fun q => P q.time
  cases hlast : ps.asOf? t with
  | none =>
    rw [Option.filter_none, hleft.asOf?_eq_none_iff]
    exact fun q hq => h.asOf?_eq_none_iff.1 hlast q (List.mem_filter.1 hq).1
  | some q =>
    obtain ⟨hq, hqt, hgreatest⟩ := h.asOf?_eq_some_iff.1 hlast
    rw [Option.filter_some]
    split
    next hpass =>
      exact hleft.asOf?_eq_some_iff.2 ⟨List.mem_filter.2 ⟨hq, hpass⟩, hqt,
        fun r hr => hgreatest r (List.mem_filter.1 hr).1⟩
    next hfail =>
      -- the cut would have a gap if a point before this one were left
      refine hleft.asOf?_eq_none_iff.2 fun r hr hrt => hfail ?_
      obtain ⟨hr, hpass⟩ := List.mem_filter.1 hr
      exact hP r.time q.time hpass (hgreatest r hr hrt) hqt

namespace Entity

variable {e : Entity α} {v : Series α} {P : Instant → Bool} {t : Instant}

/-- `(e.during P).weight? = some (v.during P)`: the weight of an entity that is cut is its weight,
cut. -/
theorem weight?_during (hv : e.weight? = some v) : (e.during P).weight? = some (v.during P) := by
  show (e.series.map (Series.during P)).find? Series.isWeight = _
  rw [List.find?_map]
  exact Option.map_eq_some_iff.2 ⟨v, hv, rfl⟩

variable [Scalar α]

/-- `e.CountsAt t ↔ ∃ q, v.points.asOf? t = some q ∧ (q.value == 0) = false`: an entity with a
weight counts when the last point of the weight is not zero. -/
theorem countsAt_iff_asOf? (hv : e.weight? = some v) :
    e.CountsAt t ↔ ∃ q, v.points.asOf? t = some q ∧ (q.value == 0) = false := by
  simp [CountsAt, hv, Points.carried?]

/-- An entity with a weight counts within a cut when it counted and the weight was last written
within the cut:
`(e.during P).CountsAt t ↔ e.CountsAt t ∧ ∃ q, v.points.asOf? t = some q ∧ P q.time = true`. -/
theorem countsAt_during_iff (hv : e.weight? = some v) (hinc : v.Increasing)
    (hP : ∀ a b, P a = true → a ≤ b → b ≤ t → P b = true) :
    (e.during P).CountsAt t ↔
      e.CountsAt t ∧ ∃ q, v.points.asOf? t = some q ∧ P q.time = true := by
  have hasOf : (v.during P).points.asOf? t = (v.points.asOf? t).filter fun q => P q.time :=
    Points.Increasing.asOf?_filter hinc hP
  rw [countsAt_iff_asOf? (weight?_during hv), countsAt_iff_asOf? hv, hasOf]
  simp only [Option.filter_eq_some_iff]
  constructor
  · rintro ⟨q, ⟨hq, hpass⟩, hx⟩
    exact ⟨⟨q, hq, hx⟩, q, hq, hpass⟩
  · rintro ⟨⟨q, hq, hx⟩, r, hr, hpass⟩
    rw [hq] at hr
    cases hr
    exact ⟨q, ⟨hq, hpass⟩, hx⟩

/-- An entity with a weight ever counts within a cut when the weight is written as other than zero
there:
`(e.during P).isEverMember = true ↔ ∃ q ∈ v.points, P q.time = true ∧ (q.value == 0) = false`. -/
theorem isEverMember_during_iff (hv : e.weight? = some v) :
    (e.during P).isEverMember = true ↔
      ∃ q ∈ v.points, P q.time = true ∧ (q.value == 0) = false := by
  rw [isEverMember, weight?_during hv]
  simp [Series.during, Series.keep]

end Entity

namespace Panel

/-- **A window cuts weights with everything else.** At a time within the window an entity with a
weight counts just when it did and the weight was last written within the window, too; it is left in
a set just when the weight is written as other than zero within the window. -/
theorem countsAt_clip [Scalar α] (p : Panel α) (hp : p.Increasing) (w : TimeWindow) :
    (p.span? = none → p.clip w = p) ∧ ∀ first anchor, p.span? = some (first, anchor) →
      p.clip w = p.during (w.contains anchor) ∧
      ∀ e ∈ p.entities, ∀ v, e.weight? = some v →
        (∀ t, w.contains anchor t = true →
          ((e.during (w.contains anchor)).CountsAt t ↔ e.CountsAt t ∧
            ∃ q, v.points.asOf? t = some q ∧ w.contains anchor q.time = true)) ∧
        ((e.during (w.contains anchor)).isEverMember = true ↔
          ∃ q ∈ v.points, w.contains anchor q.time = true ∧ (q.value == 0) = false) := by
  constructor
  · intro h
    rw [clip, h]
  · intro first anchor h
    refine ⟨(anchoredAt_of_span? h).clip_eq w, fun e he v hv => ⟨fun t ht => ?_, ?_⟩⟩
    · have hinc : v.Increasing := hp e he v (List.mem_of_find?_eq_some hv)
      exact Entity.countsAt_during_iff hv hinc fun a b ha hab hbt =>
        TimeWindow.contains_of_between ha ht hab hbt
    · exact Entity.isEverMember_during_iff hv

/-- A weight that is set before the window does not count in it. -/
theorem countsAt_clip_leapWinter :
    leapWinter.Increasing ∧ leapWinter.span? = some (Day.midnight 19753, Day.midnight 19813) ∧
      leapWinter.clip (.lastMonths 2) =
        leapWinter.during ((TimeWindow.lastMonths 2).contains (Day.midnight 19813)) ∧
      ∀ e ∈ leapWinter.entities, e.CountsAt (Day.midnight 19813) ∧
        ¬(e.during ((TimeWindow.lastMonths 2).contains (Day.midnight 19813))).CountsAt
          (Day.midnight 19813) := by
  have hspan : leapWinter.span? = some (Day.midnight 19753, Day.midnight 19813) := by decide
  obtain ⟨hclip, hcounts⟩ :=
    (countsAt_clip leapWinter increasing_leapWinter (.lastMonths 2)).2 _ _ hspan
  refine ⟨increasing_leapWinter, hspan, hclip, fun e he => ?_⟩
  obtain rfl := List.mem_singleton.1 he
  refine ⟨by decide, fun hafter => ?_⟩
  obtain ⟨-, q, hq, hwithin⟩ := ((hcounts _ he _ rfl).1 _ (by decide)).1 hafter
  cases hq
  revert hwithin
  decide

/-- A window does not leave alone when an entity counts, not even at times within the window. -/
theorem not_countsAt_clip_iff :
    ¬∀ (p : Panel Float) (w : TimeWindow), p.Increasing → ∀ first anchor,
      p.span? = some (first, anchor) → ∀ (k : Nat) (e e' : Entity Float),
        p.entities[k]? = some e → (p.clip w).entities[k]? = some e' →
          e.weight?.isSome → ∀ t, w.contains anchor t = true → (e'.CountsAt t ↔ e.CountsAt t) := by
  intro h
  have hcounts := h leapWinter (.lastMonths 2) increasing_leapWinter (Day.midnight 19753)
    (Day.midnight 19813) (by decide) 0 _ _ rfl rfl rfl (Day.midnight 19813) (by decide)
  revert hcounts
  decide

end Panel

end PanelQuery
