import Mathlib.Data.List.Pairwise
import Mathlib.Data.List.Sort
import PanelQuery.Proofs.Series.Lookup

/-! # Points as values of dates

Points in order are told apart by what they have on each date. So a series is known once its dates
are, and the value that each of them has, if any.

* **`Points.onDates`** — the points of those dates that have a value;
* **`Points.valueAt?_onDates`** — what is found on a date is its value;
* **`Points.Increasing.ext`** — points in order with the same values are the same;
* **`pairwise_lt_ext`, `distinctSorted_of_pairwise`** — the same for dates. -/

namespace PanelQuery

/-! ## (1) Dates -/

/-- **Dates in order with the same members are the same**: `ts = us`. -/
theorem pairwise_lt_ext {ts us : List Instant} (hts : ts.Pairwise (· < ·))
    (hus : us.Pairwise (· < ·)) (h : ∀ t, t ∈ ts ↔ t ∈ us) : ts = us := by
  have hperm : ts.Perm us :=
    (List.perm_ext_iff_of_nodup (hts.imp Int.ne_of_lt) (hus.imp Int.ne_of_lt)).2 h
  refine List.Perm.eq_of_pairwise (fun s t _ _ hst hts => ?_) hts hus hperm
  exact absurd (Int.lt_trans hst hts) (Int.lt_irrefl s)

/-- `distinctSorted ts = ts`: dates in order are left as they are. -/
theorem distinctSorted_of_pairwise {ts : List Instant} (h : ts.Pairwise (· < ·)) :
    distinctSorted ts = ts :=
  pairwise_lt_ext (distinctSorted_pairwise ts) h fun _ => mem_distinctSorted

namespace Points

variable {α : Type} {ps qs : Points α} {dates : List Instant} {f g : Instant → Option α}

/-! ## (2) Values of dates -/

/-- `onDates dates f`: the points of the dates that have a value. -/
def onDates (dates : List Instant) (f : Instant → Option α) : Points α :=
  dates.filterMap fun d => (f d).map fun v => ⟨d, v⟩

/-- `onDates [] f = []`: no points without dates. -/
@[simp] theorem onDates_nil (f : Instant → Option α) : onDates [] f = [] := rfl

/-- The point of the first date, if it has a value, and those of the others:
`onDates (d :: dates) f` is
`match f d with | some v => ⟨d, v⟩ :: onDates dates f | none => onDates dates f`. -/
theorem onDates_cons (d : Instant) (dates : List Instant) (f : Instant → Option α) :
    onDates (d :: dates) f =
      match f d with
      | some v => ⟨d, v⟩ :: onDates dates f
      | none => onDates dates f := by
  unfold onDates
  cases hd : f d <;> simp [hd]

/-- `p ∈ onDates dates f ↔ p.time ∈ dates ∧ f p.time = some p.value`: a point of dates is a date
with its value. -/
theorem mem_onDates {p : Point α} :
    p ∈ onDates dates f ↔ p.time ∈ dates ∧ f p.time = some p.value := by
  unfold onDates
  rw [List.mem_filterMap]
  constructor
  · rintro ⟨d, hd, hp⟩
    obtain ⟨v, hv, rfl⟩ := Option.map_eq_some_iff.1 hp
    exact ⟨hd, hv⟩
  · rintro ⟨hd, hv⟩
    exact ⟨p.time, hd, by rw [hv]; rfl⟩

/-- Points of dates in order are in order: `(onDates dates f).Increasing`. -/
theorem increasing_onDates (hdates : dates.Pairwise (· < ·)) (f : Instant → Option α) :
    (onDates dates f).Increasing := by
  refine List.Pairwise.filterMap _ (fun d d' hlt p hp p' hp' => ?_) hdates
  obtain ⟨v, -, rfl⟩ := Option.map_eq_some_iff.1 hp
  obtain ⟨v', -, rfl⟩ := Option.map_eq_some_iff.1 hp'
  exact hlt

/-- `(onDates dates f).times = dates`: when all dates have a value, the points are on all of
them. -/
theorem times_onDates (h : ∀ d ∈ dates, (f d).isSome) : (onDates dates f).times = dates := by
  induction dates with
  | nil => rfl
  | cons d dates ih =>
    obtain ⟨hd, hdates⟩ := List.forall_mem_cons.1 h
    obtain ⟨v, hv⟩ := Option.isSome_iff_exists.1 hd
    rw [onDates_cons, hv]
    exact congrArg (d :: ·) (ih hdates)

/-- `(onDates dates f)[k]? = some ⟨d, v⟩`: when all dates have a value, the points are in the places
of the dates. -/
theorem getElem?_onDates (h : ∀ d ∈ dates, (f d).isSome) {k : Nat} {d : Instant} {v : α}
    (hk : dates[k]? = some d) (hv : f d = some v) : (onDates dates f)[k]? = some ⟨d, v⟩ := by
  induction dates generalizing k with
  | nil => cases hk
  | cons d' dates ih =>
    obtain ⟨hd', hdates⟩ := List.forall_mem_cons.1 h
    obtain ⟨v', hv'⟩ := Option.isSome_iff_exists.1 hd'
    rw [onDates_cons, hv']
    cases k with
    | zero =>
      obtain rfl : d' = d := Option.some.inj hk
      obtain rfl : v' = v := Option.some.inj (hv'.symm.trans hv)
      rfl
    | succ k => exact ih hdates hk

/-- **What is found on one of the dates is its value**, and nothing is found on others:
`(onDates dates f).valueAt? t = if t ∈ dates then f t else none`. -/
theorem valueAt?_onDates (hdates : dates.Pairwise (· < ·)) (f : Instant → Option α) (t : Instant) :
    (onDates dates f).valueAt? t = if t ∈ dates then f t else none := by
  refine Option.ext fun v => ?_
  rw [(increasing_onDates hdates f).valueAt?_eq_some_iff, mem_onDates]
  by_cases ht : t ∈ dates <;> simp [ht]

/-- `onDates dates f = onDates dates g`: dates that have the same values have the same points. -/
theorem onDates_congr (h : ∀ d ∈ dates, f d = g d) : onDates dates f = onDates dates g :=
  List.filterMap_congr fun d hd => by rw [h d hd]

/-- `(onDates dates f).filter (fun p => test p.time) = onDates (dates.filter test) f`: the points of
those dates that pass a test. -/
theorem filter_onDates (test : Instant → Bool) (dates : List Instant) (f : Instant → Option α) :
    (onDates dates f).filter (fun p => test p.time) = onDates (dates.filter test) f := by
  induction dates with
  | nil => rfl
  | cons d dates ih =>
    rw [onDates_cons, List.filter_cons (p := test)]
    cases hd : f d <;> by_cases ht : test d = true <;> simp [onDates_cons, hd, ht, ih]

/-- `onDates (dates.filter test) f = onDates dates f`: dates without value may be left out. -/
theorem onDates_filter {test : Instant → Bool} (h : ∀ d ∈ dates, test d = false → f d = none) :
    onDates (dates.filter test) f = onDates dates f := by
  rw [← filter_onDates]
  refine List.filter_eq_self.2 fun p hp => ?_
  obtain ⟨hd, hv⟩ := mem_onDates.1 hp
  by_contra hnot
  rw [h _ hd (Bool.of_not_eq_true hnot)] at hv
  cases hv

/-! ## (3) Points told apart by their values -/

/-- `ps.valueAt? t = none`: nothing is found on a date on which no point is. -/
theorem valueAt?_of_not_mem (hdates : ∀ p ∈ ps, p.time ∈ dates) {t : Instant} (ht : t ∉ dates) :
    ps.valueAt? t = none :=
  valueAt?_eq_none fun p hp heq => ht (by rw [← heq]; exact hdates p hp)

/-- **Points in order with the same values are the same**: `ps = qs`. -/
theorem Increasing.ext (hps : ps.Increasing) (hqs : qs.Increasing)
    (h : ∀ t, ps.valueAt? t = qs.valueAt? t) : ps = qs := by
  have hmem : ∀ p, p ∈ ps ↔ p ∈ qs := fun p => by
    rw [← hps.valueAt?_eq_some_iff (t := p.time) (v := p.value), h, hqs.valueAt?_eq_some_iff]
  have hperm : ps.Perm qs := by
    refine (List.perm_ext_iff_of_nodup ?_ ?_).2 hmem
    · exact hps.imp fun hlt heq => Int.ne_of_lt hlt (congrArg Point.time heq)
    · exact hqs.imp fun hlt heq => Int.ne_of_lt hlt (congrArg Point.time heq)
  refine List.Perm.eq_of_pairwise (fun p q _ _ hpq hqp => ?_) hps hqs hperm
  exact absurd (Int.lt_trans hpq hqp) (Int.lt_irrefl _)

/-- **Points in order are what is found on their dates**, and may be looked for on more:
`onDates dates ps.valueAt? = ps`. -/
theorem Increasing.onDates_valueAt? (hps : ps.Increasing) (hdates : dates.Pairwise (· < ·))
    (hsub : ∀ p ∈ ps, p.time ∈ dates) : onDates dates ps.valueAt? = ps := by
  refine (increasing_onDates hdates _).ext hps fun t => ?_
  rw [valueAt?_onDates hdates]
  split
  next => rfl
  next hout => exact (valueAt?_of_not_mem hsub hout).symm

/-- **Points in order on some dates are told apart on these dates**:
`ps = qs ↔ ∀ d ∈ dates, ps.valueAt? d = qs.valueAt? d`. -/
theorem Increasing.eq_iff_onDates (hps : ps.Increasing) (hqs : qs.Increasing)
    (hpdates : ∀ p ∈ ps, p.time ∈ dates) (hqdates : ∀ q ∈ qs, q.time ∈ dates) :
    ps = qs ↔ ∀ d ∈ dates, ps.valueAt? d = qs.valueAt? d := by
  constructor
  · rintro rfl d -
    rfl
  · refine fun h => hps.ext hqs fun t => ?_
    by_cases ht : t ∈ dates
    · exact h t ht
    · rw [valueAt?_of_not_mem hpdates ht, valueAt?_of_not_mem hqdates ht]

/-- `valueAt? (ps.filter fun p => test p.time) t = if test t then ps.valueAt? t else none`: of
points whose times pass a test, something is found at such times only. -/
theorem valueAt?_filter_times (test : Instant → Bool) (ps : Points α) (t : Instant) :
    valueAt? (ps.filter fun p => test p.time) t = if test t then ps.valueAt? t else none := by
  induction ps with
  | nil => simp [valueAt?]
  | cons p ps ih =>
    by_cases hp : p.time = t
    · subst hp
      by_cases htest : test p.time = true
      · rw [List.filter_cons_of_pos (by exact htest), valueAt?_cons_of_eq rfl,
          valueAt?_cons_of_eq rfl, if_pos htest]
      · rw [List.filter_cons_of_neg (by exact htest), ih, if_neg htest, if_neg htest]
    · rw [valueAt?_cons_of_ne hp, ← ih, List.filter_cons]
      split
      next => exact valueAt?_cons_of_ne hp
      next => rfl

/-- `qs.carried? t = none`: where nothing is carried forward, nothing is of fewer points. -/
theorem Increasing.carried?_eq_none_of_subset (hps : ps.Increasing) (hsub : qs ⊆ ps) {t : Instant}
    (h : ps.carried? t = none) : qs.carried? t = none := by
  refine carried?_eq_none fun q hq hqt => ?_
  obtain ⟨p, hp, hpt, hlast⟩ := exists_last ⟨q, hsub hq, hqt⟩
  rw [hps.carried?_of_last hp hpt hlast] at h
  cases h

/-- Points in order lie between the first and the last:
`(∃ first, ps.head? = some first ∧ first.time ≤ q.time)` and
`∃ last, ps.getLast? = some last ∧ q.time ≤ last.time`. -/
theorem Increasing.bounds (h : ps.Increasing) {q : Point α} (hq : q ∈ ps) :
    (∃ first, ps.head? = some first ∧ first.time ≤ q.time) ∧
      ∃ last, ps.getLast? = some last ∧ q.time ≤ last.time := by
  have hne : ps ≠ [] := List.ne_nil_of_mem hq
  have hordered : ps.Pairwise fun p q => p.time ≤ q.time := h.imp Int.le_of_lt
  refine ⟨⟨ps.head hne, List.head?_eq_some_head hne, ?_⟩,
    ⟨ps.getLast hne, List.getLast?_eq_some_getLast hne, ?_⟩⟩
  · exact hordered.rel_head_of_rel_head_head hq (Int.le_refl _)
  · exact hordered.rel_getLast_of_rel_getLast_getLast hq (Int.le_refl _)

end Points

end PanelQuery
