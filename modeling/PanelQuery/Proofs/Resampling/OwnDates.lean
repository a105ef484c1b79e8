import PanelQuery.Proofs.Intervals
import PanelQuery.Proofs.Time.Calendar

/-! # Points on their own dates

What a schedule makes of points that are on its dates already. A period then has the point of its
date, or none.

* **`Header.ownValue?`** — the value of a date, by what is observed on that very date;
* **`Schedule.resample_ownDates`** — the points on all dates. -/

namespace PanelQuery

variable {α : Type} [Scalar α]

/-- The value of a date, when no point lies between dates: the observation of the date alone makes
up its period. -/
def Header.ownValue? (h : Header) (incomplete : Bool) (carried : Option α) (d : Instant)
    (observed : Option α) : Option α :=
  match observed with
  | some v => if h.downsample.isAggregating && incomplete then none else h.downsample.fold? [⟨d, v⟩]
  | none => h.upsample.fill? carried

namespace Points

variable {ps : Points α} {d : Instant}

omit [Scalar α] in
/-- `ps.upTo d = ((ps.valueAt? d).map fun v => (⟨d, v⟩ : Point α)).toList`: of points none of which
comes before a date, those up to the date are the one on it. -/
theorem Increasing.upTo_of_forall_le (hps : ps.Increasing) (h : ∀ p ∈ ps, d ≤ p.time) :
    ps.upTo d = ((ps.valueAt? d).map fun v => (⟨d, v⟩ : Point α)).toList := by
  cases ps with
  | nil => rfl
  | cons p ps =>
    obtain ⟨hp, -⟩ := increasing_cons.1 hps
    have hd : d ≤ p.time := h p List.mem_cons_self
    have hlater : ∀ q ∈ ps, d < q.time := fun q hq => Int.lt_of_le_of_lt hd (hp q hq)
    by_cases heq : p.time = d
    · have hnone : upTo ps d = [] := by
        cases ps with
        | nil => rfl
        | cons q ps => simp [upTo, hlater q List.mem_cons_self]
      have hcons : upTo (p :: ps) d = p :: upTo ps d := by simp [upTo, heq]
      rw [valueAt?_cons_of_eq heq, hcons, hnone, ← heq]
      rfl
    · have hnone : valueAt? ps d = none :=
        valueAt?_eq_none fun q hq => Int.ne_of_gt (hlater q hq)
      have hlt : d < p.time := by lia
      rw [valueAt?_cons_of_ne heq, hnone]
      simp [upTo, hlt]

end Points

namespace Schedule

variable {h : Header} {endIncomplete incomplete : Bool} {before : Option α} {ps : Points α}
  {dates : List Instant}

/-- **Points on their own dates**, from some date on. -/
theorem resampleFrom_ownDates (hdates : dates.Pairwise (· < ·)) (hps : ps.Increasing)
    (hsub : ∀ p ∈ ps, p.time ∈ dates) :
    resampleFrom h endIncomplete incomplete before ps dates =
      Points.onDates dates fun d =>
        h.ownValue? (isCut ⟨dates, incomplete, endIncomplete⟩ d) ((ps.carried? d).or before) d
          (ps.valueAt? d) := by
  induction dates generalizing before ps incomplete with
  | nil => rfl
  | cons d dates ih =>
    obtain ⟨hd, hdates⟩ := List.pairwise_cons.1 hdates
    -- no point comes before the first date, so that its period is the point on it
    have hperiod := hps.upTo_of_forall_le (d := d) fun p hp => by
      rcases List.mem_cons.1 (hsub p hp) with heq | hmem
      · exact Int.le_of_eq heq.symm
      · exact Int.le_of_lt (hd _ hmem)
    have hvalue : h.valueOn? (incomplete || (dates.isEmpty && endIncomplete)) before (ps.upTo d) =
        h.ownValue? (isCut ⟨d :: dates, incomplete, endIncomplete⟩ d) ((ps.carried? d).or before) d
          (ps.valueAt? d) := by
      unfold Header.valueOn? Header.ownValue?
      rw [isCut_head hd, Points.carried?, Points.asOf?, hperiod]
      cases ps.valueAt? d <;> rfl
    -- later dates have what is left after the first one
    have hlater : ∀ t ∈ dates, h.ownValue? (isCut ⟨dates, false, endIncomplete⟩ t)
        ((Points.carried? (ps.rest (some d)) t).or ((ps.carried? d).or before)) t
          (Points.valueAt? (ps.rest (some d)) t) =
        h.ownValue? (isCut ⟨d :: dates, incomplete, endIncomplete⟩ t) ((ps.carried? t).or before) t
          (ps.valueAt? t) := by
      intro t ht
      have hlt := hd t ht
      rw [isCut_tail hlt ht, ps.valueAt?_rest hlt, ← ps.carried?_rest (Int.le_of_lt hlt),
        Option.or_assoc]
    have hrest : ∀ p ∈ ps.rest (some d), p.time ∈ dates := by
      intro p hp
      have hlt := hps.lt_of_mem_dropWhile hp
      have hmem := hsub p ((List.dropWhile_sublist _).subset hp)
      exact (List.mem_cons.1 hmem).resolve_left (Int.ne_of_gt hlt)
    have hnext : resampleFrom h endIncomplete false ((ps.carried? d).or before) (ps.rest (some d))
        dates = _ := (ih hdates (hps.rest (some d)) hrest).trans (Points.onDates_congr hlater)
    rw [resampleFrom, Points.onDates_cons, ← hvalue, ← hnext]
    rfl

/-- **Points on their own dates**: each date has the fold of its own observation alone, unless its
period is incomplete, or what fills the gap. `s.resample h ps` is
`Points.onDates s.dates fun d => h.ownValue? (s.isCut d) (ps.carried? d) d (ps.valueAt? d)`. -/
theorem resample_ownDates {s : Schedule} (hs : s.dates.Pairwise (· < ·)) (h : Header)
    (hps : ps.Increasing) (hsub : ∀ p ∈ ps, p.time ∈ s.dates) :
    s.resample h ps = Points.onDates s.dates fun d =>
      h.ownValue? (s.isCut d) (ps.carried? d) d (ps.valueAt? d) := by
  unfold resample
  rw [resampleFrom_ownDates hs hps hsub]
  simp only [Option.or_none]

end Schedule

end PanelQuery
