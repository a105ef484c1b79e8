import Mathlib.Algebra.BigOperators.Group.List.Basic
import Mathlib.Algebra.Order.Field.Rat
import Mathlib.Tactic.Ring
import PanelQuery.Proofs.Intervals

/-! # Coarse dates by way of fine ones

Points that are moved onto many dates first, and from there onto some of these, are the points
moved onto the latter at once. The series on the fine dates may have values that were never
observed, and each coarse period is put together again from fine ones, with points or without.

* **`Header.Composes`** — the policies by which this is so;
* **`Policy.total`** — a folded period, so that periods are folded in pieces (`total_append`);
* **`Schedule.resampleFrom_append`** — dates in two parts;
* **`Schedule.valueOn?_resampleFrom`** — a coarse period from the fine ones it consists of;
* **`Schedule.resample_resample`** — the whole series, for numbers without rounding. -/

namespace PanelQuery

/-- Policies by which a series may be moved in stages: levels that are carried forward or left out,
and flows over whole periods that are zero or left out in a gap. -/
def Header.Composes (h : Header) : Prop :=
  ((h.upsample = .drop ∨ h.upsample = .lastValue) ∧ h.downsample = .lastValue) ∨
    ((h.upsample = .drop ∨ h.upsample = .zero) ∧
      (h.downsample = .arithmetic ∨ h.downsample = .geometric))

instance (h : Header) : Decidable h.Composes := inferInstanceAs (Decidable (_ ∨ _))

/-! ## (1) Periods in pieces -/

section Pieces

/-- A period folded as a whole: compounded growth, or else the sum. -/
def Policy.total (policy : Policy) (period : Points Rat) : Rat :=
  match policy with
  | geometric => (period.values.map (1 + ·)).prod - 1
  | _ => period.values.sum

/-- `Policy.join policy x y`: the totals of two periods as that of both. -/
def Policy.join (policy : Policy) (x y : Rat) : Rat :=
  match policy with
  | geometric => (1 + x) * (1 + y) - 1
  | _ => x + y

variable (policy : Policy)

/-- `policy.total [] = 0`: nothing comes of no points. -/
@[simp] theorem Policy.total_nil : policy.total [] = 0 := by
  cases policy <;> simp [total, Points.values]

/-- `policy.total [p] = p.value`: a point alone is the total of itself. -/
@[simp] theorem Policy.total_singleton (p : Point Rat) : policy.total [p] = p.value := by
  cases policy <;> simp [total, Points.values]

/-- **Periods are folded in pieces**:
`policy.total (period ++ later) = policy.join (policy.total period) (policy.total later)`. -/
theorem Policy.total_append (period later : Points Rat) :
    policy.total (period ++ later) = policy.join (policy.total period) (policy.total later) := by
  cases policy with
  | geometric =>
    simp only [total, join, Points.values, List.map_append, List.prod_append]
    ring
  | arithmetic => simp [total, join, Points.values]
  | lastValue => simp [total, join, Points.values]
  | drop => simp [total, join, Points.values]
  | zero => simp [total, join, Points.values]

/-- `policy.fold? period = some (policy.total period)`: policies that fold whole periods make the
total of a period. -/
theorem Policy.fold?_eq_total (h : policy = .arithmetic ∨ policy = .geometric)
    (period : Points Rat) : policy.fold? period = some (policy.total period) := by
  rcases h with rfl | rfl
  · simp only [fold?, total, Scalar.sumLeft, List.sum_eq_foldl]
    rfl
  · simp only [fold?, total, Scalar.productLeft, List.prod_eq_foldl]

end Pieces

/-- `(block ++ later).upTo c = block ∧ (block ++ later).rest (some c) = later`: points of which
those after a date come last. -/
theorem Points.upTo_append_of_le {α : Type} {block later : Points α} {c : Instant}
    (hblock : ∀ p ∈ block, p.time ≤ c) (hlater : ∀ p ∈ later, c < p.time) :
    (block ++ later).upTo c = block ∧ (block ++ later).rest (some c) = later := by
  have hyes : ∀ p ∈ block, decide (p.time ≤ c) = true := fun p hp => decide_eq_true (hblock p hp)
  have hno : ∀ p ∈ later, ¬decide (p.time ≤ c) = true := by
    intro p hp
    simpa using hlater p hp
  unfold upTo rest
  dsimp only
  rw [List.takeWhile_append_of_pos hyes, List.dropWhile_append_of_pos hyes]
  cases later with
  | nil => simp
  | cons p later =>
    have hp := hno p List.mem_cons_self
    rw [List.takeWhile_cons_of_neg (by exact hp), List.dropWhile_cons_of_neg (by exact hp),
      List.append_nil]
    exact ⟨rfl, rfl⟩

variable {α : Type} [Scalar α] {h : Header} {before : Option α} {ps : Points α}

/-- A level has the last value of a period, or what fills the gap:
`h.valueOn? incomplete before period` is
`(period.getLast?.map Point.value).or (h.upsample.fill? before)`. -/
theorem Header.valueOn?_of_lastValue (hlast : h.downsample = .lastValue) (incomplete : Bool)
    (before : Option α) (period : Points α) :
    h.valueOn? incomplete before period =
      (period.getLast?.map Point.value).or (h.upsample.fill? before) := by
  unfold valueOn?
  rw [hlast]
  cases period with
  | nil => rfl
  | cons p period =>
    rw [List.getLast?_cons]
    simp [Policy.isAggregating, Policy.fold?, List.getLast?_cons]

/-- A flow has the total of a period, or what fills the gap: `h.valueOn? false before period` is
`if period = [] then h.upsample.fill? before else some (h.downsample.total period)`. -/
theorem Header.valueOn?_of_flow (hflow : h.downsample = .arithmetic ∨ h.downsample = .geometric)
    (before : Option Rat) (period : Points Rat) :
    h.valueOn? false before period =
      if period = [] then h.upsample.fill? before else some (h.downsample.total period) := by
  unfold valueOn?
  rw [Bool.and_false, Policy.fold?_eq_total _ hflow]
  cases period <;> simp

namespace Schedule

/-! ## (2) Dates in two parts -/

/-- `pointOn d v`: the point of a date, if it has a value. -/
def pointOn (d : Instant) (v : Option α) : Points α := (v.map fun v => ⟨d, v⟩).toList

/-- `lastBy before ps d`: the last value up to a date, given the one before all points. -/
def lastBy (before : Option α) (ps : Points α) (d : Instant) : Option α :=
  ((ps.upTo d).getLast?.map Point.value).or before

/-- Points on dates of which none is incomplete: that of the first date, and those of the others. -/
theorem resampleFrom_cons (h : Header) (before : Option α) (ps : Points α) (d : Instant)
    (dates : List Instant) :
    resampleFrom h false false before ps (d :: dates) =
      pointOn d (h.valueOn? false before (ps.upTo d)) ++
        resampleFrom h false false (lastBy before ps d) (ps.rest (some d)) dates := by
  rw [resampleFrom, Bool.and_false, Bool.or_false, ← Points.upTo]
  cases h.valueOn? false before (ps.upTo d) <;> rfl

omit [Scalar α] in
/-- `lastBy (lastBy before ps c) (ps.rest (some c)) d = lastBy before ps d`: the last value up to a
date, taken up at an earlier one. -/
theorem lastBy_lastBy {c d : Instant} (hcd : c ≤ d) :
    lastBy (lastBy before ps c) (ps.rest (some c)) d = lastBy before ps d := by
  rw [lastBy, lastBy, lastBy, ps.upTo_eq_append hcd, List.getLast?_append, Option.map_or,
    Option.or_assoc]

/-- **Dates in two parts**: those after a date begin with what is left there. -/
theorem resampleFrom_append {fine : List Instant} {c : Instant} (hfine : ∀ f ∈ fine, f < c)
    (dates : List Instant) :
    resampleFrom h false false before ps (fine ++ c :: dates) =
      resampleFrom h false false before ps (fine ++ [c]) ++
        resampleFrom h false false (lastBy before ps c) (ps.rest (some c)) dates := by
  induction fine generalizing before ps with
  | nil =>
    rw [List.nil_append, List.nil_append, resampleFrom_cons, resampleFrom_cons]
    simp [resampleFrom]
  | cons f fine ih =>
    obtain ⟨hf, hfine⟩ := List.forall_mem_cons.1 hfine
    have hle : f ≤ c := Int.le_of_lt hf
    rw [List.cons_append, List.cons_append, resampleFrom_cons, resampleFrom_cons, ih hfine,
      lastBy_lastBy hle, ps.rest_rest hle, List.append_assoc]

/-! ## (3) A coarse period from fine ones -/

/-- The point of a period that is folded has the total of the period:
`h.downsample.total (pointOn d (h.valueOn? false before period)) = h.downsample.total period`. -/
theorem total_pointOn {h : Header} (hflow : h.downsample = .arithmetic ∨ h.downsample = .geometric)
    (hfill : h.upsample = .drop ∨ h.upsample = .zero) (d : Instant) (before : Option Rat)
    (period : Points Rat) :
    h.downsample.total (pointOn d (h.valueOn? false before period)) =
      h.downsample.total period := by
  rw [h.valueOn?_of_flow hflow]
  split
  next hempty =>
    subst hempty
    rcases hfill with hfill | hfill <;> simp [hfill, Policy.fill?, pointOn]
  next hsome => simp [pointOn]

/-- `pointOn d (h.valueOn? false before period) = [] ↔ period = [] ∧ h.upsample = .drop`: a period
that is folded has no point just when it is empty and gaps are left out. -/
theorem pointOn_eq_nil_iff {h : Header}
    (hflow : h.downsample = .arithmetic ∨ h.downsample = .geometric)
    (hfill : h.upsample = .drop ∨ h.upsample = .zero) {d : Instant} {before : Option Rat}
    {period : Points Rat} :
    pointOn d (h.valueOn? false before period) = [] ↔ period = [] ∧ h.upsample = .drop := by
  rw [h.valueOn?_of_flow hflow]
  split
  next hempty => rcases hfill with hfill | hfill <;> simp [hfill, hempty, Policy.fill?, pointOn]
  next hsome => simp [hsome, pointOn]

/-- The last value of a level on fine dates is that of the whole period:
`(resampleFrom h false false before ps (fine ++ [c])).getLast?.map Point.value` is
`h.valueOn? false before (ps.upTo c)`. -/
theorem getLast?_resampleFrom (hlast : h.downsample = .lastValue)
    (hfill : h.upsample = .drop ∨ h.upsample = .lastValue) {fine : List Instant} {c : Instant}
    (hfine : ∀ f ∈ fine, f < c) :
    (resampleFrom h false false before ps (fine ++ [c])).getLast?.map Point.value =
      h.valueOn? false before (ps.upTo c) := by
  induction fine generalizing before ps with
  | nil =>
    rw [List.nil_append, resampleFrom_cons, resampleFrom, List.append_nil]
    cases h.valueOn? false before (ps.upTo c) <;> rfl
  | cons f fine ih =>
    obtain ⟨hf, hfine⟩ := List.forall_mem_cons.1 hfine
    have hpoint : ∀ v : Option α, (pointOn f v).getLast?.map Point.value = v :=
      fun v => by cases v <;> rfl
    rw [List.cons_append, resampleFrom_cons, List.getLast?_append, Option.map_or, ih hfine, hpoint,
      ps.upTo_eq_append (Int.le_of_lt hf), h.valueOn?_of_lastValue hlast,
      h.valueOn?_of_lastValue hlast, h.valueOn?_of_lastValue hlast, List.getLast?_append,
      Option.map_or, lastBy]
    rcases hfill with hfill | hfill
    · -- nothing is carried over a gap
      simp [hfill, Policy.fill?]
    · -- the last of the values before is carried
      rw [hfill]
      simp only [Policy.fill?]
      grind

/-- The total of a flow on fine dates is that of the whole period:
`h.downsample.total (resampleFrom h false false before ps (fine ++ [c]))` is
`h.downsample.total (ps.upTo c)`. -/
theorem total_resampleFrom {h : Header}
    (hflow : h.downsample = .arithmetic ∨ h.downsample = .geometric)
    (hfill : h.upsample = .drop ∨ h.upsample = .zero) {fine : List Instant} {c : Instant}
    (hfine : ∀ f ∈ fine, f < c) (before : Option Rat) (ps : Points Rat) :
    h.downsample.total (resampleFrom h false false before ps (fine ++ [c])) =
      h.downsample.total (ps.upTo c) := by
  induction fine generalizing before ps with
  | nil =>
    rw [List.nil_append, resampleFrom_cons, resampleFrom, List.append_nil,
      total_pointOn hflow hfill]
  | cons f fine ih =>
    obtain ⟨hf, hfine⟩ := List.forall_mem_cons.1 hfine
    rw [List.cons_append, resampleFrom_cons, Policy.total_append, ih hfine,
      total_pointOn hflow hfill, ps.upTo_eq_append (Int.le_of_lt hf), Policy.total_append]

/-- A flow has no points on fine dates just when the whole period is empty and gaps are left out:
`resampleFrom h false false before ps (fine ++ [c]) = []` just when
`ps.upTo c = [] ∧ h.upsample = .drop`. -/
theorem resampleFrom_eq_nil_iff {h : Header}
    (hflow : h.downsample = .arithmetic ∨ h.downsample = .geometric)
    (hfill : h.upsample = .drop ∨ h.upsample = .zero) {fine : List Instant} {c : Instant}
    (hfine : ∀ f ∈ fine, f < c) {before : Option Rat} {ps : Points Rat} :
    resampleFrom h false false before ps (fine ++ [c]) = [] ↔
      ps.upTo c = [] ∧ h.upsample = .drop := by
  induction fine generalizing before ps with
  | nil =>
    rw [List.nil_append, resampleFrom_cons, resampleFrom, List.append_nil,
      pointOn_eq_nil_iff hflow hfill]
  | cons f fine ih =>
    obtain ⟨hf, hfine⟩ := List.forall_mem_cons.1 hfine
    rw [List.cons_append, resampleFrom_cons, List.append_eq_nil_iff, ih hfine,
      pointOn_eq_nil_iff hflow hfill, ps.upTo_eq_append (Int.le_of_lt hf), List.append_eq_nil_iff]
    grind

/-- **A coarse period is put together from fine ones**, when nothing that is carried into the period
comes from nowhere: `h.valueOn? false carried (resampleFrom h false false before ps (fine ++ [c]))`
is `h.valueOn? false before (ps.upTo c)`. -/
theorem valueOn?_resampleFrom {h : Header} (hh : h.Composes) {fine : List Instant} {c : Instant}
    (hfine : ∀ f ∈ fine, f < c) {before carried : Option Rat}
    (hcarried : h.upsample.fill? before = none → h.upsample.fill? carried = none)
    (ps : Points Rat) :
    h.valueOn? false carried (resampleFrom h false false before ps (fine ++ [c])) =
      h.valueOn? false before (ps.upTo c) := by
  rcases hh with ⟨hfill, hlast⟩ | ⟨hfill, hflow⟩
  · rw [h.valueOn?_of_lastValue hlast, getLast?_resampleFrom hlast hfill hfine]
    cases hvalue : h.valueOn? false before (ps.upTo c) with
    | some v => rfl
    | none =>
      rw [h.valueOn?_of_lastValue hlast, Option.or_eq_none_iff] at hvalue
      exact hcarried hvalue.2
  · rw [h.valueOn?_of_flow hflow, h.valueOn?_of_flow hflow, total_resampleFrom hflow hfill hfine]
    simp only [resampleFrom_eq_nil_iff hflow hfill hfine]
    by_cases hempty : ps.upTo c = []
    · rcases hfill with hfill | hfill <;> simp [hfill, hempty, Policy.fill?]
    · simp [hempty]

/-- `h.upsample.fill? (lastBy carried block c) = none`: what is carried on from fine dates comes
from nowhere only where nothing is carried on from the points themselves. -/
theorem fill?_lastBy_resampleFrom {h : Header} (hh : h.Composes) {fine : List Instant} {c : Instant}
    (hfine : ∀ f ∈ fine, f < c) {before carried : Option Rat}
    (hcarried : h.upsample.fill? before = none → h.upsample.fill? carried = none)
    {ps block : Points Rat}
    (hblock : block.upTo c = resampleFrom h false false before ps (fine ++ [c]))
    (hnone : h.upsample.fill? (lastBy before ps c) = none) :
    h.upsample.fill? (lastBy carried block c) = none := by
  rcases hh with ⟨hfill | hfill, hlast⟩ | ⟨hfill | hfill, -⟩
  · simp [hfill, Policy.fill?]
  · -- a value is carried only when there is a point or a value before
    simp only [hfill, Policy.fill?] at hcarried hnone ⊢
    obtain ⟨hpoints, hbefore⟩ := Option.or_eq_none_iff.1 hnone
    have hvalue : (resampleFrom h false false before ps (fine ++ [c])).getLast?.map Point.value =
        h.valueOn? false before (ps.upTo c) := getLast?_resampleFrom hlast (.inr hfill) hfine
    rw [h.valueOn?_of_lastValue hlast, hpoints, hfill, Policy.fill?, hbefore] at hvalue
    rw [lastBy, hblock, hbefore, hvalue, hcarried hbefore]
    rfl
  · simp [hfill, Policy.fill?]
  · simp [hfill, Policy.fill?] at hnone

/-! ## (4) The whole series -/

/-- **Coarse dates by way of fine ones**, from some date on:
`resampleFrom h false false carried (resampleFrom h false false before ps fine) coarse` is
`resampleFrom h false false before ps coarse`. -/
theorem resampleFrom_resampleFrom {h : Header} (hh : h.Composes) {fine coarse : List Instant}
    (hfine : fine.Pairwise (· < ·)) (hcoarse : coarse.Pairwise (· < ·)) (hsub : coarse ⊆ fine)
    {before carried : Option Rat}
    (hcarried : h.upsample.fill? before = none → h.upsample.fill? carried = none)
    (ps : Points Rat) :
    resampleFrom h false false carried (resampleFrom h false false before ps fine) coarse =
      resampleFrom h false false before ps coarse := by
  induction coarse generalizing fine before carried ps with
  | nil => rfl
  | cons c coarse ih =>
    obtain ⟨hc, hcoarse⟩ := List.pairwise_cons.1 hcoarse
    -- the fine dates up to this one, and those of later coarse dates
    obtain ⟨fine, later, rfl⟩ := List.append_of_mem (hsub List.mem_cons_self)
    obtain ⟨-, hlater, hbefore⟩ := List.pairwise_append.1 hfine
    obtain ⟨hafter, hlater⟩ := List.pairwise_cons.1 hlater
    have hfine : ∀ f ∈ fine, f < c := fun f hf => hbefore f hf c List.mem_cons_self
    have hsub : coarse ⊆ later := by
      intro t ht
      have hlt := hc t ht
      rcases List.mem_append.1 (hsub (List.mem_cons_of_mem c ht)) with hmem | hmem
      · exact absurd (hfine t hmem) (by lia)
      · exact (List.mem_cons.1 hmem).resolve_left (by lia)
    rw [resampleFrom_append hfine, resampleFrom_cons, resampleFrom_cons h before]
    -- the points on these fine dates are the coarse period
    have hblock : ∀ p ∈ resampleFrom h false false before ps (fine ++ [c]), p.time ≤ c := by
      intro p hp
      rcases List.mem_append.1 (time_mem_of_mem_resampleFrom hp) with hmem | hmem
      · exact Int.le_of_lt (hfine _ hmem)
      · exact Int.le_of_eq (List.mem_singleton.1 hmem)
    have hrest : ∀ p ∈ resampleFrom h false false (lastBy before ps c) (ps.rest (some c)) later,
        c < p.time := fun p hp => hafter _ (time_mem_of_mem_resampleFrom hp)
    obtain ⟨hupTo, hleft⟩ := Points.upTo_append_of_le hblock hrest
    rw [hupTo, hleft, valueOn?_resampleFrom hh hfine hcarried,
      ih hlater hcoarse hsub (fill?_lastBy_resampleFrom hh hfine hcarried hupTo)]

/-- **Points that are moved onto dates, and from there onto some of these, are moved onto the latter
at once**: `(ofDates coarse false false).resample h ((ofDates fine false false).resample h ps)` is
`(ofDates coarse false false).resample h ps` and
`(ofDates fine false false).resample h ((ofDates fine false false).resample h ps)` is
`(ofDates fine false false).resample h ps`. To move them onto the same dates once more changes
nothing. -/
theorem resample_resample {h : Header} (hh : h.Composes) {coarse fine : List Instant}
    (hsub : coarse ⊆ fine) (ps : Points Rat) :
    (ofDates coarse false false).resample h ((ofDates fine false false).resample h ps) =
        (ofDates coarse false false).resample h ps ∧
      (ofDates fine false false).resample h ((ofDates fine false false).resample h ps) =
        (ofDates fine false false).resample h ps := by
  have hstages : ∀ {some : List Instant}, some ⊆ fine →
      (ofDates some false false).resample h ((ofDates fine false false).resample h ps) =
        (ofDates some false false).resample h ps := by
    intro some hsome
    refine resampleFrom_resampleFrom hh (distinctSorted_pairwise fine) (distinctSorted_pairwise some)
      (fun t ht => ?_) id ps
    exact mem_distinctSorted.2 (hsome (mem_distinctSorted.1 ht))
  exact ⟨hstages hsub, hstages (List.Subset.refl fine)⟩

/-- Sums of two fine periods each, the second of which is empty: the zero in it is observed nowhere,
and adds nothing to the coarse period. -/
theorem resample_resample_sums :
    Header.Composes { upsample := .zero, downsample := .arithmetic } ∧
    ([20, 40] : List Instant) ⊆ [10, 20, 30, 40] ∧
    (ofDates [20, 40] false false).resample { upsample := .zero, downsample := .arithmetic }
      ((ofDates [10, 20, 30, 40] false false).resample
        { upsample := .zero, downsample := .arithmetic } [⟨4, 1⟩, ⟨9, 2⟩, ⟨31, (3 : Rat)⟩]) =
      [⟨20, 3⟩, ⟨40, 3⟩] := by
  have hpolicies : Header.Composes { upsample := .zero, downsample := .arithmetic } := by decide
  have hsub : ([20, 40] : List Instant) ⊆ [10, 20, 30, 40] := by decide
  have hdates : ofDates [20, 40] false false = ⟨[20, 40], false, false⟩ := by cbv
  refine ⟨hpolicies, hsub, ?_⟩
  rw [(resample_resample hpolicies hsub [⟨4, 1⟩, ⟨9, 2⟩, ⟨31, 3⟩]).1, hdates]
  decide +kernel

end Schedule

end PanelQuery
