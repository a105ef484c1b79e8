import Mathlib.Data.List.TakeWhile
import PanelQuery.Entity
import PanelQuery.Proofs.Series.Order

/-! # Series cut at a time

What is left of a series when nothing after some time is known. Of points in order, that is a
beginning.

* **`Series.cutAt`, `Entity.cutAt`** — what is known at a time; weights are kept whole;
* **`Points.Increasing.filter_le_eq_upTo`** — the points up to a time are a beginning;
* **`Points.ofWrites_of_increasing`** — points in order are what their writes leave;
* **`Points.carried?_upTo`** — what a later cut leaves of a value that is carried forward. -/

namespace PanelQuery

variable {α : Type}

/-! ## (1) Cuts -/

/-- `Series.cutAt d s`: the series without the points after a time. -/
def Series.cutAt (d : Instant) (s : Series α) : Series α := s.keep fun p => decide (p.time ≤ d)

/-- `Entity.cutAt d e`: the entity with its fields cut at a time. -/
def Entity.cutAt (d : Instant) (e : Entity α) : Entity α := e.mapFields (Series.cutAt d)

/-- `(e.mapFields f).fields = e.fields.map f`: fields that are changed in place, as long as they
stay fields. -/
theorem Entity.fields_mapFields {f : Series α → Series α} (hf : ∀ s, (f s).isWeight = s.isWeight)
    (e : Entity α) : (e.mapFields f).fields = e.fields.map f := by
  unfold Entity.mapFields Entity.fields
  dsimp only
  induction e.series with
  | nil => rfl
  | cons s ss ih =>
    rw [List.map_cons]
    by_cases hs : s.isWeight
    · have hkept : (!s.isWeight) = false := by rw [hs]; rfl
      rw [if_pos hs, List.filter_cons_of_neg (by rw [hkept]; exact Bool.false_ne_true),
        List.filter_cons_of_neg (by rw [hkept]; exact Bool.false_ne_true), ih]
    · have hkept : (!s.isWeight) = true := by rw [Bool.of_not_eq_true hs]; rfl
      rw [if_neg hs, List.filter_cons_of_pos (by rw [hf]; exact hkept),
        List.filter_cons_of_pos (by exact hkept), List.map_cons, ih]

/-- `(e.cutAt d).fields = e.fields.map (Series.cutAt d)`: the fields of an entity that is cut. -/
theorem Entity.fields_cutAt (d : Instant) (e : Entity α) :
    (e.cutAt d).fields = e.fields.map (Series.cutAt d) :=
  Entity.fields_mapFields (f := Series.cutAt d) (fun _ => rfl) e

/-- A cut series is in order: `(s.cutAt d).Increasing`. -/
theorem Series.Increasing.cutAt {s : Series α} (h : s.Increasing) (d : Instant) :
    (s.cutAt d).Increasing :=
  h.keep _

/-! ## (2) Points in order -/

namespace Points

/-- `ps.Increasing ↔ ps.times.Pairwise (· < ·)`: points are in order when their times are. -/
theorem increasing_iff_times {ps : Points α} : ps.Increasing ↔ ps.times.Pairwise (· < ·) :=
  List.pairwise_map.symm

/-- The times of the points up to some time:
`times (ps.filter fun p => decide (p.time ≤ d)) = ps.times.filter fun t => decide (t ≤ d)`. -/
theorem times_filter_le (ps : Points α) (d : Instant) :
    times (ps.filter fun p => decide (p.time ≤ d)) =
      ps.times.filter fun t => decide (t ≤ d) := by
  rw [times, times, List.filter_map]
  rfl

/-- **Of points in order, those up to a time are a beginning**:
`(ps.filter fun p => decide (p.time ≤ d)) = ps.upTo d`. -/
theorem Increasing.filter_le_eq_upTo {ps : Points α} (h : ps.Increasing) (d : Instant) :
    (ps.filter fun p => decide (p.time ≤ d)) = ps.upTo d := by
  unfold upTo
  induction ps with
  | nil => rfl
  | cons p ps ih =>
    obtain ⟨hp, hps⟩ := increasing_cons.1 h
    by_cases hd : p.time ≤ d
    · rw [List.filter_cons_of_pos (by exact decide_eq_true hd),
        List.takeWhile_cons_of_pos (by exact decide_eq_true hd), ih hps]
    · -- all later points are out as well
      have hnone : ps.filter (fun q => decide (q.time ≤ d)) = [] := by
        refine List.filter_eq_nil_iff.2 fun q hq hle => hd ?_
        exact Int.le_trans (Int.le_of_lt (hp q hq)) (of_decide_eq_true hle)
      have hneg : ¬decide (p.time ≤ d) = true := fun hle => hd (of_decide_eq_true hle)
      rw [List.filter_cons_of_neg (by exact hneg), List.takeWhile_cons_of_neg (by exact hneg),
        hnone]

/-- `ps.keepLast = ps`: the last points of their times are all points, where they are in order. -/
theorem keepLast_of_increasing {ps : Points α} (h : ps.Increasing) : ps.keepLast = ps := by
  fun_induction keepLast ps with
  | case1 p q rest heq ih =>
    have hlt := (increasing_cons.1 h).1 q List.mem_cons_self
    -- no two points have one time
    exact absurd heq (Int.ne_of_lt hlt)
  | case2 p q rest hne ih => rw [ih (increasing_cons.1 h).2]
  | case3 ps hps => rfl

/-- **Points in order are what their writes leave**: `ofWrites ps = ps`. -/
theorem ofWrites_of_increasing {ps : Points α} (h : ps.Increasing) : ofWrites ps = ps := by
  have hsorted : ps.Pairwise fun p q => decide (p.time ≤ q.time) = true :=
    h.imp fun hlt => decide_eq_true (Int.le_of_lt hlt)
  rw [ofWrites, List.mergeSort_of_pairwise hsorted, keepLast_of_increasing h]

/-- What is left of writes in order is what those up to the time leave:
`(ofWrites ps).filter (fun p => decide (p.time ≤ d))` is
`ofWrites (ps.filter fun p => decide (p.time ≤ d))`. -/
theorem Increasing.filter_ofWrites {ps : Points α} (h : ps.Increasing) (d : Instant) :
    (ofWrites ps).filter (fun p => decide (p.time ≤ d)) =
      ofWrites (ps.filter fun p => decide (p.time ≤ d)) := by
  rw [ofWrites_of_increasing h, ofWrites_of_increasing (h.filter _)]

/-- The points up to a time, and those after it:
`(ps.filter fun p => decide (p.time ≤ d)) ++ ps.dropWhile (fun p => decide (p.time ≤ d)) = ps`. -/
theorem Increasing.filter_le_append {ps : Points α} (h : ps.Increasing) (d : Instant) :
    (ps.filter fun p => decide (p.time ≤ d)) ++ ps.dropWhile (fun p => decide (p.time ≤ d)) =
      ps := by
  rw [h.filter_le_eq_upTo]
  exact List.takeWhile_append_dropWhile

/-- The points that are dropped up to a time come after it: `d < p.time`. -/
theorem Increasing.lt_of_mem_dropWhile {ps : Points α} (h : ps.Increasing) {d : Instant}
    {p : Point α} (hp : p ∈ ps.dropWhile fun p => decide (p.time ≤ d)) : d < p.time := by
  induction ps with
  | nil => cases hp
  | cons q ps ih =>
    obtain ⟨hq, hps⟩ := increasing_cons.1 h
    by_cases hd : q.time ≤ d
    · rw [List.dropWhile_cons_of_pos (by exact decide_eq_true hd)] at hp
      exact ih hps hp
    · rw [List.dropWhile_cons_of_neg (by exact fun hle => hd (of_decide_eq_true hle))] at hp
      rcases List.mem_cons.1 hp with rfl | hp
      · exact Int.not_le.1 hd
      · exact Int.lt_trans (Int.not_le.1 hd) (hq p hp)

end Points

namespace Series

/-- A cut series that is made of points in order:
`(ofWrites header ps).cutAt d = .ofWrites header (ps.filter fun p => decide (p.time ≤ d))`. -/
theorem cutAt_ofWrites {ps : Points α} (h : ps.Increasing) (header : Header) (d : Instant) :
    (ofWrites header ps).cutAt d = .ofWrites header (ps.filter fun p => decide (p.time ≤ d)) :=
  congrArg (Series.mk header · false) (h.filter_ofWrites d)

/-- **A cut series in order is a beginning of the series**: `(s.cutAt d).points <+: s.points`. -/
theorem Increasing.cutAt_beginning {s : Series α} (h : s.Increasing) (d : Instant) :
    (s.cutAt d).points <+: s.points := by
  show (s.points.filter _) <+: s.points
  rw [Points.Increasing.filter_le_eq_upTo h]
  exact List.takeWhile_prefix _

/-- `(s.cutAt d).points.length = (t.cutAt d).points.length`: cut series of the same dates have the
same length. -/
theorem length_cutAt {s t : Series α} (h : s.points.times = t.points.times) (d : Instant) :
    (s.cutAt d).points.length = (t.cutAt d).points.length := by
  have htimes : (s.cutAt d).points.times = (t.cutAt d).points.times := by
    show Points.times (s.points.filter _) = Points.times (t.points.filter _)
    rw [Points.times_filter_le, Points.times_filter_le, h]
  rw [← List.length_map (f := Point.time), ← List.length_map (f := Point.time)]
  exact congrArg List.length htimes

end Series

namespace Points

/-! ## (3) Values that are carried forward -/

/-- `(carried? (p :: ps) t).isSome ↔ p.time ≤ t`: a value is carried forward to a time when there is
a point up to it. -/
theorem isSome_carried?_cons {p : Point α} {ps : Points α} {t : Instant} :
    (carried? (p :: ps) t).isSome ↔ p.time ≤ t := by
  unfold carried? asOf? upTo
  by_cases ht : p.time ≤ t
  · rw [List.takeWhile_cons_of_pos (by exact decide_eq_true ht), Option.isSome_map,
      List.getLast?_cons]
    exact ⟨fun _ => ht, fun _ => rfl⟩
  · rw [List.takeWhile_cons_of_neg (by exact fun hle => ht (of_decide_eq_true hle))]
    exact ⟨fun h => absurd h Bool.false_ne_true, fun h => absurd h ht⟩

/-- A value that is carried forward to a time is so to all later times:
`(ps.carried? t').isSome`. -/
theorem isSome_carried?_mono {ps : Points α} {t t' : Instant} (ht : t ≤ t')
    (h : (ps.carried? t).isSome) : (ps.carried? t').isSome := by
  cases ps with
  | nil => cases h
  | cons p ps => exact isSome_carried?_cons.2 (Int.le_trans (isSome_carried?_cons.1 h) ht)

/-- **A value that is carried forward does not depend on what is known later**:
`(ps.upTo d).carried? t = ps.carried? t`. -/
theorem carried?_upTo {ps : Points α} {t d : Instant} (h : t ≤ d) :
    (ps.upTo d).carried? t = ps.carried? t := by
  -- points up to the earlier time are points up to the later one
  have hboth : (fun p : Point α => decide (p.time ≤ t) && decide (p.time ≤ d)) =
      fun p => decide (p.time ≤ t) := by
    funext p
    by_cases hp : p.time ≤ t
    · rw [decide_eq_true hp, decide_eq_true (Int.le_trans hp h)]
      rfl
    · rw [decide_eq_false hp]
      rfl
  rw [carried?, carried?, asOf?, asOf?, upTo, upTo, upTo, List.takeWhile_takeWhile]
  simp only [Bool.decide_and, Bool.decide_eq_true, hboth]

end Points

end PanelQuery
