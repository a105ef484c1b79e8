import PanelQuery.Proofs.Panel.Operations
import PanelQuery.Proofs.Series.Lookup

/-! # Weights that are made of two

An entity without weight counts at all times, and one with a weight when the value that the weight
carries forward is not zero. A weight that is made of two has ones and zeros on the dates of both;
it counts by a rule on the two at all times, not only on these dates, once one of them has begun.

* **`Entity.CountsAt`, `HasBegun`** — when an entity counts, and when one of two weights begins;
* **`Entity.countsAt_combinedWeight?`** — a weight that is made of two, at any time;
* **`Entity.isMemberAt_combine_iff`, `isMemberAt_setWeight_excludedWeight`** — entities of both
  sides. -/

namespace PanelQuery

variable {α : Type}

/-! ## (1) Entities that count -/

/-- Numbers of which one differs from zero. -/
class ZeroOne (α : Type) [Scalar α] : Prop where
  zero_beq : ((0 : α) == 0) = true
  one_beq : ((1 : α) == 0) = false

instance : ZeroOne Float := ⟨by decide, by decide⟩

/-- `Entity.CountsAt e t`: an entity counts at a time when it has no weight, or the weight that is
carried forward to the time is there and not zero. -/
def Entity.CountsAt [Scalar α] (e : Entity α) (t : Instant) : Prop :=
  e.weight? = none ∨ ∃ w x, e.weight? = some w ∧ w.points.carried? t = some x ∧ (x == 0) = false

/-- `Series.HasBegun s t`: a series has begun at a time when it has a point up to the time. -/
def Series.HasBegun (s : Series α) (t : Instant) : Prop := ∃ p ∈ s.points, p.time ≤ t

/-- `HasBegun a b t`: one of two weights has begun at a time. -/
def HasBegun (a b : Option (Series α)) (t : Instant) : Prop :=
  ∃ w, (a = some w ∨ b = some w) ∧ w.HasBegun t

/-- `e.isMemberAt t = true ↔ e.CountsAt t`: the test whether an entity counts. -/
theorem Entity.isMemberAt_iff [Scalar α] {e : Entity α} {t : Instant} :
    e.isMemberAt t = true ↔ e.CountsAt t := by
  unfold isMemberAt countsAt CountsAt
  cases hw : e.weight? with
  | none => simp
  | some w => cases hx : w.points.carried? t <;> simp [hx]

instance [Scalar α] (e : Entity α) (t : Instant) : Decidable (e.CountsAt t) :=
  decidable_of_iff _ Entity.isMemberAt_iff

instance (s : Series α) (t : Instant) : Decidable (s.HasBegun t) :=
  inferInstanceAs (Decidable (∃ p ∈ s.points, p.time ≤ t))

instance (a b : Option (Series α)) (t : Instant) : Decidable (HasBegun a b t) :=
  decidable_of_iff (∃ w ∈ a.toList ++ b.toList, w.HasBegun t)
    (exists_congr fun w => by rw [List.mem_append, Option.mem_toList, Option.mem_toList])

/-! ## (2) Weights that are made of two -/

/-- `combinedDates a b`: the dates of a weight that is made of two. -/
def combinedDates (a b : Option (Series α)) : List Instant :=
  distinctSorted ((a.toList ++ b.toList).flatMap fun s => s.points.times)

/-- `d ∈ combinedDates a b ↔ ∃ w, (a = some w ∨ b = some w) ∧ ∃ p ∈ w.points, p.time = d`: the dates
of a weight that is made of two are those of the two. -/
theorem mem_combinedDates {a b : Option (Series α)} {d : Instant} :
    d ∈ combinedDates a b ↔ ∃ w, (a = some w ∨ b = some w) ∧ ∃ p ∈ w.points, p.time = d := by
  rw [combinedDates, mem_distinctSorted, List.mem_flatMap]
  refine exists_congr fun w => ?_
  rw [List.mem_append, Option.mem_toList, Option.mem_toList, Points.times, List.mem_map]

/-- Points on dates in order are in order: `Increasing (dates.map fun d => ⟨d, f d⟩)`. -/
theorem Points.increasing_map_dates (f : Instant → α) {dates : List Instant}
    (h : dates.Pairwise (· < ·)) : Increasing (dates.map fun d => ⟨d, f d⟩) :=
  List.pairwise_map.2 h

namespace Entity

section Counting

variable [Scalar α]

/-- A weight that counts has begun: `w.HasBegun t`. -/
theorem hasBegun_of_countsAt {w : Series α} {t : Instant} (h : countsAt (some w) t = true) :
    w.HasBegun t := by
  by_contra hnot
  have hnone : w.points.carried? t = none :=
    Points.carried?_eq_none fun p hp hle => hnot ⟨p, hp, hle⟩
  simp [countsAt, hnone] at h

/-- `countsAt w s = countsAt w t`: a weight counts alike at times that have the same points before
them. -/
theorem countsAt_congr {w : Option (Series α)} {s t : Instant}
    (h : ∀ v, w = some v → ∀ p ∈ v.points, p.time ≤ s ↔ p.time ≤ t) :
    countsAt w s = countsAt w t := by
  cases w with
  | none => rfl
  | some v => rw [countsAt, countsAt, Points.carried?_congr (h v rfl)]

/-- The ones and zeros of a weight that is made of two: there is `w` with
`combinedWeight? rule a b = some w` and `w.points` is
`(combinedDates a b).map fun d => ⟨d, if rule (countsAt a d) (countsAt b d) then 1 else 0⟩`. -/
theorem combinedWeight?_eq_some (rule : Bool → Bool → Bool) {a b : Option (Series α)}
    (h : ¬(a = none ∧ b = none)) :
    ∃ w, combinedWeight? rule a b = some w ∧ w.points = (combinedDates a b).map fun d =>
      ⟨d, if rule (countsAt a d) (countsAt b d) then 1 else 0⟩ := by
  have hsome : ¬(a.isNone && b.isNone) = true := by
    rwa [Bool.and_eq_true, Option.isNone_iff_eq_none, Option.isNone_iff_eq_none]
  refine ⟨_, if_neg hsome, ?_⟩
  exact Points.ofWrites_of_increasing
    (Points.increasing_map_dates _ (distinctSorted_pairwise _))

/-- **A weight that is made of two counts by the rule on the two**, from the time on at which one of
them begins: `countsAt (combinedWeight? rule a b) t = true` just when
`HasBegun a b t ∧ rule (countsAt a t) (countsAt b t) = true`. -/
theorem countsAt_combinedWeight? [ZeroOne α] (rule : Bool → Bool → Bool)
    {a b : Option (Series α)} (h : ¬(a = none ∧ b = none)) (t : Instant) :
    countsAt (combinedWeight? rule a b) t = true ↔
      HasBegun a b t ∧ rule (countsAt a t) (countsAt b t) = true := by
  obtain ⟨w, hw, hpoints⟩ := combinedWeight?_eq_some rule h
  have hincreasing : w.points.Increasing := increasing_combinedWeight? hw
  rw [hw, countsAt]
  by_cases hbegun : HasBegun a b t
  · -- the last date up to the time decides, since nothing is written between it and the time
    obtain ⟨v, hv, q, hq, hqt⟩ := hbegun
    have hsome : ∃ p ∈ w.points, p.time ≤ t := by
      rw [hpoints]
      exact ⟨_, List.mem_map_of_mem (mem_combinedDates.2 ⟨v, hv, q, hq, rfl⟩), hqt⟩
    obtain ⟨p, hp, hpt, hlast⟩ := Points.exists_last hsome
    rw [hincreasing.carried?_of_last hp hpt hlast]
    rw [hpoints] at hp hlast
    obtain ⟨d, -, rfl⟩ := List.mem_map.1 hp
    have hlast : ∀ e ∈ combinedDates a b, e ≤ t → e ≤ d :=
      fun e he => hlast _ (List.mem_map_of_mem he)
    have hsame : ∀ u : Series α, a = some u ∨ b = some u → ∀ q ∈ u.points,
        q.time ≤ d ↔ q.time ≤ t := by
      intro u hu q hq
      constructor
      · exact fun hqd => Int.le_trans hqd hpt
      · exact hlast q.time (mem_combinedDates.2 ⟨u, hu, q, hq, rfl⟩)
    rw [countsAt_congr fun u hu => hsame u (.inl hu), countsAt_congr fun u hu => hsame u (.inr hu)]
    cases hrule : rule (countsAt a t) (countsAt b t) with
    | true => simpa [hrule, ZeroOne.one_beq] using ⟨v, hv, q, hq, hqt⟩
    | false => simp [ZeroOne.zero_beq]
  · have hnone : w.points.carried? t = none := by
      refine Points.carried?_eq_none fun p hp hpt => hbegun ?_
      rw [hpoints] at hp
      obtain ⟨d, hd, rfl⟩ := List.mem_map.1 hp
      obtain ⟨v, hv, q, hq, rfl⟩ := mem_combinedDates.1 hd
      exact ⟨v, hv, q, hq, hpt⟩
    rw [hnone]
    exact iff_of_false Bool.false_ne_true fun h => hbegun h.1

/-- `countsAt (some w) t = false`: a weight of zeros never counts. -/
theorem countsAt_zeros [ZeroOne α] {w : Series α} (h : ∀ p ∈ w.points, p.value = 0) (t : Instant) :
    countsAt (some w) t = false := by
  rw [countsAt]
  cases hx : w.points.carried? t with
  | none => rfl
  | some x =>
    obtain ⟨p, hp, rfl⟩ := Option.map_eq_some_iff.1 hx
    have hmem : p ∈ w.points := (List.takeWhile_subset _) (List.mem_of_getLast? hp)
    rw [h p hmem]
    simp [ZeroOne.zero_beq]

end Counting

/-! ## (3) Entities of both sides -/

/-- `(e.setWeight s).weight? = some { s with isWeight := true }`: the weight of an entity that is
given one. -/
theorem weight?_setWeight (e : Entity α) (s : Series α) :
    (e.setWeight s).weight? = some { s with isWeight := true } := by
  have hnone : e.fields.find? Series.isWeight = none := by
    refine List.find?_eq_none.2 fun s hs => ?_
    simpa using (List.mem_filter.1 hs).2
  rw [weight?, setWeight, List.find?_append, hnone, Option.none_or]
  rfl

/-- `e.clearWeight.weight? = none`: the weight of an entity that loses its weight. -/
theorem weight?_clearWeight (e : Entity α) : e.clearWeight.weight? = none :=
  List.find?_eq_none.2 fun s hs => by simpa using (List.mem_filter.1 hs).2

variable [Scalar α]

/-- An entity of both sides counts by the weight that is made of the two:
`(l.combine rule r).isMemberAt t = countsAt (combinedWeight? rule l.weight? r.weight?) t`. -/
theorem isMemberAt_combine (rule : Bool → Bool → Bool) (l r : Entity α) (t : Instant) :
    (l.combine rule r).isMemberAt t = countsAt (combinedWeight? rule l.weight? r.weight?) t := by
  unfold combine
  extract_lets e e'
  split
  · rename_i w hw
    rw [isMemberAt, weight?_setWeight, hw]
    rfl
  · rename_i hnone
    rw [isMemberAt, weight?_clearWeight, hnone]

/-- **An entity of both sides counts by the rule on the two**, from the time on at which one of the
weights begins: `(l.combine rule r).isMemberAt t = true` just when
`HasBegun l.weight? r.weight? t ∧ rule (l.isMemberAt t) (r.isMemberAt t) = true`. -/
theorem isMemberAt_combine_iff [ZeroOne α] (rule : Bool → Bool → Bool) {l r : Entity α}
    (h : ¬(l.weight? = none ∧ r.weight? = none)) {t : Instant} :
    (l.combine rule r).isMemberAt t = true ↔
      HasBegun l.weight? r.weight? t ∧ rule (l.isMemberAt t) (r.isMemberAt t) = true := by
  rw [isMemberAt_combine]
  exact countsAt_combinedWeight? rule h t

/-- `countsAt (some (excludedWeight l r)) t = false`: a weight without the times of a right entity
that always counts never counts. -/
theorem countsAt_excludedWeight_of_none [ZeroOne α] {l r : Entity α} (hr : r.weight? = none)
    (t : Instant) : countsAt (some (excludedWeight l r)) t = false := by
  refine countsAt_zeros (fun p hp => ?_) t
  rw [excludedWeight, hr] at hp
  -- what is written is zero on each date
  have hmem := Points.mem_of_mem_keepLast hp
  rw [List.mem_mergeSort] at hmem
  obtain ⟨d, -, rfl⟩ := List.mem_map.1 hmem
  rfl

/-- A weight without the times of a right entity with a weight is made of the two:
`some (excludedWeight l r)` is
`combinedWeight? (fun inLeft inRight => inLeft && !inRight) l.weight? r.weight?`. -/
theorem some_excludedWeight {l r : Entity α} {w : Series α} (hr : r.weight? = some w) :
    some (excludedWeight l r) =
      combinedWeight? (fun inLeft inRight => inLeft && !inRight) l.weight? r.weight? := by
  have hboth : ¬(l.weight? = none ∧ r.weight? = none) := by simp [hr]
  obtain ⟨v, hv, -⟩ := combinedWeight?_eq_some (fun inLeft inRight => inLeft && !inRight) hboth
  rw [excludedWeight, hr]
  rw [hr] at hv
  rw [hv, Option.getD_some]

/-- **An entity without the times of the right one** counts where it does and the right one does
not, from the time on at which one of the weights begins:
`(l.setWeight (excludedWeight l r)).isMemberAt t = true` just when
`HasBegun l.weight? r.weight? t ∧ (l.isMemberAt t && !r.isMemberAt t) = true`. -/
theorem isMemberAt_setWeight_excludedWeight [ZeroOne α] {l r : Entity α}
    (h : ¬(l.weight? = none ∧ r.weight? = none)) {t : Instant} :
    (l.setWeight (excludedWeight l r)).isMemberAt t = true ↔
      HasBegun l.weight? r.weight? t ∧ (l.isMemberAt t && !r.isMemberAt t) = true := by
  have hweight : (l.setWeight (excludedWeight l r)).isMemberAt t =
      countsAt (some (excludedWeight l r)) t := by
    rw [isMemberAt, weight?_setWeight]
    rfl
  rw [hweight]
  cases hr : r.weight? with
  | none =>
    -- the right entity counts at all times
    have hright : r.isMemberAt t = true := by
      rw [isMemberAt, hr]
      rfl
    rw [countsAt_excludedWeight_of_none hr, hright, Bool.not_true, Bool.and_false]
    exact iff_of_false Bool.false_ne_true fun hcounts => Bool.false_ne_true hcounts.2
  | some w =>
    rw [some_excludedWeight hr, countsAt_combinedWeight? _ h, ← hr]
    rfl

end Entity

end PanelQuery
