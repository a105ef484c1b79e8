import Mathlib.Data.List.Nodup
import PanelQuery.Proofs.Category.InOrder

/-! # Categories that are written in any order

A write behind all points makes its label active from its time on. A write before the last point
should make it active up to the next change, and leave every other time alone. It does, with one
exception: the test for a label that is active already looks at the last point, also when the write
is before it, and so a write that repeats the last label is lost.

* **`Covers`** — the times from a write up to the next change;
* **`activeSlot?_insertPoint`, `activeSlot?_dropSame`** — a point that goes to its place, and the
  repetitions that are dropped afterwards;
* **`TakesEffect`, `Loses`** — what a write should do, and when it does nothing;
* **`ofWrites_takesEffect_iff`** — a write takes effect unless it is lost. -/

namespace PanelQuery.Category

/-! ## (1) Slots from point to point -/

section Slots

variable {ps : List CategoryPoint} {p : CategoryPoint} {t time : Instant}

/-- From a point on its slot is active, unless there is a later one:
`activeSlot? (p :: ps) t = if p.time ≤ t then some ((activeSlot? ps t).getD p.slot) else none`. -/
theorem activeSlot?_cons (p : CategoryPoint) (ps : List CategoryPoint) (t : Instant) :
    activeSlot? (p :: ps) t =
      if p.time ≤ t then some ((activeSlot? ps t).getD p.slot) else none := by
  unfold activeSlot?
  split
  · rename_i hle
    rw [List.takeWhile_cons_of_pos (by exact decide_eq_true hle), List.getLast?_cons,
      Option.map_some, Option.getD_map]
  · rename_i hlt
    rw [List.takeWhile_cons_of_neg (by simpa using hlt)]
    rfl

/-- Points behind the first one: `Increasing ps`. -/
theorem Increasing.tail (h : Increasing (p :: ps)) : Increasing ps := (List.pairwise_cons.1 h).2

/-- The first point is before the others: `p.time < q.time`. -/
theorem Increasing.head_lt (h : Increasing (p :: ps)) {q : CategoryPoint} (hq : q ∈ ps) :
    p.time < q.time :=
  (List.pairwise_cons.1 h).1 q hq

/-- `activeSlot? ps t = none ↔ ∀ p ∈ ps, t < p.time`: no slot is active just before the first
point. -/
theorem activeSlot?_eq_none_iff (h : Increasing ps) :
    activeSlot? ps t = none ↔ ∀ p ∈ ps, t < p.time := by
  cases ps with
  | nil => exact ⟨fun _ => List.forall_mem_nil _, fun _ => rfl⟩
  | cons p rest =>
    rw [activeSlot?_cons]
    split
    · rename_i hle
      refine ⟨fun hnone => (nomatch hnone), fun hall => ?_⟩
      exact absurd (hall p List.mem_cons_self) (Int.not_lt.2 hle)
    · rename_i hlt
      have hp : t < p.time := Int.not_le.1 hlt
      refine ⟨fun _ => List.forall_mem_cons.2 ⟨hp, fun q hq => ?_⟩, fun _ => rfl⟩
      exact Int.lt_trans hp (h.head_lt hq)

/-- **Repetitions say nothing**: the slots are the same without them.
`activeSlot? (dropSame ps) t = activeSlot? ps t`. -/
theorem activeSlot?_dropSame (h : Increasing ps) (t : Instant) :
    activeSlot? (dropSame ps) t = activeSlot? ps t := by
  fun_induction dropSame ps with
  | case1 => rfl
  | case2 p rest hrest ih =>
    rw [activeSlot?_cons, activeSlot?_cons, ← ih h.tail, hrest]
  | case3 p rest q more hrest heq ih =>
    rw [activeSlot?_cons, activeSlot?_cons, ← ih h.tail, hrest, activeSlot?_cons q, heq]
    have hmore : Increasing (q :: more) := hrest ▸ h.tail.sublist (dropSame_sublist rest)
    by_cases hq : q.time ≤ t
    · rw [if_pos hq, Option.getD_some]
    · -- then the dropped point has not started, nor any behind it
      have hlater : activeSlot? more t = none := (activeSlot?_eq_none_iff hmore.tail).2
        fun r hr => Int.lt_trans (Int.not_le.1 hq) (hmore.head_lt hr)
      rw [if_neg hq, hlater]
  | case4 p rest q more hrest hne ih =>
    rw [activeSlot?_cons, activeSlot?_cons p rest, ← ih h.tail, hrest]

/-! ## (2) Writes between points -/

/-- `Covers ps time t`: the times from a write up to the next change, if any. -/
def Covers (ps : List CategoryPoint) (time t : Instant) : Prop :=
  time ≤ t ∧ ∀ p ∈ ps, time < p.time → t < p.time

instance : Decidable (Covers ps time t) :=
  inferInstanceAs (Decidable (time ≤ t ∧ ∀ p ∈ ps, time < p.time → t < p.time))

/-- A write covers its own time: `Covers ps time time`. -/
theorem covers_self (ps : List CategoryPoint) (time : Instant) : Covers ps time time :=
  ⟨Int.le_refl time, fun _ _ h => h⟩

/-- `Covers ps time t ↔ time ≤ t`: a write behind all points covers everything from its time on. -/
theorem covers_iff_of_forall_le (h : ∀ p ∈ ps, p.time ≤ time) : Covers ps time t ↔ time ≤ t :=
  ⟨And.left, fun hle => ⟨hle, fun p hp hlt => absurd hlt (Int.not_lt.2 (h p hp))⟩⟩

/-- `Covers (p :: ps) time t ↔ Covers ps time t`: a point that is not behind a write does not end
it. -/
theorem covers_cons_of_le (h : p.time ≤ time) : Covers (p :: ps) time t ↔ Covers ps time t := by
  unfold Covers
  rw [List.forall_mem_cons]
  exact and_congr_right fun _ => and_iff_right fun hlt => absurd hlt (Int.not_lt.2 h)

/-- `Covers (p :: ps) time t ↔ time ≤ t ∧ t < p.time`: a write before the first point lasts until
then. -/
theorem covers_cons_of_lt (hps : Increasing (p :: ps)) (h : time < p.time) :
    Covers (p :: ps) time t ↔ time ≤ t ∧ t < p.time := by
  refine and_congr_right fun _ => ⟨fun hall => hall p List.mem_cons_self h, fun hlt => ?_⟩
  refine List.forall_mem_cons.2 ⟨fun _ => hlt, fun q hq _ => ?_⟩
  exact Int.lt_trans hlt (hps.head_lt hq)

/-- **Up to the next change nothing changes**: `activeSlot? ps t = activeSlot? ps time`. -/
theorem activeSlot?_of_covers (h : Covers ps time t) : activeSlot? ps t = activeSlot? ps time := by
  have hsame : ∀ p ∈ ps, (p.time ≤ t ↔ p.time ≤ time) := fun p hp =>
    ⟨fun hle => Int.not_lt.1 fun hlt => Int.not_le.2 (h.2 p hp hlt) hle,
      fun hle => Int.le_trans hle h.1⟩
  clear h
  induction ps with
  | nil => rfl
  | cons p rest ih =>
    obtain ⟨hp, hrest⟩ := List.forall_mem_cons.1 hsame
    rw [activeSlot?_cons, activeSlot?_cons, ih hrest]
    exact if_congr hp rfl rfl

/-- **A point that goes to its place in time** is active up to the next change:
`activeSlot? (insertPoint p ps) t` is
`if Covers ps p.time t then some p.slot else activeSlot? ps t`. -/
theorem activeSlot?_insertPoint (hps : Increasing ps) (p : CategoryPoint) (t : Instant) :
    activeSlot? (insertPoint p ps) t =
      if Covers ps p.time t then some p.slot else activeSlot? ps t := by
  induction ps with
  | nil =>
    rw [insertPoint, activeSlot?_cons]
    exact if_congr (covers_iff_of_forall_le (List.forall_mem_nil _)).symm rfl rfl
  | cons q rest ih =>
    rw [insertPoint]
    split
    · rename_i hlt
      -- before all others, which take over from the first of them on
      rw [activeSlot?_cons, if_congr (covers_cons_of_lt hps hlt) rfl rfl, activeSlot?_cons q]
      by_cases hq : q.time ≤ t
      · rw [if_pos hq, if_pos (Int.le_trans (Int.le_of_lt hlt) hq),
          if_neg fun h => Int.not_le.2 h.2 hq, Option.getD_some]
      · rw [if_neg hq, Option.getD_none, if_congr (and_iff_left (Int.not_le.1 hq)) rfl rfl]
    split
    · rename_i heq
      -- in the place of the first one
      rw [activeSlot?_cons, if_congr (covers_cons_of_le (Int.le_of_eq heq.symm)) rfl rfl,
        activeSlot?_cons q, ← heq]
      by_cases hcovers : Covers rest p.time t
      · have hlater : activeSlot? rest t = none := (activeSlot?_eq_none_iff hps.tail).2
          fun r hr => hcovers.2 r hr (heq ▸ hps.head_lt hr)
        rw [if_pos hcovers, if_pos hcovers.1, hlater, Option.getD_none]
      rw [if_neg hcovers]
      by_cases hle : p.time ≤ t
      · -- a later point has taken over already
        have hsome : activeSlot? rest t ≠ none := fun hnone => hcovers
          ⟨hle, fun r hr _ => (activeSlot?_eq_none_iff hps.tail).1 hnone r hr⟩
        obtain ⟨slot, hslot⟩ := Option.ne_none_iff_exists'.1 hsome
        rw [hslot, Option.getD_some, Option.getD_some]
      · rw [if_neg hle, if_neg hle]
    · rename_i hge hne
      -- behind the first one
      have hle : q.time ≤ p.time := Int.not_lt.1 hge
      rw [activeSlot?_cons, if_congr (covers_cons_of_le hle) rfl rfl, activeSlot?_cons q rest,
        ih hps.tail]
      by_cases hcovers : Covers rest p.time t
      · rw [if_pos hcovers, if_pos hcovers, if_pos (Int.le_trans hle hcovers.1), Option.getD_some]
      · rw [if_neg hcovers, if_neg hcovers]

/-- The times of points do not exceed that of the last one: `∀ p ∈ ps, p.time ≤ last.time`. -/
theorem Increasing.le_getLast (h : Increasing ps) {last : CategoryPoint}
    (hlast : ps.getLast? = some last) : ∀ p ∈ ps, p.time ≤ last.time := by
  obtain ⟨before, rfl⟩ := List.getLast?_eq_some_iff.1 hlast
  intro p hp
  rcases List.mem_append.1 hp with hp | hp
  · exact Int.le_of_lt ((List.pairwise_append.1 h).2.2 p hp last List.mem_cons_self)
  · exact Int.le_of_eq (congrArg CategoryPoint.time (List.mem_singleton.1 hp))

/-- `startAt ps time slot = ps`: a write that repeats the slot of a later last point leaves the
points as they are. -/
theorem startAt_of_repeats {slot : Nat} {last : CategoryPoint} (hlast : ps.getLast? = some last)
    (hlt : time < last.time) (hslot : last.slot = slot) : startAt ps time slot = ps := by
  unfold startAt
  rw [hlast]
  dsimp only
  rw [if_neg (Int.ne_of_gt hlt), if_pos hslot]

/-- **Every other write** is active from its time up to the next change, and nothing else changes:
`activeSlot? (startAt ps time slot) t` is
`if Covers ps time t then some slot else activeSlot? ps t`. -/
theorem activeSlot?_startAt_of_not_repeats (hps : Increasing ps) {slot : Nat}
    (h : ∀ last, ps.getLast? = some last → time < last.time → last.slot ≠ slot) (t : Instant) :
    activeSlot? (startAt ps time slot) t =
      if Covers ps time t then some slot else activeSlot? ps t := by
  by_cases hbehind : ∀ p ∈ ps, p.time ≤ time
  · rw [activeSlot?_startAt hps hbehind, if_congr (covers_iff_of_forall_le hbehind) rfl rfl]
  -- some point is later, and then the last one
  obtain ⟨p, hp⟩ := not_forall.1 hbehind
  obtain ⟨hp, hlt⟩ := Classical.not_imp.1 hp
  obtain ⟨last, hlast⟩ := Option.ne_none_iff_exists'.1
    (mt List.getLast?_eq_none_iff.1 (List.ne_nil_of_mem hp))
  have hlt : time < last.time :=
    Int.lt_of_lt_of_le (Int.not_le.1 hlt) (hps.le_getLast hlast p hp)
  have hstart : startAt ps time slot = dropSame (insertPoint ⟨time, slot⟩ ps) := by
    unfold startAt
    rw [hlast]
    dsimp only
    rw [if_neg (Int.ne_of_gt hlt), if_neg (h last hlast hlt), if_pos hlt]
  rw [hstart, activeSlot?_dropSame (increasing_insertPoint hps _), activeSlot?_insertPoint hps]

end Slots

/-! ## (3) Writes that take effect -/

section Writes

variable {c : Category} {time : Instant} {label : String}

/-- **A write takes effect**: its label is active from its time up to the next change that was
stored, and at every other time nothing changes. -/
def TakesEffect (c : Category) (time : Instant) (label : String) : Prop :=
  ∀ t, (c.set time label).labelAt? t = if Covers c.points time t then some label else c.labelAt? t

/-- The writes that get lost: before the last point, of its label, where another one (or none) is
active. -/
def Loses (c : Category) (time : Instant) (label : String) : Prop :=
  ∃ last, c.points.getLast? = some last ∧ time < last.time ∧ c.label? last.slot = some label ∧
    c.labelAt? time ≠ some label

/-- `c.set time label = c`: a write before the last point, of its label, changes nothing at all. -/
theorem set_of_repeats (htable : c.table.Nodup) {last : CategoryPoint}
    (hlast : c.points.getLast? = some last) (hlt : time < last.time)
    (hlabel : c.label? last.slot = some label) : c.set time label = c := by
  obtain ⟨hslot, heq⟩ := List.getElem?_eq_some_iff.1 hlabel
  have hidx : c.table.idxOf? label = some last.slot := by
    refine List.idxOf?_eq_some_iff.2 ⟨hslot, heq, fun j hj hsame => ?_⟩
    -- no label is listed twice
    have hj' : j = last.slot := (List.Nodup.getElem_inj_iff htable).1 (hsame.trans heq.symm)
    exact absurd hj' (Nat.ne_of_lt hj)
  rw [Category.set, hidx]
  dsimp only
  rw [startAt_of_repeats hlast hlt rfl]

/-- A write that nothing stands against takes effect: `c.TakesEffect time label`. -/
theorem WellFormed.takesEffect (h : c.WellFormed)
    (hnot : ∀ last, c.points.getLast? = some last → time < last.time →
      c.label? last.slot ≠ some label) : c.TakesEffect time label := by
  intro t
  obtain ⟨slot, hpoints, hlabel, hothers⟩ := c.set_eq time label
  have hslot : ∀ last, c.points.getLast? = some last → time < last.time → last.slot ≠ slot := by
    intro last hlast hlt heq
    refine hnot last hlast hlt ?_
    rw [← hothers _ (h.listed last (List.mem_of_getLast? hlast)), heq]
    exact hlabel
  rw [labelAt?_eq, hpoints, activeSlot?_startAt_of_not_repeats h.increasing hslot]
  split
  · exact hlabel
  · -- the slots of the points that were there have kept their labels
    rw [labelAt?_eq]
    refine Option.bind_congr fun k hk => ?_
    obtain ⟨p, hp, rfl⟩ := exists_of_activeSlot? hk
    exact hothers p.slot (h.listed p hp)

/-- A write of the label that is active already takes effect by changing nothing:
`c.TakesEffect time label`. -/
theorem takesEffect_of_set_eq (hset : c.set time label = c)
    (hactive : c.labelAt? time = some label) : c.TakesEffect time label := by
  intro t
  rw [hset]
  split
  · rename_i hcovers
    rw [labelAt?_eq, activeSlot?_of_covers hcovers, ← labelAt?_eq, hactive]
  · rfl

/-- `c.labelAt? time = some label`: a write that changes nothing takes effect only where its label
is active already. -/
theorem labelAt?_of_takesEffect (hset : c.set time label = c) (h : c.TakesEffect time label) :
    c.labelAt? time = some label := by
  have htime := h time
  rwa [hset, if_pos (covers_self c.points time)] at htime

/-- **When a write takes effect**:
`((ofWrites writes).TakesEffect time label ↔ ¬(ofWrites writes).Loses time label)` and
`((ofWrites writes).Loses time label → (ofWrites writes).set time label = ofWrites writes)`. To a
category of any writes, in any order, one more write makes its label active from its time up to the
next change that was stored, and changes nothing else, unless it is lost; and a write that is lost
changes nothing. -/
theorem ofWrites_takesEffect_iff (writes : List (Instant × String)) (time : Instant)
    (label : String) :
    ((ofWrites writes).TakesEffect time label ↔ ¬(ofWrites writes).Loses time label) ∧
      ((ofWrites writes).Loses time label →
        (ofWrites writes).set time label = ofWrites writes) := by
  have hwell := wellFormed_ofWrites writes
  have htable := nodup_table_ofWrites writes
  have hkeeps : (ofWrites writes).Loses time label →
      (ofWrites writes).set time label = ofWrites writes := by
    rintro ⟨last, hlast, hlt, hlabel, -⟩
    exact set_of_repeats htable hlast hlt hlabel
  refine ⟨⟨fun htakes hloses => ?_, fun hnot => ?_⟩, hkeeps⟩
  · obtain ⟨last, hlast, hlt, hlabel, hother⟩ := id hloses
    exact hother (labelAt?_of_takesEffect (hkeeps hloses) htakes)
  · by_cases hrepeats : ∃ last, (ofWrites writes).points.getLast? = some last ∧
        time < last.time ∧ (ofWrites writes).label? last.slot = some label
    · obtain ⟨last, hlast, hlt, hlabel⟩ := hrepeats
      refine takesEffect_of_set_eq (set_of_repeats htable hlast hlt hlabel) ?_
      -- it is active, or the write would be lost
      by_contra hother
      exact hnot ⟨last, hlast, hlt, hlabel, hother⟩
    · exact hwell.takesEffect fun last hlast hlt hlabel => hrepeats ⟨last, hlast, hlt, hlabel⟩

/-- A write between two changes, of a label that the last point does not have: it lasts until the
next change. -/
theorem ofWrites_takesEffect_between :
    ((ofWrites [(0, "Growth"), (10, "Value")]).set 5 "Income").labelAt? 4 = some "Growth" ∧
    ((ofWrites [(0, "Growth"), (10, "Value")]).set 5 "Income").labelAt? 9 = some "Income" ∧
    ((ofWrites [(0, "Growth"), (10, "Value")]).set 5 "Income").labelAt? 10 = some "Value" := by
  have htakes : (ofWrites [(0, "Growth"), (10, "Value")]).TakesEffect 5 "Income" := by
    refine (ofWrites_takesEffect_iff _ 5 "Income").1.2 ?_
    rintro ⟨last, hlast, -, hlabel, -⟩
    obtain rfl : (⟨10, 1⟩ : CategoryPoint) = last := Option.some.inj hlast
    exact absurd hlabel (by decide)
  exact ⟨htakes 4, htakes 9, htakes 10⟩

/-- **A write before the only point, of its label, is lost**: the label should be active from then
on, and there is still none. -/
theorem not_takesEffect_before_repeated : ¬(ofWrites [(100, "Value")]).TakesEffect 0 "Value" ∧
    ((ofWrites [(100, "Value")]).set 0 "Value").labelAt? 50 = none := by
  refine ⟨fun htakes => ?_, by decide⟩
  have hnone : ((ofWrites [(100, "Value")]).set 0 "Value").labelAt? 50 = none := by decide
  have hsome := htakes 50
  rw [hnone] at hsome
  exact absurd hsome (by decide)

end Writes

end PanelQuery.Category
