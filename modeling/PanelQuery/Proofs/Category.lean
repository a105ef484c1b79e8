import Mathlib.Data.List.Chain
import PanelQuery.Category

/-! # Categories in order

A category starts its labels in strictly increasing order of time, no label twice in a row, and only
labels that its table has. Every write keeps this.

* **`Category.WellFormed`** — the three conditions;
* **`Category.WellFormed.set`** — one more write;
* **`Category.wellFormed_ofWrites`** — any writes;
* **`Category.mem_labels_of_labelAt?`, `WellFormed.labelAt?_eq_none_iff`** — the label that is active
  at a time, and the time before all labels. -/

namespace PanelQuery.Category

/-! ## (1) Points -/

/-- Starts of categories in strictly increasing order of time. -/
def Increasing (ps : List CategoryPoint) : Prop := ps.Pairwise fun p q => p.time < q.time

/-- Starts of categories of which neighbours differ. -/
def Changing (ps : List CategoryPoint) : Prop := ps.IsChain fun p q => p.slot ≠ q.slot

/-- A category as it should be. -/
structure WellFormed (c : Category) : Prop where
  /-- Categories start one after the other. -/
  increasing : Increasing c.points
  /-- A category is followed by another one. -/
  changing : Changing c.points
  /-- Every label is in the table. -/
  listed : ∀ p ∈ c.points, p.slot < c.table.length

/-- A category without points: `empty.WellFormed`. -/
theorem wellFormed_empty : empty.WellFormed :=
  ⟨List.Pairwise.nil, .nil, fun _ h => by cases h⟩

/-- Where repetitions are dropped, some of the points stay: `(dropSame ps).Sublist ps`. -/
theorem dropSame_sublist (ps : List CategoryPoint) : (dropSame ps).Sublist ps := by
  fun_induction dropSame ps with
  | case1 => exact .slnil
  | case2 p rest hrest ih => exact .cons_cons _ (List.nil_sublist _)
  | case3 p rest q more hrest heq ih =>
    rw [hrest] at ih
    exact ((List.sublist_cons_self q more).trans ih).cons_cons p
  | case4 p rest q more hrest hne ih =>
    rw [hrest] at ih
    exact ih.cons_cons p

/-- Where repetitions are dropped, neighbours differ: `Changing (dropSame ps)`. -/
theorem changing_dropSame (ps : List CategoryPoint) : Changing (dropSame ps) := by
  fun_induction dropSame ps with
  | case1 => exact .nil
  | case2 p rest hrest ih => exact .singleton p
  | case3 p rest q more hrest heq ih =>
    rw [hrest] at ih
    -- the point takes the place of one with the same label
    exact ih.cons_of_imp fun r hr => by rwa [heq]
  | case4 p rest q more hrest hne ih =>
    rw [hrest] at ih
    exact .cons_cons hne ih

/-- `q = p ∨ q ∈ ps`: after one more point there is the point and what has been there. -/
theorem mem_insertPoint {p q : CategoryPoint} {ps : List CategoryPoint}
    (h : q ∈ insertPoint p ps) : q = p ∨ q ∈ ps := by
  induction ps with
  | nil => exact .inl (List.mem_singleton.1 h)
  | cons r rest ih =>
    rw [insertPoint] at h
    split at h
    · exact List.mem_cons.1 h
    split at h
    · exact (List.mem_cons.1 h).imp_right (List.mem_cons_of_mem _)
    · rcases List.mem_cons.1 h with rfl | h
      · exact .inr List.mem_cons_self
      · exact (ih h).imp_right (List.mem_cons_of_mem _)

/-- One more point keeps the order: `Increasing (insertPoint p ps)`. -/
theorem increasing_insertPoint {ps : List CategoryPoint} (h : Increasing ps) (p : CategoryPoint) :
    Increasing (insertPoint p ps) := by
  induction ps with
  | nil => exact List.pairwise_singleton _ _
  | cons q rest ih =>
    obtain ⟨hq, hrest⟩ := List.pairwise_cons.1 h
    rw [insertPoint]
    split
    · rename_i hlt
      -- before all points
      refine List.pairwise_cons.2 ⟨fun r hr => ?_, h⟩
      rcases List.mem_cons.1 hr with rfl | hr
      · exact hlt
      · exact Int.lt_trans hlt (hq r hr)
    split
    · rename_i heq
      -- in the place of the first point
      refine List.pairwise_cons.2 ⟨fun r hr => ?_, hrest⟩
      rw [heq]
      exact hq r hr
    · rename_i hlt hne
      -- somewhere after the first point, which stays
      refine List.pairwise_cons.2 ⟨fun r hr => ?_, ih hrest⟩
      rcases mem_insertPoint hr with rfl | hr
      · exact Int.lt_iff_le_and_ne.2 ⟨Int.not_lt.1 hlt, fun heq => hne heq.symm⟩
      · exact hq r hr

/-! ## (2) Writes -/

/-- `p ∈ ps ∨ p = ⟨time, slot⟩`: a write leaves points that have been there, and perhaps its own. -/
theorem mem_startAt {ps : List CategoryPoint} {time : Instant} {slot : Nat} {p : CategoryPoint}
    (h : p ∈ startAt ps time slot) : p ∈ ps ∨ p = ⟨time, slot⟩ := by
  unfold startAt at h
  split at h
  · exact .inr (List.mem_singleton.1 h)
  dsimp only at h
  split at h
  · split at h
    · exact .inl (List.dropLast_subset ps h)
    · exact (List.mem_append.1 h).imp (fun h => List.dropLast_subset ps h) List.mem_singleton.1
  split at h
  · exact .inl h
  split at h
  · exact (mem_insertPoint ((dropSame_sublist _).subset h)).symm
  · exact (List.mem_append.1 h).imp_right List.mem_singleton.1

/-- A point after all others: `Increasing (ps ++ [p])`. -/
theorem increasing_append {ps : List CategoryPoint} (h : Increasing ps) {p : CategoryPoint}
    (hp : ∀ q ∈ ps, q.time < p.time) : Increasing (ps ++ [p]) := by
  refine List.pairwise_append.2 ⟨h, List.pairwise_singleton _ _, fun q hq r hr => ?_⟩
  rw [List.mem_singleton.1 hr]
  exact hp q hq

/-- A point after one that differs from it: `Changing (ps ++ [p])`. -/
theorem changing_append {ps : List CategoryPoint} (h : Changing ps) {p : CategoryPoint}
    (hp : ∀ q, ps.getLast? = some q → q.slot ≠ p.slot) : Changing (ps ++ [p]) := by
  refine List.IsChain.append h (.singleton p) fun q hq r hr => ?_
  obtain rfl : p = r := Option.some.inj hr
  exact hp q hq

/-- **A write keeps the order**: `Increasing (startAt ps time slot)`. -/
theorem increasing_startAt {ps : List CategoryPoint} (h : Increasing ps) (time : Instant)
    (slot : Nat) : Increasing (startAt ps time slot) := by
  unfold startAt
  split
  · exact List.pairwise_singleton _ _
  rename_i last hlast
  obtain ⟨before, rfl⟩ := List.getLast?_eq_some_iff.1 hlast
  obtain ⟨hbefore, -, hlater⟩ := List.pairwise_append.1 h
  have hlater : ∀ q ∈ before, q.time < last.time := fun q hq => hlater q hq last (by simp)
  dsimp only
  rw [List.dropLast_concat]
  split
  · -- at the last point, whose place it takes
    rename_i heq
    split
    · exact hbefore
    · exact increasing_append hbefore fun q hq => heq ▸ hlater q hq
  rename_i hne
  split
  · exact h
  split
  · exact (increasing_insertPoint h _).sublist (dropSame_sublist _)
  · -- after the last point
    rename_i hge
    have hlt : last.time < time := Int.lt_iff_le_and_ne.2 ⟨Int.not_lt.1 hge, hne⟩
    refine increasing_append h fun q hq => ?_
    rcases List.mem_append.1 hq with hq | hq
    · exact Int.lt_trans (hlater q hq) hlt
    · rw [List.mem_singleton.1 hq]
      exact hlt

/-- **A write keeps neighbours different**: `Changing (startAt ps time slot)`. -/
theorem changing_startAt {ps : List CategoryPoint} (h : Changing ps) (time : Instant)
    (slot : Nat) : Changing (startAt ps time slot) := by
  unfold startAt
  split
  · exact .singleton _
  rename_i last hlast
  obtain ⟨before, rfl⟩ := List.getLast?_eq_some_iff.1 hlast
  dsimp only
  rw [List.dropLast_concat]
  split
  · -- at the last point: the label may be that of the point before, which then goes on
    have hbefore : Changing before := List.IsChain.left_of_append h
    split
    · exact hbefore
    · rename_i hne
      refine changing_append hbefore fun q hq heq => hne ?_
      rw [hq, Option.map_some, heq]
  split
  · exact h
  rename_i hne
  split
  · -- between others, where labels that repeat are dropped afterwards
    exact changing_dropSame _
  · refine changing_append h fun q hq => ?_
    rw [hlast] at hq
    obtain rfl := Option.some.inj hq
    exact hne

/-- **Every write keeps a category as it should be**: `(c.set time label).WellFormed`. -/
theorem WellFormed.set {c : Category} (h : c.WellFormed) (time : Instant) (label : String) :
    (c.set time label).WellFormed := by
  unfold Category.set
  split
  · -- a label of the table
    rename_i slot hslot
    have hlt : slot < c.table.length := (List.idxOf?_eq_some_iff.1 hslot).1
    refine ⟨increasing_startAt h.increasing time slot, changing_startAt h.changing time slot,
      fun p hp => ?_⟩
    rcases mem_startAt hp with hp | rfl
    · exact h.listed p hp
    · exact hlt
  · -- a new one, at the end of the table
    refine ⟨increasing_startAt h.increasing time _, changing_startAt h.changing time _,
      fun p hp => ?_⟩
    rw [List.length_append, List.length_singleton]
    rcases mem_startAt hp with hp | rfl
    · exact Nat.lt_succ_of_lt (h.listed p hp)
    · exact Nat.lt_succ_self _

/-- A label from the start of time: `(constant label).WellFormed`. -/
theorem wellFormed_constant (label : String) : (constant label).WellFormed :=
  wellFormed_empty.set _ label

/-- **A category of writes is as it should be**, in whatever order they come:
`(ofWrites writes).WellFormed`. -/
theorem wellFormed_ofWrites (writes : List (Instant × String)) : (ofWrites writes).WellFormed := by
  unfold ofWrites
  have hwrites : ∀ c : Category, c.WellFormed →
      (writes.foldl (fun c w => c.set w.1 w.2) c).WellFormed := by
    induction writes with
    | nil => exact fun c h => h
    | cons w writes ih => exact fun c h => ih _ (h.set w.1 w.2)
  exact hwrites empty wellFormed_empty

/-! ## (3) Labels -/

section Labels

variable {c : Category} {t : Instant}

/-- The point from which a label is active is one of the category: `p ∈ c.points`. -/
theorem mem_points_of_active {p : CategoryPoint}
    (hp : (c.points.takeWhile fun p => decide (p.time ≤ t)).getLast? = some p) : p ∈ c.points :=
  (List.takeWhile_sublist _).subset (List.mem_of_getLast? hp)

/-- **An active label is in use**: `label ∈ c.labels`. -/
theorem mem_labels_of_labelAt? {label : String} (h : c.labelAt? t = some label) :
    label ∈ c.labels := by
  obtain ⟨p, hp, hlabel⟩ := Option.bind_eq_some_iff.1 h
  rw [labels, List.mem_eraseDups]
  exact List.mem_filterMap.2 ⟨p, mem_points_of_active hp, hlabel⟩

/-- **No label is active just before the first one starts**:
`c.labelAt? t = none ↔ ∀ p ∈ c.points, t < p.time`. -/
theorem WellFormed.labelAt?_eq_none_iff (h : c.WellFormed) :
    c.labelAt? t = none ↔ ∀ p ∈ c.points, t < p.time := by
  constructor
  · intro hnone
    have hlast : (c.points.takeWhile fun p => decide (p.time ≤ t)) = [] := by
      by_contra hne
      obtain ⟨p, hp⟩ := Option.ne_none_iff_exists'.1 (mt List.getLast?_eq_none_iff.1 hne)
      -- the label of a point is in the table
      rw [labelAt?, hp, Option.bind_some, label?, List.getElem?_eq_none_iff] at hnone
      exact absurd (h.listed p (mem_points_of_active hp)) (Nat.not_lt.2 hnone)
    cases hpoints : c.points with
    | nil => exact List.forall_mem_nil _
    | cons p rest =>
      have hincreasing := h.increasing
      rw [hpoints] at hlast hincreasing
      have hp : t < p.time := by
        by_contra hle
        rw [List.takeWhile_cons_of_pos (by exact decide_eq_true (Int.not_lt.1 hle))] at hlast
        cases hlast
      refine List.forall_mem_cons.2 ⟨hp, fun q hq => ?_⟩
      exact Int.lt_trans hp ((List.pairwise_cons.1 hincreasing).1 q hq)
  · intro hlater
    have hnone : (c.points.takeWhile fun p => decide (p.time ≤ t)) = [] := by
      cases hpoints : c.points with
      | nil => rfl
      | cons p rest =>
        have hp := hlater p (hpoints ▸ List.mem_cons_self)
        have hnot : ¬decide (p.time ≤ t) = true := fun hle => Int.not_le.2 hp (of_decide_eq_true hle)
        exact List.takeWhile_cons_of_neg hnot
    rw [labelAt?, hnone]
    rfl

end Labels

end PanelQuery.Category
