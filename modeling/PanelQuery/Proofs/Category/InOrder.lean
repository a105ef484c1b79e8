import Mathlib.Data.List.Induction
import Mathlib.Data.List.TakeWhile
import PanelQuery.Proofs.Category

/-! # Categories that are written in order of time

A category keeps a point only where it changes, and a table of the labels that were ever written.
Written in order of time, it still knows everything: the label at a time is that of the last write
up to then.

* **`activeSlot?`** — the slot that is active at a time, on which labels depend;
* **`activeSlot?_startAt`** — what a write behind all points makes of it;
* **`set_eq`, `nodup_table_set`** — what a write makes of the table;
* **`WellFormed.labelAt?_set`** — one write behind all points;
* **`ofWrites_inOrder`** — any writes, and writes in order. -/

namespace PanelQuery.Category

/-! ## (1) Active slots -/

section Slots

variable {ps : List CategoryPoint} {t : Instant}

/-- `activeSlot? ps t`: the slot that is active at a time. -/
def activeSlot? (ps : List CategoryPoint) (t : Instant) : Option Nat :=
  (ps.takeWhile fun p => decide (p.time ≤ t)).getLast?.map CategoryPoint.slot

/-- `c.labelAt? t = (activeSlot? c.points t).bind c.label?`: the label at a time is that of the
active slot. -/
theorem labelAt?_eq (c : Category) (t : Instant) :
    c.labelAt? t = (activeSlot? c.points t).bind c.label? := by
  rw [labelAt?, activeSlot?, Option.bind_map]
  rfl

/-- An active slot is that of a point: `∃ p ∈ ps, p.slot = slot`. -/
theorem exists_of_activeSlot? {slot : Nat} (h : activeSlot? ps t = some slot) :
    ∃ p ∈ ps, p.slot = slot := by
  obtain ⟨p, hp, hslot⟩ := Option.map_eq_some_iff.1 h
  exact ⟨p, (List.takeWhile_sublist _).subset (List.mem_of_getLast? hp), hslot⟩

/-- `activeSlot? ps t = ps.getLast?.map CategoryPoint.slot`: once all points have started, the last
one is active. -/
theorem activeSlot?_of_forall_le (h : ∀ p ∈ ps, p.time ≤ t) :
    activeSlot? ps t = ps.getLast?.map CategoryPoint.slot := by
  have hall : (ps.takeWhile fun p => decide (p.time ≤ t)) = ps :=
    List.takeWhile_eq_self_iff.2 fun p hp => decide_eq_true (h p hp)
  rw [activeSlot?, hall]

/-- **One more point behind the others** is active from its time on, and before nothing changes:
`activeSlot? (ps ++ [p]) t = if p.time ≤ t then some p.slot else activeSlot? ps t`. -/
theorem activeSlot?_concat {p : CategoryPoint} (h : ∀ q ∈ ps, q.time ≤ p.time) :
    activeSlot? (ps ++ [p]) t = if p.time ≤ t then some p.slot else activeSlot? ps t := by
  split
  · rename_i hle
    have hall : ∀ q ∈ ps ++ [p], q.time ≤ t := by
      intro q hq
      rcases List.mem_append.1 hq with hq | hq
      · exact Int.le_trans (h q hq) hle
      · rwa [List.mem_singleton.1 hq]
    rw [activeSlot?_of_forall_le hall, List.getLast?_concat, Option.map_some]
  · rename_i hlt
    have hnone : ([p].takeWhile fun q => decide (q.time ≤ t)) = [] :=
      List.takeWhile_cons_of_neg (by simpa using hlt)
    rw [activeSlot?, List.takeWhile_append, hnone, List.append_nil]
    split
    · rename_i hall
      rw [activeSlot?, (List.takeWhile_sublist _).eq_of_length hall]
    · rfl

/-- **A write behind all points** is active from its time on, and before nothing changes:
`activeSlot? (startAt ps time slot) t = if time ≤ t then some slot else activeSlot? ps t`. -/
theorem activeSlot?_startAt (hps : Increasing ps) {time : Instant}
    (h : ∀ p ∈ ps, p.time ≤ time) (slot : Nat) :
    activeSlot? (startAt ps time slot) t =
      if time ≤ t then some slot else activeSlot? ps t := by
  unfold startAt
  split
  · rename_i hnone
    obtain rfl := List.getLast?_eq_none_iff.1 hnone
    rw [← List.nil_append [(⟨time, slot⟩ : CategoryPoint)],
      activeSlot?_concat (List.forall_mem_nil _)]
  rename_i last hlast
  obtain ⟨before, rfl⟩ := List.getLast?_eq_some_iff.1 hlast
  have hlater : ∀ q ∈ before, q.time < last.time := fun q hq =>
    (List.pairwise_append.1 hps).2.2 q hq last List.mem_cons_self
  have hbefore : ∀ q ∈ before, q.time ≤ time := fun q hq => h q (List.mem_append_left _ hq)
  dsimp only
  rw [List.dropLast_concat]
  split
  · -- at the last point, before which nothing changes
    rename_i heq
    subst heq
    rw [activeSlot?_concat fun q hq => Int.le_of_lt (hlater q hq)]
    split
    · rename_i hsame
      split
      · rename_i hle
        rw [activeSlot?_of_forall_le fun q hq => Int.le_trans (hbefore q hq) hle, hsame]
      · rfl
    · rw [activeSlot?_concat (p := ⟨last.time, slot⟩) hbefore]
      split
      · rfl
      · rfl
  rename_i hne
  split
  · -- the label of the last point, which just goes on
    rename_i hsame
    split
    · rename_i hle
      rw [activeSlot?_of_forall_le fun q hq => Int.le_trans (h q hq) hle, hlast, Option.map_some,
        hsame]
    · rfl
  split
  · rename_i hlt
    exact absurd (h last (by simp)) (Int.not_le.2 hlt)
  · exact activeSlot?_concat (p := ⟨time, slot⟩) h

end Slots

/-! ## (2) Tables -/

section Tables

variable {c : Category}

/-- **A write puts its label into the table** unless it is there, and starts the label's slot: there
is `slot` with `(c.set time label).points = startAt c.points time slot`,
`(c.set time label).label? slot = some label` and
`∀ k < c.table.length, (c.set time label).label? k = c.label? k`. -/
theorem set_eq (c : Category) (time : Instant) (label : String) :
    ∃ slot, (c.set time label).points = startAt c.points time slot ∧
      (c.set time label).label? slot = some label ∧
      ∀ k < c.table.length, (c.set time label).label? k = c.label? k := by
  unfold Category.set
  split
  · rename_i slot hslot
    obtain ⟨hlt, heq, -⟩ := List.idxOf?_eq_some_iff.1 hslot
    exact ⟨slot, rfl, List.getElem?_eq_some_iff.2 ⟨hlt, heq⟩, fun k _ => rfl⟩
  · exact ⟨c.table.length, rfl, List.getElem?_concat_length, fun k hk =>
      List.getElem?_append_left hk⟩

/-- A write keeps the labels of a table different: `(c.set time label).table.Nodup`. -/
theorem nodup_table_set (h : c.table.Nodup) (time : Instant) (label : String) :
    (c.set time label).table.Nodup := by
  unfold Category.set
  split
  · exact h
  · rename_i hnone
    have hnew : label ∉ c.table := List.idxOf?_eq_none_iff.1 hnone
    refine List.nodup_append.2 ⟨h, List.pairwise_singleton _ _, fun l hl l' hl' heq => hnew ?_⟩
    rwa [← List.mem_singleton.1 hl', ← heq]

end Tables

/-! ## (3) Writes -/

/-- **A write behind all points**: its label is there from its time on, and before nothing changes.
`(c.set time label).labelAt? t = if time ≤ t then some label else c.labelAt? t`. -/
theorem WellFormed.labelAt?_set {c : Category} (h : c.WellFormed) {time : Instant}
    (hbehind : ∀ p ∈ c.points, p.time ≤ time) (label : String) (t : Instant) :
    (c.set time label).labelAt? t = if time ≤ t then some label else c.labelAt? t := by
  obtain ⟨slot, hpoints, hlabel, hothers⟩ := c.set_eq time label
  rw [labelAt?_eq, hpoints, activeSlot?_startAt h.increasing hbehind]
  split
  · exact hlabel
  · -- the slots of the points that were there have kept their labels
    rw [labelAt?_eq]
    refine Option.bind_congr fun k hk => ?_
    obtain ⟨p, hp, rfl⟩ := exists_of_activeSlot? hk
    exact hothers p.slot (h.listed p hp)

/-- `ofWrites (writes ++ [w]) = (ofWrites writes).set w.1 w.2`: writes, and one more. -/
theorem ofWrites_concat (writes : List (Instant × String)) (w : Instant × String) :
    ofWrites (writes ++ [w]) = (ofWrites writes).set w.1 w.2 := by
  rw [ofWrites, List.foldl_concat, ofWrites]

/-- Points start at times of writes: `∃ w ∈ writes, w.1 = p.time`. -/
theorem exists_write_of_mem {writes : List (Instant × String)} {p : CategoryPoint}
    (h : p ∈ (ofWrites writes).points) : ∃ w ∈ writes, w.1 = p.time := by
  induction writes using List.reverseRecOn with
  | nil => cases h
  | append_singleton writes w ih =>
    obtain ⟨slot, hpoints, -, -⟩ := (ofWrites writes).set_eq w.1 w.2
    rw [ofWrites_concat, hpoints] at h
    rcases mem_startAt h with h | rfl
    · obtain ⟨v, hv, heq⟩ := ih h
      exact ⟨v, List.mem_append_left _ hv, heq⟩
    · exact ⟨w, by simp, rfl⟩

/-- The table of writes has no label twice: `(ofWrites writes).table.Nodup`. -/
theorem nodup_table_ofWrites (writes : List (Instant × String)) :
    (ofWrites writes).table.Nodup := by
  induction writes using List.reverseRecOn with
  | nil => exact List.nodup_nil
  | append_singleton writes w ih =>
    rw [ofWrites_concat]
    exact nodup_table_set ih w.1 w.2

/-- **Writes in order of time**: the label at a time is that of the last write up to then.
`(ofWrites writes).labelAt? t` is
`(writes.filter fun w => decide (w.1 ≤ t)).getLast?.map Prod.snd`. -/
theorem labelAt?_ofWrites {writes : List (Instant × String)}
    (h : writes.Pairwise fun v w => v.1 ≤ w.1) (t : Instant) :
    (ofWrites writes).labelAt? t =
      (writes.filter fun w => decide (w.1 ≤ t)).getLast?.map Prod.snd := by
  induction writes using List.reverseRecOn with
  | nil => rfl
  | append_singleton writes w ih =>
    obtain ⟨hwrites, -, hlater⟩ := List.pairwise_append.1 h
    -- points start at times of writes, and so the last write is behind them all
    have hbehind : ∀ p ∈ (ofWrites writes).points, p.time ≤ w.1 := by
      intro p hp
      obtain ⟨v, hv, heq⟩ := exists_write_of_mem hp
      rw [← heq]
      exact hlater v hv w List.mem_cons_self
    rw [ofWrites_concat, (wellFormed_ofWrites writes).labelAt?_set hbehind, ih hwrites,
      List.filter_append]
    by_cases hle : w.1 ≤ t
    · rw [if_pos hle, List.filter_cons_of_pos (by exact decide_eq_true hle), List.filter_nil,
        List.getLast?_concat, Option.map_some]
    · rw [if_neg hle, List.filter_cons_of_neg (by simpa using hle), List.filter_nil,
        List.append_nil]

/-- **What a category makes of writes.** In whatever order they come, its points are in strictly
increasing order of time, neighbours differ, every slot has a label, and no label is listed twice.
When they come in order of time, the label at any time is that of the last write up to then, and
there is none before the first. -/
theorem ofWrites_inOrder (writes : List (Instant × String)) :
    (ofWrites writes).WellFormed ∧ (ofWrites writes).table.Nodup ∧
      (writes.Pairwise (fun v w => v.1 ≤ w.1) → ∀ t, (ofWrites writes).labelAt? t =
        (writes.filter fun w => decide (w.1 ≤ t)).getLast?.map Prod.snd) :=
  ⟨wellFormed_ofWrites writes, nodup_table_ofWrites writes, labelAt?_ofWrites⟩

/-- Writes of which one repeats a label and the next two change the last point away and back. -/
def repeatedWrites : List (Instant × String) :=
  [(0, "Growth"), (5, "Growth"), (7, "Value"), (7, "Growth"), (9, "Value")]

/-- Of the five writes two points are left, which know all labels. -/
theorem ofWrites_inOrder_repeated : repeatedWrites.Pairwise (fun v w => v.1 ≤ w.1) ∧
    (ofWrites repeatedWrites).points = [⟨0, 0⟩, ⟨9, 1⟩] ∧
    (ofWrites repeatedWrites).labelAt? (-1) = none ∧
    (ofWrites repeatedWrites).labelAt? 7 = some "Growth" ∧
    (ofWrites repeatedWrites).labelAt? 9 = some "Value" := by
  have horder : repeatedWrites.Pairwise fun v w => v.1 ≤ w.1 := by decide
  have hlabels := (ofWrites_inOrder repeatedWrites).2.2 horder
  refine ⟨horder, by decide, ?_, ?_, ?_⟩
  · exact hlabels (-1)
  · exact hlabels 7
  · exact hlabels 9

end PanelQuery.Category
