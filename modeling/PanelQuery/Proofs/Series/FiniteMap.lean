import Mathlib.Data.List.Sort
import PanelQuery.Proofs.Series.Search

/-! # Series are finite maps

After whatever history of writes, selections and changes, a series answers every question as the
finite map does to which the same has been done.

* **`TimeMap`, `TimeMap.ofWrites`** — finite maps from time, and what a list of writes leaves;
* **`Series.Edit`** — what may be done to a series, and the same for a finite map;
* **`Points.Represents`** — points that are the entries of a finite map, in order;
* **`Points.represents_ofWrites`** — writes that are sorted first, and of which the last counts;
* **`Series.answers_of_edits`** — all look-ups after any history. -/

namespace PanelQuery

variable {α : Type}

/-! ## (1) Histories -/

/-- A finite map from time. -/
abbrev TimeMap (α : Type) := Std.ExtTreeMap Instant α

/-- The finite map that a list of writes leaves, one after the other. -/
def TimeMap.ofWrites (writes : Points α) : TimeMap α :=
  writes.foldl (fun m p => m.insert p.time p.value) ∅

/-- The points as entries of a finite map. -/
def Points.entries (ps : Points α) : List (Instant × α) := ps.map fun p => (p.time, p.value)

/-- The entries of a finite map are in strictly increasing order of time:
`m.toList.Pairwise fun a b => a.1 < b.1`. -/
theorem TimeMap.toList_pairwise (m : TimeMap α) : m.toList.Pairwise fun a b => a.1 < b.1 :=
  Std.ExtTreeMap.ordered_keys_toList.imp fun h => Std.compare_eq_lt.1 h

namespace Series

/-- What may be done to a series. -/
inductive Edit (α : Type) where
  /-- A series of writes takes its place. -/
  | ofWrites (header : Header) (writes : Points α)
  /-- The same description for other points. -/
  | withPoints (writes : Points α)
  | insert (p : Point α)
  /-- Only the points stay that pass a test. -/
  | keep (test : Point α → Bool)
  | mapValues (f : α → α)
  /-- Only the points stay from one time to another. -/
  | truncate (low high : Instant)

namespace Edit

/-- A series after an edit. -/
def apply (s : Series α) : Edit α → Series α
  | ofWrites header writes => .ofWrites header writes
  | withPoints writes => s.withPoints writes
  | insert p => s.insert p
  | keep test => s.keep test
  | mapValues f => { s with points := s.points.mapValues f }
  | truncate low high => s.truncate low high

/-- A finite map after the same edit. -/
def applyMap (m : TimeMap α) : Edit α → TimeMap α
  | ofWrites _ writes => .ofWrites writes
  | withPoints writes => .ofWrites writes
  | insert p => m.insert p.time p.value
  | keep test => m.filter fun t v => test ⟨t, v⟩
  | mapValues f => m.map fun _ v => f v
  | truncate low high => m.filter fun t _ => decide (low ≤ t) && decide (t ≤ high)

end Edit

/-- A series that is in order and answers as a finite map does. -/
structure Answers (s : Series α) (m : TimeMap α) : Prop where
  increasing : s.Increasing
  /-- At a time there is the value of the entry of that time. -/
  valueAt? : ∀ t, s.points.valueAt? t = m[t]?
  /-- The last point up to a time is the entry with the greatest time up to it. -/
  asOf?_eq_some : ∀ t p, s.points.asOf? t = some p ↔
    m[p.time]? = some p.value ∧ p.time ≤ t ∧ ∀ u ∈ m, u ≤ t → u ≤ p.time
  /-- There is none when there is no such entry. -/
  asOf?_eq_none : ∀ t, s.points.asOf? t = none ↔ ∀ u ∈ m, ¬u ≤ t
  /-- Between two times there are the entries between them, in order. -/
  between : ∀ low high, (s.points.between low high).entries =
    m.toList.filter fun entry => decide (low ≤ entry.1) && decide (entry.1 ≤ high)
  /-- These answers, and the places of further writes, may be searched for by halving. -/
  searchable : s.points.Searchable

end Series

/-! ## (2) The last write counts -/

namespace Points

variable {ps : Points α} {t : Instant}

/-- `lastWrite? writes t`: the value of the last write to a time, if there is one. -/
def lastWrite? (writes : Points α) (t : Instant) : Option α :=
  (writes.filter fun p => p.time == t).getLast?.map Point.value

/-- A write before others counts where none of them does:
`lastWrite? (p :: ps) t = (ps.lastWrite? t).or (if p.time = t then some p.value else none)`. -/
theorem lastWrite?_cons (p : Point α) (ps : Points α) (t : Instant) :
    lastWrite? (p :: ps) t = (ps.lastWrite? t).or (if p.time = t then some p.value else none) := by
  unfold lastWrite?
  by_cases ht : p.time = t
  · rw [List.filter_cons_of_pos (by exact beq_iff_eq.2 ht), List.getLast?_cons, if_pos ht]
    cases (ps.filter fun p => p.time == t).getLast? with
    | none => rfl
    | some q => rfl
  · rw [List.filter_cons_of_neg (by exact fun h => ht (beq_iff_eq.1 h)), if_neg ht, Option.or_none]

/-- In a finite map the last write to a time counts, and else what has been there before:
`(writes.foldl (fun m p => m.insert p.time p.value) m)[t]? = (writes.lastWrite? t).or m[t]?`. -/
theorem getElem?_foldl_insert (writes : Points α) (m : TimeMap α) (t : Instant) :
    (writes.foldl (fun m p => m.insert p.time p.value) m)[t]? =
      (writes.lastWrite? t).or m[t]? := by
  induction writes generalizing m with
  | nil => rfl
  | cons p ps ih =>
    rw [List.foldl_cons, ih, lastWrite?_cons, Option.or_assoc, Std.ExtTreeMap.getElem?_insert]
    congr 1
    by_cases ht : p.time = t
    · rw [if_pos (Std.compare_eq_iff_eq.2 ht), if_pos ht, Option.some_or]
    · rw [if_neg (fun h => ht (Std.compare_eq_iff_eq.1 h)), if_neg ht, Option.none_or]

/-- Sorting keeps the order of the writes to one time:
`((writes.mergeSort fun p q => decide (p.time ≤ q.time)).filter fun p => p.time == t)` is
`writes.filter fun p => p.time == t`. -/
theorem filter_mergeSort (writes : Points α) (t : Instant) :
    ((writes.mergeSort fun p q => decide (p.time ≤ q.time)).filter fun p => p.time == t) =
      writes.filter fun p => p.time == t := by
  refine filter_mergeSort_of_pairwise (fun p q r hpq hqr => ?_) (fun p q => ?_) ?_
  · exact decide_eq_true (Int.le_trans (of_decide_eq_true hpq) (of_decide_eq_true hqr))
  · rw [Bool.or_eq_true, decide_eq_true_eq, decide_eq_true_eq]
    exact Int.le_total _ _
  · -- the writes to one time are in order of time as they stand
    refine List.pairwise_of_forall_mem_list fun p hp q hq => decide_eq_true ?_
    have htp := beq_iff_eq.1 (List.mem_filter.1 hp).2
    have htq := beq_iff_eq.1 (List.mem_filter.1 hq).2
    exact Int.le_of_eq (htp.trans htq.symm)

/-- `ps.lastWrite? t = none`: there is no last write to a time to which there is none. -/
theorem lastWrite?_eq_none (h : ∀ p ∈ ps, p.time ≠ t) : ps.lastWrite? t = none := by
  rw [lastWrite?, List.filter_eq_nil_iff.2 fun p hp heq => h p hp (beq_iff_eq.1 heq)]
  rfl

/-- `ps.keepLast.valueAt? t = ps.lastWrite? t`: of sorted writes, the last to each time is kept. -/
theorem valueAt?_keepLast (h : ps.Pairwise fun p q => p.time ≤ q.time) (t : Instant) :
    ps.keepLast.valueAt? t = ps.lastWrite? t := by
  fun_induction keepLast ps with
  | case1 p q rest heq ih =>
    rw [ih (List.pairwise_cons.1 h).2, lastWrite?_cons p (q :: rest)]
    by_cases ht : p.time = t
    · -- the next write is to the same time
      rw [lastWrite?_cons q rest, if_pos (heq.symm.trans ht), if_pos ht]
      cases lastWrite? rest t with
      | none => rfl
      | some v => rfl
    · rw [if_neg ht, Option.or_none]
  | case2 p q rest hne ih =>
    obtain ⟨hp, hrest⟩ := List.pairwise_cons.1 h
    rw [lastWrite?_cons p (q :: rest)]
    by_cases ht : p.time = t
    · -- all later writes are to later times
      have hlater : ∀ r ∈ q :: rest, r.time ≠ t := by
        have hq : p.time < q.time := Int.lt_iff_le_and_ne.2 ⟨hp q List.mem_cons_self, hne⟩
        rintro r hr rfl
        rcases List.mem_cons.1 hr with rfl | hr
        · exact hne ht
        · have hle := (List.pairwise_cons.1 hrest).1 r hr
          rw [← ht] at hle
          exact Int.not_le.2 hq hle
      rw [valueAt?_cons_of_eq ht, lastWrite?_eq_none hlater, if_pos ht, Option.none_or]
    · rw [valueAt?_cons_of_ne ht, ih hrest, if_neg ht, Option.or_none]
  | case3 ps hps =>
    cases ps with
    | nil => rfl
    | cons p rest =>
      cases rest with
      | cons q rest => exact absurd rfl (hps p q rest)
      | nil =>
        rw [lastWrite?_cons, lastWrite?_eq_none (by exact fun p hp => absurd hp List.not_mem_nil),
          Option.none_or]
        by_cases ht : p.time = t
        · rw [valueAt?_cons_of_eq ht, if_pos ht]
        · rw [valueAt?_cons_of_ne ht, if_neg ht]
          rfl

/-- **Of a list of writes, the last to each time is found**:
`(ofWrites writes).valueAt? t = writes.lastWrite? t`. -/
theorem valueAt?_ofWrites (writes : Points α) (t : Instant) :
    (ofWrites writes).valueAt? t = writes.lastWrite? t := by
  rw [ofWrites, valueAt?_keepLast (mergeSort_pairwise_le Point.time writes), lastWrite?,
    filter_mergeSort, lastWrite?]

/-- **One more write is found at its time**, and what has been there at every other:
`(ps.insert p).valueAt? t = if p.time = t then some p.value else ps.valueAt? t`. -/
theorem valueAt?_insert (h : ps.Increasing) (p : Point α) (t : Instant) :
    (ps.insert p).valueAt? t = if p.time = t then some p.value else ps.valueAt? t := by
  induction ps with
  | nil =>
    by_cases ht : p.time = t
    · rw [insert, valueAt?_cons_of_eq ht, if_pos ht]
    · rw [insert, valueAt?_cons_of_ne ht, if_neg ht]
  | cons q rest ih =>
    rw [insert]
    split
    · -- before all others
      by_cases ht : p.time = t
      · rw [valueAt?_cons_of_eq ht, if_pos ht]
      · rw [valueAt?_cons_of_ne ht, if_neg ht]
    split
    · -- in the place of the point of its time
      rename_i heq
      by_cases ht : p.time = t
      · rw [valueAt?_cons_of_eq ht, if_pos ht]
      · rw [valueAt?_cons_of_ne ht, if_neg ht, valueAt?_cons_of_ne (heq ▸ ht)]
    · -- further on
      rename_i hne
      by_cases hq : q.time = t
      · rw [valueAt?_cons_of_eq hq, if_neg (fun ht => hne (ht.trans hq.symm)),
          valueAt?_cons_of_eq hq]
      · rw [valueAt?_cons_of_ne hq, ih (increasing_cons.1 h).2, valueAt?_cons_of_ne hq]

/-! ## (3) The entries of a finite map -/

/-- `(t, v) ∈ ps.entries ↔ (⟨t, v⟩ : Point α) ∈ ps`: a point is an entry. -/
theorem mem_entries {ps : Points α} {t : Instant} {v : α} :
    (t, v) ∈ ps.entries ↔ (⟨t, v⟩ : Point α) ∈ ps := by
  unfold entries
  rw [List.mem_map]
  constructor
  · rintro ⟨p, hp, heq⟩
    cases heq
    exact hp
  · exact fun hp => ⟨_, hp, rfl⟩

/-- `Represents ps m`: points that are the entries of a finite map, in order of time. -/
def Represents (ps : Points α) (m : TimeMap α) : Prop := ps.entries = m.toList

variable {m : TimeMap α}

/-- Entries are in order: `ps.Increasing`. -/
theorem Represents.increasing (h : ps.Represents m) : ps.Increasing := by
  have hsorted := m.toList_pairwise
  rw [← h, entries, List.pairwise_map] at hsorted
  exact hsorted

/-- `(⟨t, v⟩ : Point α) ∈ ps ↔ m[t]? = some v`: the points are the entries. -/
theorem Represents.mem_iff (h : ps.Represents m) {t : Instant} {v : α} :
    (⟨t, v⟩ : Point α) ∈ ps ↔ m[t]? = some v := by
  rw [← mem_entries, h, Std.ExtTreeMap.mem_toList_iff_getElem?_eq_some]

/-- `ps.valueAt? t = m[t]?`: what is found at a time is the value of the entry. -/
theorem Represents.valueAt? (h : ps.Represents m) (t : Instant) : ps.valueAt? t = m[t]? := by
  refine Option.ext fun v => ?_
  rw [h.increasing.valueAt?_eq_some_iff, h.mem_iff]

/-- **Points in order are the entries of a finite map that answers alike at every time**:
`ps.Represents m`. -/
theorem represents_of_valueAt? (hinc : ps.Increasing) (h : ∀ t, ps.valueAt? t = m[t]?) :
    ps.Represents m := by
  have hsorted : ps.entries.Pairwise fun a b => a.1 < b.1 := List.pairwise_map.2 hinc
  have hmem : ∀ entry, entry ∈ ps.entries ↔ entry ∈ m.toList := by
    rintro ⟨t, v⟩
    rw [mem_entries, ← hinc.valueAt?_eq_some_iff, h, Std.ExtTreeMap.mem_toList_iff_getElem?_eq_some]
  -- two lists with the same entries, both strictly sorted
  refine List.Perm.eq_of_pairwise (fun a b _ _ hab hba => ?_) hsorted m.toList_pairwise ?_
  · exact absurd (Int.lt_trans hab hba) (Int.lt_irrefl _)
  · refine (List.perm_ext_iff_of_nodup ?_ ?_).2 hmem
    · exact hsorted.imp fun hlt heq => Int.ne_of_lt hlt (congrArg Prod.fst heq)
    · exact m.toList_pairwise.imp fun hlt heq => Int.ne_of_lt hlt (congrArg Prod.fst heq)

/-- **A list of writes leaves the entries of the finite map that they leave**:
`(ofWrites writes).Represents (.ofWrites writes)`. -/
theorem represents_ofWrites (writes : Points α) :
    (ofWrites writes).Represents (.ofWrites writes) := by
  refine represents_of_valueAt? (increasing_ofWrites writes) fun t => ?_
  rw [valueAt?_ofWrites, TimeMap.ofWrites, getElem?_foldl_insert, Std.ExtTreeMap.getElem?_empty,
    Option.or_none]

/-- One more write: `(ps.insert p).Represents (m.insert p.time p.value)`. -/
theorem Represents.insert (h : ps.Represents m) (p : Point α) :
    (ps.insert p).Represents (m.insert p.time p.value) := by
  refine represents_of_valueAt? (h.increasing.insert p) fun t => ?_
  rw [valueAt?_insert h.increasing, Std.ExtTreeMap.getElem?_insert, h.valueAt?]
  simp only [Std.compare_eq_iff_eq]

/-- The points that pass a test:
`Represents (ps.filter fun p => test p.time p.value) (m.filter test)`. -/
theorem Represents.filter (h : ps.Represents m) (test : Instant → α → Bool) :
    Represents (ps.filter fun p => test p.time p.value) (m.filter test) := by
  unfold Represents
  rw [Std.ExtTreeMap.toList_filter, ← h, entries, entries, List.filter_map]
  rfl

/-- The points with their values changed: `(ps.mapValues f).Represents (m.map fun _ v => f v)`. -/
theorem Represents.mapValues (h : ps.Represents m) (f : α → α) :
    (ps.mapValues f).Represents (m.map fun _ v => f v) := by
  unfold Represents
  rw [Std.ExtTreeMap.toList_map, ← h, entries, entries, Points.mapValues, List.map_map,
    List.map_map]
  rfl

/-! ## (4) The last entry up to a time -/

/-- `ps.getLast? = some p ↔ p ∈ ps ∧ ∀ q ∈ ps, q.time ≤ p.time`: the last of points in order is the
one than which no other is later. -/
theorem Increasing.getLast?_eq_some_iff (h : ps.Increasing) {p : Point α} :
    ps.getLast? = some p ↔ p ∈ ps ∧ ∀ q ∈ ps, q.time ≤ p.time := by
  constructor
  · intro hlast
    obtain ⟨before, rfl⟩ := List.getLast?_eq_some_iff.1 hlast
    refine ⟨List.mem_append_right _ List.mem_cons_self, fun q hq => ?_⟩
    rcases List.mem_append.1 hq with hq | hq
    · exact Int.le_of_lt ((List.pairwise_append.1 h).2.2 q hq p List.mem_cons_self)
    · exact Int.le_of_eq (congrArg Point.time (List.mem_singleton.1 hq))
  · rintro ⟨hp, hle⟩
    obtain ⟨last, hlast⟩ := Option.isSome_iff_exists.1
      (List.getLast?_isSome.2 (List.ne_nil_of_mem hp))
    have hmem := List.mem_of_getLast? hlast
    obtain ⟨before, rfl⟩ := List.getLast?_eq_some_iff.1 hlast
    -- neither is later than the other
    have hge : p.time ≤ last.time := by
      rcases List.mem_append.1 hp with hp | hp
      · exact Int.le_of_lt ((List.pairwise_append.1 h).2.2 p hp last List.mem_cons_self)
      · exact Int.le_of_eq (congrArg Point.time (List.mem_singleton.1 hp))
    rw [hlast, h.eq_of_time_eq hp hmem (Int.le_antisymm hge (hle last hmem))]

/-- `ps.asOf? t = some p ↔ p ∈ ps ∧ p.time ≤ t ∧ ∀ q ∈ ps, q.time ≤ t → q.time ≤ p.time`: the last
point up to a time is the one than which no other up to the time is later. -/
theorem Increasing.asOf?_eq_some_iff (h : ps.Increasing) {p : Point α} :
    ps.asOf? t = some p ↔ p ∈ ps ∧ p.time ≤ t ∧ ∀ q ∈ ps, q.time ≤ t → q.time ≤ p.time := by
  rw [asOf?, ← h.filter_le_eq_upTo, (h.filter _).getLast?_eq_some_iff]
  simp only [List.mem_filter, decide_eq_true_eq, and_assoc, and_imp]

/-- `ps.asOf? t = none ↔ ∀ p ∈ ps, ¬p.time ≤ t`: there is no last point up to a time when there is
none up to it. -/
theorem Increasing.asOf?_eq_none_iff (h : ps.Increasing) :
    ps.asOf? t = none ↔ ∀ p ∈ ps, ¬p.time ≤ t := by
  rw [asOf?, ← h.filter_le_eq_upTo, List.getLast?_eq_none_iff, List.filter_eq_nil_iff]
  simp only [decide_eq_true_eq]

/-- `(∀ u ∈ m, P u) ↔ ∀ p ∈ ps, P p.time`: a time of a finite map is the time of an entry. -/
theorem Represents.forall_mem_iff (h : ps.Represents m) {P : Instant → Prop} :
    (∀ u ∈ m, P u) ↔ ∀ p ∈ ps, P p.time := by
  constructor
  · intro hm p hp
    refine hm p.time (Std.ExtTreeMap.mem_iff_isSome_getElem?.2 ?_)
    rw [h.mem_iff.1 hp]
    rfl
  · intro hps u hu
    obtain ⟨v, hv⟩ := Option.isSome_iff_exists.1 (Std.ExtTreeMap.mem_iff_isSome_getElem?.1 hu)
    exact hps ⟨u, v⟩ (h.mem_iff.2 hv)

/-- The points between two times are the entries between them: `(ps.between low high).entries` is
`m.toList.filter fun entry => decide (low ≤ entry.1) && decide (entry.1 ≤ high)`. -/
theorem Represents.between (h : ps.Represents m) (low high : Instant) :
    (ps.between low high).entries =
      m.toList.filter fun entry => decide (low ≤ entry.1) && decide (entry.1 ≤ high) := by
  rw [← h, entries, entries, Points.between, List.filter_map]
  rfl

end Points

/-! ## (5) All histories -/

namespace Series

/-- A series whose points are the entries of a finite map answers as it does: `s.Answers m`. -/
theorem answers_of_represents {s : Series α} {m : TimeMap α} (h : s.points.Represents m) :
    s.Answers m where
  increasing := h.increasing
  valueAt? := h.valueAt?
  asOf?_eq_some t p := by
    rw [h.increasing.asOf?_eq_some_iff, h.mem_iff, h.forall_mem_iff]
  asOf?_eq_none t := by
    rw [h.increasing.asOf?_eq_none_iff, h.forall_mem_iff]
  between := h.between
  searchable := h.increasing.searchable

/-- **An edit of a series is the same edit of the finite map**:
`(edit.apply s).points.Represents (edit.applyMap m)`. -/
theorem Edit.represents {s : Series α} {m : TimeMap α} (h : s.points.Represents m)
    (edit : Edit α) : (edit.apply s).points.Represents (edit.applyMap m) := by
  cases edit with
  | ofWrites header writes => exact Points.represents_ofWrites writes
  | withPoints writes => exact Points.represents_ofWrites writes
  | insert p => exact h.insert p
  | keep test => exact h.filter fun t v => test ⟨t, v⟩
  | mapValues f => exact h.mapValues f
  | truncate low high => exact h.filter fun t _ => decide (low ≤ t) && decide (t ≤ high)

/-- Edits of a series, one after the other, are the same edits of the finite map:
`(edits.foldl Edit.apply s).points.Represents (edits.foldl Edit.applyMap m)`. -/
theorem represents_foldl_edits {s : Series α} {m : TimeMap α} (h : s.points.Represents m)
    (edits : List (Edit α)) :
    (edits.foldl Edit.apply s).points.Represents (edits.foldl Edit.applyMap m) := by
  induction edits generalizing s m with
  | nil => exact h
  | cons edit edits ih => exact ih (edit.represents h)

/-- **A series is a finite map**: `(edits.foldl Edit.apply (.ofWrites header writes)).Answers
(edits.foldl Edit.applyMap (.ofWrites writes))`. Whatever is written first, and whatever edits
follow, the series is in order and answers every question as the finite map does to which the same
has been done, also when the answer is searched for by halving. -/
theorem answers_of_edits (header : Header) (writes : Points α) (edits : List (Edit α)) :
    (edits.foldl Edit.apply (.ofWrites header writes)).Answers
      (edits.foldl Edit.applyMap (.ofWrites writes)) :=
  answers_of_represents (represents_foldl_edits (Points.represents_ofWrites writes) edits)

end Series

end PanelQuery
