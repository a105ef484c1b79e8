import Mathlib.Data.List.Permutation
import PanelQuery.Proofs.Panel.CrossSection
import PanelQuery.Proofs.Panel.Placement

/-! # Rankings

A ranking keeps the heaviest or lightest rows of every date of a cross section. The others get
weight zero and lose their value, so within one cross section values and weights fit together. An
entity with several fields is ranked in several cross sections, though, and its shares in them are
merged: then any of them may keep its value, while the weight is that of the last one.

* **`DateRows.Keeps`, `CrossSection.Keeps`** — the rows that a ranking keeps;
* **`CrossSection.Orderly`, `CrossSection.Rankable`** — what is true of cross sections of panels;
* **`CrossSection.Rankable.weight_ne_zero_iff`, `CrossSection.Rankable.field_ne_none_iff`** — the
  weight and the values of a share;
* **`Panel.agreesAt_merge_iff`** — when values and weights fit together in an entity;
* **`Panel.agreesAt_ranking_iff`, `Panel.agreesAt_of_one_field`** — rankings of panels;
* **`Panel.not_agreesAt_ranking_overlapping`** — an entity that keeps a value without weight. -/

namespace PanelQuery

variable {α : Type} [Scalar α]

/-! ## (1) Dates -/

/-- `DateRows.Keeps d n descending k`: whether an entity, by its place, is among those that a
ranking keeps on a date. -/
def DateRows.Keeps (d : DateRows α) (n : Nat) (descending : Bool) (k : Nat) : Prop :=
  ∃ r ∈ (d.byWeight descending).take n, r.entity = k

/-- `DateRows.rankedFor d n descending k`: the weights that a ranking writes for an entity on a
date. -/
def DateRows.rankedFor (d : DateRows α) (n : Nat) (descending : Bool) (k : Nat) : Points α :=
  (d.rankedWeights n descending).filterMap fun (entity, p) => if entity = k then some p else none

namespace DateRows

variable {d : DateRows α} {n : Nat} {descending : Bool} {k : Nat}

/-- `r ∈ d.byWeight descending ↔ r ∈ d.rows`: the rows by weight are the rows. -/
theorem mem_byWeight {r : Row α} : r ∈ d.byWeight descending ↔ r ∈ d.rows :=
  (List.mergeSort_perm _ _).mem_iff

/-- A weight is written for each row of the entity, by the place of the row:
`p ∈ d.rankedFor n descending k` just when there are `i` and `r` with
`(d.byWeight descending)[i]? = some r`, `r.entity = k` and
`p = ⟨d.time, if i < n then r.weight else 0⟩`. -/
theorem mem_rankedFor {p : Point α} : p ∈ d.rankedFor n descending k ↔
    ∃ i r, (d.byWeight descending)[i]? = some r ∧ r.entity = k ∧
      p = ⟨d.time, if i < n then r.weight else 0⟩ := by
  unfold rankedFor rankedWeights
  rw [List.filterMap_map, List.mem_filterMap]
  constructor
  · rintro ⟨⟨r, i⟩, hmem, hp⟩
    rw [Function.comp_apply, Option.ite_none_right_eq_some] at hp
    exact ⟨i, r, List.mem_zipIdx_iff_getElem?.1 hmem, hp.1, (Option.some.inj hp.2).symm⟩
  · rintro ⟨i, r, hr, hk, rfl⟩
    exact ⟨(r, i), List.mem_zipIdx_iff_getElem?.2 hr, if_pos hk⟩

/-- `i = j`: if every entity has one row, the rows by weight are told by their entities. -/
theorem eq_of_getElem?_byWeight (hrows : (d.rows.map Row.entity).Nodup) {i j : Nat} {r r' : Row α}
    (hr : (d.byWeight descending)[i]? = some r) (hr' : (d.byWeight descending)[j]? = some r')
    (hk : r.entity = r'.entity) : i = j := by
  have hnodup : ((d.byWeight descending).map Row.entity).Nodup :=
    ((List.mergeSort_perm _ _).map Row.entity).nodup_iff.2 hrows
  have hlt : i < ((d.byWeight descending).map Row.entity).length := by
    rw [List.length_map]
    exact (List.getElem?_eq_some_iff.1 hr).1
  refine (List.getElem?_inj hlt hnodup).1 ?_
  rw [List.getElem?_map, List.getElem?_map, hr, hr', Option.map_some, Option.map_some, hk]

/-- **A weight is not zero just when the row is kept**, if the entity has one row and its weight is
not zero: `(p.value == 0) = false ↔ d.Keeps n descending k`. -/
theorem value_ne_zero_iff [ZeroOne α] (hrows : (d.rows.map Row.entity).Nodup)
    (hweights : ∀ r ∈ d.rows, (r.weight == 0) = false) {p : Point α}
    (hp : p ∈ d.rankedFor n descending k) : (p.value == 0) = false ↔ d.Keeps n descending k := by
  obtain ⟨i, r, hr, hk, rfl⟩ := mem_rankedFor.1 hp
  constructor
  · intro hne
    by_cases hi : i < n
    · refine ⟨r, List.mem_of_getElem? (i := i) ?_, hk⟩
      rw [List.getElem?_take_of_lt hi, hr]
    · rw [if_neg hi, ZeroOne.zero_beq] at hne
      cases hne
  · rintro ⟨r', hr', hk'⟩
    -- the row that is kept is the one for which the weight is written
    obtain ⟨j, hj⟩ := List.mem_iff_getElem?.1 hr'
    rw [List.getElem?_take, Option.ite_none_right_eq_some] at hj
    obtain ⟨hjn, hj⟩ := hj
    obtain rfl := eq_of_getElem?_byWeight hrows hr hj (hk.trans hk'.symm)
    rw [if_pos hjn]
    exact hweights r (mem_byWeight.1 (List.mem_of_getElem? hr))

end DateRows

/-! ## (2) Cross sections -/

omit [Scalar α] in
/-- There is a last write to the time of any write: `ps.lastWrite? p.time ≠ none`. -/
theorem Points.lastWrite?_ne_none {ps : Points α} {p : Point α} (h : p ∈ ps) :
    ps.lastWrite? p.time ≠ none := by
  have hmem : p ∈ ps.filter fun q => q.time == p.time :=
    List.mem_filter.2 ⟨h, beq_self_eq_true _⟩
  obtain ⟨q, hq⟩ := Option.isSome_iff_exists.1 (List.getLast?_isSome.2 (List.ne_nil_of_mem hmem))
  rw [lastWrite?, hq, Option.map_some]
  exact Option.some_ne_none _

namespace CrossSection

/-- `Keeps x n descending k t`: whether a ranking keeps an entity, by its place, on a date. -/
def Keeps (x : CrossSection α) (n : Nat) (descending : Bool) (k : Nat) (t : Instant) : Prop :=
  ∃ d ∈ x.byDate, d.time = t ∧ d.Keeps n descending k

/-- A cross section in which every entity has one row of a date at most, which has a weight other
than zero and the value of the entity's member. -/
structure Rankable (x : CrossSection α) : Prop where
  times : (x.byDate.map DateRows.time).Nodup
  rows : ∀ d ∈ x.byDate, (d.rows.map Row.entity).Nodup
  weights : ∀ d ∈ x.byDate, ∀ r ∈ d.rows, (r.weight == 0) = false
  increasing : ∀ m ∈ x.members, m.field.Increasing
  /-- Rows are of members. -/
  member : ∀ d ∈ x.byDate, ∀ r ∈ d.rows, ∃ m ∈ x.members, m.entity = r.entity
  /-- They have the values of their members. -/
  observed : ∀ d ∈ x.byDate, ∀ r ∈ d.rows, ∀ m ∈ x.members, m.entity = r.entity →
    m.field.points.valueAt? d.time = some r.point.value

variable {x : CrossSection α} {n : Nat} {descending : Bool} {k : Nat} {t : Instant}

/-- What is kept has been there: `x.rowsFor k t ≠ []`. -/
theorem Keeps.rowsFor_ne_nil (h : x.Keeps n descending k t) : x.rowsFor k t ≠ [] := by
  obtain ⟨d, hd, ht, r, hr, hk⟩ := h
  exact rowsFor_ne_nil_iff.2 ⟨d, hd, ht, r, DateRows.mem_byWeight.1 (List.mem_of_mem_take hr), hk⟩

/-- `rankedWeight x n descending k`: the weight that a ranking gives to an entity. -/
def rankedWeight (x : CrossSection α) (n : Nat) (descending : Bool) (k : Nat) : Series α :=
  .weight (x.byDate.flatMap fun d => d.rankedFor n descending k)

/-- The shares of a ranking: what has a weight other than zero stays of each member. -/
theorem mem_rank {y : Placement α} : y ∈ x.rank n descending ↔ ∃ m ∈ x.members,
    ⟨m.entity, m.field.keep fun p =>
      ((x.rankedWeight n descending m.entity).points.valueAt? p.time).any fun v => !(v == 0),
      some (x.rankedWeight n descending m.entity), []⟩ = y := by
  unfold rank rankedWeight
  simp only [List.filterMap_flatMap]
  exact List.mem_map

/-- The weight of a share is that of its entity:
`Series.observed? y.weight t = (x.rankedWeight n descending y.entity).points.valueAt? t`. -/
theorem observed?_weight_of_mem_rank {y : Placement α} (hy : y ∈ x.rank n descending)
    (t : Instant) : Series.observed? y.weight t =
      (x.rankedWeight n descending y.entity).points.valueAt? t := by
  obtain ⟨m, -, rfl⟩ := mem_rank.1 hy
  rfl

/-- A weight is of a row of its date:
`∃ d ∈ x.byDate, d.time = t ∧ ⟨t, v⟩ ∈ d.rankedFor n descending k`. -/
theorem exists_of_valueAt?_rankedWeight {v : α}
    (h : (x.rankedWeight n descending k).points.valueAt? t = some v) :
    ∃ d ∈ x.byDate, d.time = t ∧ ⟨t, v⟩ ∈ d.rankedFor n descending k := by
  have hmem := (Points.increasing_ofWrites _).valueAt?_eq_some_iff.1 h
  have hwrites := Points.mem_of_mem_keepLast hmem
  rw [List.mem_mergeSort, List.mem_flatMap] at hwrites
  obtain ⟨d, hd, hp⟩ := hwrites
  obtain ⟨i, r, -, -, heq⟩ := DateRows.mem_rankedFor.1 hp
  exact ⟨d, hd, (congrArg Point.time heq).symm, hp⟩

/-- **There is a weight on the dates on which the entity has rows**:
`(x.rankedWeight n descending k).points.valueAt? t ≠ none ↔ x.rowsFor k t ≠ []`. -/
theorem valueAt?_rankedWeight_ne_none_iff (n : Nat) (descending : Bool) :
    (x.rankedWeight n descending k).points.valueAt? t ≠ none ↔ x.rowsFor k t ≠ [] := by
  rw [rowsFor_ne_nil_iff]
  constructor
  · intro h
    obtain ⟨v, hv⟩ := Option.ne_none_iff_exists'.1 h
    obtain ⟨d, hd, ht, hp⟩ := exists_of_valueAt?_rankedWeight hv
    obtain ⟨i, r, hr, hk, -⟩ := DateRows.mem_rankedFor.1 hp
    exact ⟨d, hd, ht, r, DateRows.mem_byWeight.1 (List.mem_of_getElem? hr), hk⟩
  · rintro ⟨d, hd, ht, r, hr, hk⟩
    obtain ⟨i, hi⟩ := List.mem_iff_getElem?.1 (DateRows.mem_byWeight.2 hr)
    have hp : ⟨d.time, if i < n then r.weight else 0⟩ ∈ d.rankedFor n descending k :=
      DateRows.mem_rankedFor.2 ⟨i, r, hi, hk, rfl⟩
    rw [rankedWeight, Series.weight, Points.valueAt?_ofWrites, ← ht]
    have hwrite := List.mem_flatMap_of_mem (f := fun d => d.rankedFor n descending k) hd hp
    exact Points.lastWrite?_ne_none hwrite

/-- `shareWeights x n descending k t`: the weights on a date that the shares of an entity have. -/
def shareWeights (x : CrossSection α) (n : Nat) (descending : Bool) (k : Nat) (t : Instant) :
    List α :=
  ((x.rank n descending).filter fun y => y.entity == k).filterMap fun y =>
    Series.observed? y.weight t

/-- `(x.rankedWeight n descending k).points.valueAt? t = some v`: all of them are the weight that
the ranking gives to the entity. -/
theorem valueAt?_of_mem_shareWeights {v : α} (hv : v ∈ x.shareWeights n descending k t) :
    (x.rankedWeight n descending k).points.valueAt? t = some v := by
  obtain ⟨y, hy, hv⟩ := List.mem_filterMap.1 hv
  obtain ⟨hy, hk⟩ := List.mem_filter.1 hy
  rwa [observed?_weight_of_mem_rank hy, beq_iff_eq.1 hk] at hv

namespace Rankable

/-- An entity that has rows gets a share: `∃ y ∈ x.rank n descending, y.entity = k`. -/
theorem exists_mem_rank (hx : x.Rankable) (n : Nat) (descending : Bool)
    (h : x.rowsFor k t ≠ []) :
    ∃ y ∈ x.rank n descending, y.entity = k := by
  obtain ⟨d, hd, -, r, hr, hk⟩ := rowsFor_ne_nil_iff.1 h
  obtain ⟨m, hm, hplace⟩ := hx.member d hd r hr
  exact ⟨_, mem_rank.2 ⟨m, hm, rfl⟩, hplace.trans hk⟩

/-- **The weight is not zero just when the ranking keeps the entity**:
`(v == 0) = false ↔ x.Keeps n descending k t`. -/
theorem weight_ne_zero_iff [ZeroOne α] (hx : x.Rankable) {v : α}
    (h : (x.rankedWeight n descending k).points.valueAt? t = some v) :
    (v == 0) = false ↔ x.Keeps n descending k t := by
  obtain ⟨d, hd, rfl, hp⟩ := exists_of_valueAt?_rankedWeight h
  rw [DateRows.value_ne_zero_iff (hx.rows d hd) (hx.weights d hd) hp]
  constructor
  · exact fun hkeeps => ⟨d, hd, rfl, hkeeps⟩
  · rintro ⟨d', hd', ht, hkeeps⟩
    rwa [List.inj_on_of_nodup_map hx.times hd' hd ht] at hkeeps

/-- **The field has a value just when the ranking keeps the entity**:
`y.field.points.valueAt? t ≠ none ↔ x.Keeps n descending y.entity t`. -/
theorem field_ne_none_iff [ZeroOne α] (hx : x.Rankable) {y : Placement α}
    (hy : y ∈ x.rank n descending) :
    y.field.points.valueAt? t ≠ none ↔ x.Keeps n descending y.entity t := by
  obtain ⟨m, hm, rfl⟩ := mem_rank.1 hy
  have hfield := hx.increasing m hm
  dsimp only
  constructor
  · intro hvalue
    obtain ⟨v, hv⟩ := Option.ne_none_iff_exists'.1 hvalue
    obtain ⟨-, htest⟩ := List.mem_filter.1 ((hfield.keep _).valueAt?_eq_some_iff.1 hv)
    obtain ⟨w, hw, hne⟩ := (Option.any_eq_true _ _).1 htest
    exact (hx.weight_ne_zero_iff hw).1 (Bool.not_eq_eq_eq_not.1 hne)
  · intro hkeeps
    obtain ⟨w, hw⟩ := Option.ne_none_iff_exists'.1
      ((valueAt?_rankedWeight_ne_none_iff n descending).2 hkeeps.rowsFor_ne_nil)
    have hne := (hx.weight_ne_zero_iff hw).2 hkeeps
    -- the row that is kept has the value of the member
    obtain ⟨d, hd, rfl, r, hr, hk⟩ := rowsFor_ne_nil_iff.1 hkeeps.rowsFor_ne_nil
    have hmem := hfield.valueAt?_eq_some_iff.1 (hx.observed d hd r hr m hm hk.symm)
    have hkept : (m.field.keep fun p =>
        ((x.rankedWeight n descending m.entity).points.valueAt? p.time).any
          fun v => !(v == 0)).points.valueAt? d.time = some r.point.value := by
      refine (hfield.keep _).valueAt?_eq_some_iff.2 (List.mem_filter.2 ⟨hmem, ?_⟩)
      exact (Option.any_eq_true _ _).2 ⟨w, hw, Bool.not_eq_eq_eq_not.2 hne⟩
    rw [hkept]
    exact Option.some_ne_none _

/-- `x.shareWeights n descending k t ≠ [] ↔ x.rowsFor k t ≠ []`: there are weights of shares just
where the entity has rows. -/
theorem shareWeights_ne_nil_iff (hx : x.Rankable) :
    x.shareWeights n descending k t ≠ [] ↔ x.rowsFor k t ≠ [] := by
  rw [← valueAt?_rankedWeight_ne_none_iff n descending]
  constructor
  · intro hne
    obtain ⟨v, hv⟩ := List.exists_mem_of_ne_nil _ hne
    rw [valueAt?_of_mem_shareWeights hv]
    exact Option.some_ne_none v
  · intro hne
    obtain ⟨v, hv⟩ := Option.ne_none_iff_exists'.1 hne
    obtain ⟨y, hy, rfl⟩ := hx.exists_mem_rank n descending
      ((valueAt?_rankedWeight_ne_none_iff n descending).1 hne)
    rw [← observed?_weight_of_mem_rank hy] at hv
    exact List.ne_nil_of_mem (List.mem_filterMap.2
      ⟨y, List.mem_filter.2 ⟨hy, beq_self_eq_true _⟩, hv⟩)

/-- `(v == 0) = false ↔ x.Keeps n descending k t`: they are not zero just when the ranking keeps the
entity. -/
theorem ne_zero_iff_of_mem_shareWeights [ZeroOne α] (hx : x.Rankable) {v : α}
    (hv : v ∈ x.shareWeights n descending k t) : (v == 0) = false ↔ x.Keeps n descending k t :=
  hx.weight_ne_zero_iff (valueAt?_of_mem_shareWeights hv)

end Rankable

end CrossSection

/-! ## (3) Cross sections of panels -/

section Panels

variable {p : Panel α} {field category : String} {x : CrossSection α}

/-- The members of a cross section are its candidates: `x.members = (p.candidates field
category).map fun c => (p.sectionSchedule field category).member c.1 c.2.1 c.2.2`. -/
theorem Panel.members_crossSection? (h : p.crossSection? field category = some x) :
    x.members = (p.candidates field category).map fun c =>
      (p.sectionSchedule field category).member c.1 c.2.1 c.2.2 := by
  unfold sectionSchedule
  unfold crossSection? at h
  cases hcandidates : p.candidates field category with
  | nil =>
    rw [hcandidates] at h
    cases h
  | cons c rest =>
    rw [hcandidates] at h
    rw [← Option.some.inj h]
    rfl

/-- The rows of a cross section: each is that of the member of its entity. -/
theorem Panel.exists_of_mem_rows (h : p.crossSection? field category = some x) {d : DateRows α}
    (hd : d ∈ x.byDate) {r : Row α} (hr : r ∈ d.rows) :
    ∃ c ∈ p.candidates field category, c.1 = r.entity ∧
      ((p.sectionSchedule field category).member c.1 c.2.1 c.2.2).row? d.time = some r := by
  rw [byDate_crossSection? h] at hd
  obtain ⟨t, -, rfl⟩ := List.mem_map.1 hd
  obtain ⟨⟨e, n⟩, hmem, hrow⟩ := List.mem_filterMap.1 hr
  obtain ⟨hlisted, -, s, hs, hmember⟩ := Entity.row?_eq_some_iff.1 hrow
  exact ⟨(n, e, s), mem_candidates (List.mem_zipIdx_iff_getElem?.1 hmem) hlisted hs,
    (Entity.entity_of_row? hrow).symm, hmember⟩

/-- **The rows of a date** are in the order of the entities, one of each at most:
`d.rows.Pairwise fun r r' => r.entity < r'.entity`. -/
theorem Panel.pairwise_rows (h : p.crossSection? field category = some x) {d : DateRows α}
    (hd : d ∈ x.byDate) : d.rows.Pairwise fun r r' => r.entity < r'.entity := by
  rw [byDate_crossSection? h] at hd
  obtain ⟨t, -, rfl⟩ := List.mem_map.1 hd
  have hplaces : (p.entities.zipIdx.map Prod.snd).Pairwise (· < ·) := by
    rw [List.zipIdx_map_snd]
    exact List.pairwise_lt_range'
  -- each row has the place of its entity
  refine List.pairwise_filterMap.2 ((List.pairwise_map.1 hplaces).imp fun hlt r hr r' hr' => ?_)
  rwa [Entity.entity_of_row? hr, Entity.entity_of_row? hr']

/-- A cross section in which every entity has one row of a date at most, which is the observation of
the entity's member. -/
structure CrossSection.Orderly (x : CrossSection α) : Prop where
  times : x.byDate.Pairwise fun d d' => d.time < d'.time
  rows : ∀ d ∈ x.byDate, (d.rows.map Row.entity).Nodup
  rowTimes : ∀ d ∈ x.byDate, ∀ r ∈ d.rows, r.point.time = d.time
  increasing : ∀ m ∈ x.members, m.field.Increasing
  /-- Rows are of members. -/
  member : ∀ d ∈ x.byDate, ∀ r ∈ d.rows, ∃ m ∈ x.members, m.entity = r.entity
  /-- They have the values of their members. -/
  observed : ∀ d ∈ x.byDate, ∀ r ∈ d.rows, ∀ m ∈ x.members, m.entity = r.entity →
    m.field.points.valueAt? d.time = some r.point.value

/-- **The cross sections of panels are orderly**: `x.Orderly`. -/
theorem Panel.orderly_crossSection? (h : p.crossSection? field category = some x) :
    x.Orderly where
  times := by
    rw [byDate_crossSection? h, List.pairwise_map]
    exact p.sectionSchedule_pairwise field category
  rows d hd := List.pairwise_map.2 ((pairwise_rows h hd).imp Nat.ne_of_lt)
  rowTimes d hd r hr := by
    obtain ⟨c, -, -, hrow⟩ := exists_of_mem_rows h hd hr
    obtain ⟨v, -, rfl⟩ := Option.map_eq_some_iff.1 hrow
    rfl
  increasing m hm := (increasing_members h hm).1
  member d hd r hr := by
    obtain ⟨c, hc, hplace, -⟩ := exists_of_mem_rows h hd hr
    rw [members_crossSection? h]
    exact ⟨_, List.mem_map_of_mem hc, hplace⟩
  observed d hd r hr m hm hplace := by
    obtain ⟨⟨n, e, s⟩, hc, hn, hrow⟩ := exists_of_mem_rows h hd hr
    rw [members_crossSection? h] at hm
    obtain ⟨⟨n', e', s'⟩, hc', rfl⟩ := List.mem_map.1 hm
    -- one place, one entity, one field
    obtain rfl : n' = n := hplace.trans hn.symm
    obtain ⟨he, -, hs⟩ := mem_candidates_iff.1 hc
    obtain ⟨he', -, hs'⟩ := mem_candidates_iff.1 hc'
    obtain rfl := Option.some.inj (he'.symm.trans he)
    obtain rfl := Option.some.inj (hs'.symm.trans hs)
    obtain ⟨v, hv, rfl⟩ := Option.map_eq_some_iff.1 hrow
    exact hv

/-- **The cross sections of panels can be ranked**: `x.Rankable`. -/
theorem Panel.rankable_crossSection? (hone : ((1 : α) == 0) = false)
    (h : p.crossSection? field category = some x) : x.Rankable :=
  have horderly := orderly_crossSection? h
  { times := List.pairwise_map.2 (horderly.times.imp Int.ne_of_lt)
    rows := horderly.rows
    weights := fun _ hd _ hr => weight_ne_zero_of_mem_rows hone h hd hr
    increasing := horderly.increasing
    member := horderly.member
    observed := horderly.observed }

/-! ## (4) Entities with several shares -/

/-- Values and weights of an entity fit together at a time: where a field has a value, the weight is
not zero. -/
def Entity.AgreesAt (e : Entity α) (t : Instant) : Prop :=
  (∃ s ∈ e.fields, s.points.valueAt? t ≠ none) →
    ∃ v, Series.observed? e.weight? t = some v ∧ (v == 0) = false

/-- `Panel.sectionsOn p k t`: the cross sections in which an entity, by its place, has a row of a
date. -/
def Panel.sectionsOn (p : Panel α) (k : Nat) (t : Instant) : List (CrossSection α) :=
  p.crossSections.filter fun x => !(x.rowsFor k t).isEmpty

/-- `Panel.rankedShares p n descending k`: the shares that an entity, by its place, gets in a
ranking. -/
def Panel.rankedShares (p : Panel α) (n : Nat) (descending : Bool) (k : Nat) :
    List (Placement α) :=
  (p.crossSections.flatMap fun x => x.rank n descending).filter fun y => y.entity == k

omit [Scalar α] in
/-- `(bs.flatMap f).getLast? = (bs.filter test).getLast?.bind fun b => (f b).getLast?`: the last of
what is made of the elements of a list is made of the last of those of which anything is made. -/
theorem getLast?_flatMap_filter {β γ : Type} {f : β → List γ} {test : β → Bool} {bs : List β}
    (h : ∀ b ∈ bs, f b ≠ [] ↔ test b = true) :
    (bs.flatMap f).getLast? = (bs.filter test).getLast?.bind fun b => (f b).getLast? := by
  induction bs with
  | nil => rfl
  | cons b bs ih =>
    obtain ⟨hb, hrest⟩ := List.forall_mem_cons.1 h
    rw [List.flatMap_cons, List.getLast?_append, ih hrest]
    by_cases htest : test b = true
    · rw [List.filter_cons_of_pos htest, List.getLast?_cons]
      cases hlast : (bs.filter test).getLast? with
      | none => rfl
      | some c =>
        -- the last one is not passed over, since something is made of it
        obtain ⟨hc, hpass⟩ := List.mem_filter.1 (List.mem_of_getLast? hlast)
        obtain ⟨v, hv⟩ := Option.isSome_iff_exists.1
          (List.getLast?_isSome.2 ((hrest c hc).2 hpass))
        rw [Option.bind_some, Option.getD_some, Option.bind_some, hv, Option.some_or]
    · have hnil : f b = [] := by_contra fun hne => htest (hb.1 hne)
      rw [List.filter_cons_of_neg htest, hnil, List.getLast?_nil, Option.or_none]

variable {n : Nat} {descending : Bool} {k : Nat} {t : Instant}

/-- A share is of a section: `y ∈ p.rankedShares n descending k` just when
`y.entity = k ∧ ∃ x ∈ p.crossSections, y ∈ x.rank n descending`. -/
theorem Panel.mem_rankedShares {y : Placement α} : y ∈ p.rankedShares n descending k ↔
    y.entity = k ∧ ∃ x ∈ p.crossSections, y ∈ x.rank n descending := by
  rw [rankedShares, List.mem_filter, List.mem_flatMap, beq_iff_eq, and_comm]

/-- Shares are in order: `∀ y ∈ p.rankedShares n descending k, y.WellFormed`. -/
theorem Panel.wellFormed_rankedShares (p : Panel α) (n : Nat) (descending : Bool) (k : Nat) :
    ∀ y ∈ p.rankedShares n descending k, y.WellFormed := by
  intro y hy
  obtain ⟨-, x, hx, hy⟩ := mem_rankedShares.1 hy
  obtain ⟨field, category, h⟩ := mem_crossSections hx
  exact CrossSection.wellFormed_rank (fun m hm => (increasing_members h hm).1) n descending y hy

/-- What an entity keeps in a ranking, it keeps in a section in which it has a row:
`x ∈ p.sectionsOn k t`. -/
theorem Panel.mem_sectionsOn (hx : x ∈ p.crossSections) (h : x.Keeps n descending k t) :
    x ∈ p.sectionsOn k t := by
  refine List.mem_filter.2 ⟨hx, ?_⟩
  simpa using h.rowsFor_ne_nil

/-- **A share has a value on a date** just when a ranking keeps the entity in some section:
`(∃ y ∈ p.rankedShares n descending k, y.field.points.valueAt? t ≠ none)` just when
`∃ x ∈ p.sectionsOn k t, x.Keeps n descending k t`. -/
theorem Panel.exists_rankedShares_iff [ZeroOne α] :
    (∃ y ∈ p.rankedShares n descending k, y.field.points.valueAt? t ≠ none) ↔
      ∃ x ∈ p.sectionsOn k t, x.Keeps n descending k t := by
  constructor
  · rintro ⟨y, hy, hvalue⟩
    obtain ⟨rfl, x, hx, hy⟩ := mem_rankedShares.1 hy
    obtain ⟨field, category, h⟩ := mem_crossSections hx
    have hkeeps := ((rankable_crossSection? ZeroOne.one_beq h).field_ne_none_iff hy).1 hvalue
    exact ⟨x, mem_sectionsOn hx hkeeps, hkeeps⟩
  · rintro ⟨x, hx, hkeeps⟩
    have hmem := List.mem_of_mem_filter hx
    obtain ⟨field, category, h⟩ := mem_crossSections hmem
    have hrankable := rankable_crossSection? ZeroOne.one_beq h
    obtain ⟨y, hy, rfl⟩ := hrankable.exists_mem_rank n descending
      hkeeps.rowsFor_ne_nil
    exact ⟨y, mem_rankedShares.2 ⟨rfl, x, hmem, hy⟩, (hrankable.field_ne_none_iff hy).2 hkeeps⟩

/-- An entity that a ranking keeps in some section has a share:
`p.rankedShares n descending k ≠ []`. -/
theorem Panel.rankedShares_ne_nil [ZeroOne α] (hx : x ∈ p.sectionsOn k t)
    (h : x.Keeps n descending k t) : p.rankedShares n descending k ≠ [] := by
  obtain ⟨y, hy, -⟩ := exists_rankedShares_iff.2 ⟨x, hx, h⟩
  exact List.ne_nil_of_mem hy

/-- **The weight of the shares on a date** is that of the last section in which the entity has a
row: not zero just when the ranking keeps it there. -/
theorem Panel.observed?_rankedShares [ZeroOne α] :
    (∃ v, ((p.rankedShares n descending k).filterMap fun y =>
        Series.observed? y.weight t).getLast? = some v ∧ (v == 0) = false) ↔
      ∃ x, (p.sectionsOn k t).getLast? = some x ∧ x.Keeps n descending k t := by
  have hrankable : ∀ x ∈ p.crossSections, x.Rankable := by
    intro x hx
    obtain ⟨field, category, h⟩ := mem_crossSections hx
    exact rankable_crossSection? ZeroOne.one_beq h
  have hsome : ∀ x ∈ p.crossSections,
      x.shareWeights n descending k t ≠ [] ↔ (!(x.rowsFor k t).isEmpty) = true := by
    intro x hx
    rw [(hrankable x hx).shareWeights_ne_nil_iff]
    simp
  have hkeeps : ∀ x ∈ p.crossSections, ∀ v ∈ x.shareWeights n descending k t,
      (v == 0) = false ↔ x.Keeps n descending k t :=
    fun x hx v hv => (hrankable x hx).ne_zero_iff_of_mem_shareWeights hv
  rw [rankedShares, List.filter_flatMap, List.filterMap_flatMap]
  change (∃ v, (p.crossSections.flatMap fun x =>
    x.shareWeights n descending k t).getLast? = some v ∧ _) ↔ _
  rw [getLast?_flatMap_filter hsome]
  constructor
  · rintro ⟨v, hv, hne⟩
    obtain ⟨x, hx, hv⟩ := Option.bind_eq_some_iff.1 hv
    have hmem := List.mem_of_mem_filter (List.mem_of_getLast? hx)
    exact ⟨x, hx, (hkeeps x hmem v (List.mem_of_getLast? hv)).1 hne⟩
  · rintro ⟨x, hx, hkept⟩
    obtain ⟨hmem, htest⟩ := List.mem_filter.1 (List.mem_of_getLast? hx)
    obtain ⟨v, hv⟩ := Option.isSome_iff_exists.1
      (List.getLast?_isSome.2 ((hsome x hmem).2 htest))
    exact ⟨v, Option.bind_eq_some_iff.2 ⟨x, hx, hv⟩,
      (hkeeps x hmem v (List.mem_of_getLast? hv)).2 hkept⟩

/-- **Values and weights of ranked shares fit together** where the last section in which the entity
has a row keeps it, if any does. -/
theorem Panel.agreesAt_merge_iff [ZeroOne α] (e : Entity α) :
    (Placement.merge e (p.rankedShares n descending k)).AgreesAt t ↔
      ((∃ x ∈ p.sectionsOn k t, x.Keeps n descending k t) →
        ∃ x, (p.sectionsOn k t).getLast? = some x ∧ x.Keeps n descending k t) := by
  have hshares := p.wellFormed_rankedShares n descending k
  rw [Entity.AgreesAt, Placement.exists_field_merge_iff hshares,
    Placement.observed?_weight?_merge hshares, exists_rankedShares_iff, observed?_rankedShares]

end Panels

/-! ## (5) Rankings of panels -/

/-- `Reducer.ranking descending n`: the reducer that keeps the heaviest or the lightest rows. -/
def Reducer.ranking (descending : Bool) (n : Nat) : Reducer :=
  if descending then .top n else .bottom n

/-- Either ranking places the shares of all sections:
`(p.aggregate (.ranking descending n)).entities` is
`p.placed (p.crossSections.flatMap fun x => x.rank n descending)`. -/
theorem Panel.placed_ranking (p : Panel α) (n : Nat) (descending : Bool) :
    (p.aggregate (.ranking descending n)).entities =
      p.placed (p.crossSections.flatMap fun x => x.rank n descending) := by
  cases descending <;> rfl

/-- **The entities of a ranking** are those that have a share:
`e' ∈ (p.aggregate (.ranking descending n)).entities` just when there are `k` and `e` with
`p.entities[k]? = some e`, `p.rankedShares n descending k ≠ []` and
`Placement.merge e (p.rankedShares n descending k) = e'`. -/
theorem Panel.mem_entities_ranking {p : Panel α} {n : Nat} {descending : Bool} {e' : Entity α} :
    e' ∈ (p.aggregate (.ranking descending n)).entities ↔ ∃ k e, p.entities[k]? = some e ∧
      p.rankedShares n descending k ≠ [] ∧
      Placement.merge e (p.rankedShares n descending k) = e' := by
  rw [placed_ranking, mem_placed]
  rfl

/-- **In a ranking, the values and the weight of an entity fit together at a time** just when the
last section in which the entity has a row of the time keeps it, or none does. -/
theorem Panel.agreesAt_ranking_iff {p : Panel Float} {n : Nat} {descending : Bool}
    {e' : Entity Float} (he' : e' ∈ (p.aggregate (.ranking descending n)).entities) :
    ∃ k e, p.entities[k]? = some e ∧ e'.identity = e.identity ∧ ∀ t, e'.AgreesAt t ↔
      ((∃ x ∈ p.sectionsOn k t, x.Keeps n descending k t) →
        ∃ x, (p.sectionsOn k t).getLast? = some x ∧ x.Keeps n descending k t) := by
  obtain ⟨k, e, he, -, rfl⟩ := mem_entities_ranking.1 he'
  exact ⟨k, e, he, Placement.identity_merge e _, fun t => agreesAt_merge_iff e⟩

/-- An entity that has rows in a cross section has the field: `∃ s ∈ e.fields, s.label = field`. -/
theorem Panel.exists_field_of_rowsFor {p : Panel α} {field category : String} {x : CrossSection α}
    (h : p.crossSection? field category = some x) {k : Nat} {e : Entity α}
    (he : p.entities[k]? = some e) {t : Instant} (hrows : x.rowsFor k t ≠ []) :
    ∃ s ∈ e.fields, s.label = field := by
  rw [rowsFor_crossSection? h, he, Option.bind_some] at hrows
  split at hrows
  · obtain ⟨r, hr⟩ := Option.ne_none_iff_exists'.1 (mt Option.toList_eq_nil_iff.2 hrows)
    obtain ⟨-, -, s, hs, -⟩ := Entity.row?_eq_some_iff.1 hr
    exact ⟨s, List.mem_of_find?_eq_some hs, by simpa using List.find?_some hs⟩
  · exact absurd rfl hrows

/-- **An entity whose fields have one label** has values just where it has weight:
`(Placement.merge e (p.rankedShares n descending k)).AgreesAt t`. -/
theorem Panel.agreesAt_of_one_field {p : Panel Float} {n : Nat} {descending : Bool} {k : Nat}
    {e : Entity Float} (he : p.entities[k]? = some e)
    (hone : ∀ s ∈ e.fields, ∀ s' ∈ e.fields, s.label = s'.label) (t : Instant) :
    (Placement.merge e (p.rankedShares n descending k)).AgreesAt t := by
  rw [agreesAt_merge_iff]
  rintro ⟨x, hx, hkeeps⟩
  obtain ⟨y, hy⟩ := Option.isSome_iff_exists.1 (List.getLast?_isSome.2 (List.ne_nil_of_mem hx))
  -- there is no other section in which it has a row
  have hsection : ∀ z ∈ p.sectionsOn k t, z.rowsFor k t ≠ [] ∧ ∃ s ∈ e.fields, ∃ category,
      p.crossSection? s.label category = some z := by
    intro z hz
    obtain ⟨hz, htest⟩ := List.mem_filter.1 hz
    have hrows : z.rowsFor k t ≠ [] := by simpa using htest
    obtain ⟨field, category, h⟩ := mem_crossSections hz
    obtain ⟨s, hs, hlabel⟩ := exists_field_of_rowsFor h he hrows
    exact ⟨hrows, s, hs, category, hlabel ▸ h⟩
  obtain ⟨hxrows, s, hs, category, hxsection⟩ := hsection x hx
  obtain ⟨hyrows, s', hs', category', hysection⟩ := hsection y (List.mem_of_getLast? hy)
  rw [hone s' hs' s hs] at hysection
  obtain rfl := sections_disjoint hxsection hysection hxrows hyrows
  obtain rfl := Option.some.inj (hxsection.symm.trans hysection)
  exact ⟨x, hy, hkeeps⟩

/-- Two entities without weights, the second one with a field of which the first one has the
observation later. -/
def Panel.overlapping : Panel Float :=
  { entities := [
      { identity := ⟨"A", "a", false⟩
        series := [⟨.labelled "Price", [⟨1, 1⟩], false⟩, ⟨.labelled "Yield", [⟨0, 1⟩], false⟩] },
      { identity := ⟨"B", "b", false⟩
        series := [⟨.labelled "Price", [⟨0, 1⟩], false⟩,
          ⟨.labelled "Yield", [⟨0, 1⟩], false⟩] }] }

/-- Their cross sections, one for each field. -/
theorem Panel.byDate_overlapping : overlapping.crossSections.map CrossSection.byDate =
    [[⟨0, [⟨1, ⟨0, 1⟩, 1⟩]⟩, ⟨1, [⟨0, ⟨1, 1⟩, 1⟩, ⟨1, ⟨1, 1⟩, 1⟩]⟩],
      [⟨0, [⟨0, ⟨0, 1⟩, 1⟩, ⟨1, ⟨0, 1⟩, 1⟩]⟩]] := by
  cbv

/-- At the first time, the first entity has a row in one of them and the second one in both: there
are `price` and `yield` with `overlapping.sectionsOn 0 0 = [yield]`,
`overlapping.sectionsOn 1 0 = [price, yield]`, `(∀ k, price.Keeps 1 true k 0 ↔ k = 1)` and
`∀ k, yield.Keeps 1 true k 0 ↔ k = 0`. A ranking that keeps one row keeps that of the second entity
in the first section, and that of the first entity in the other. -/
theorem Panel.exists_sections_overlapping : ∃ price yield,
    overlapping.sectionsOn 0 0 = [yield] ∧ overlapping.sectionsOn 1 0 = [price, yield] ∧
    (∀ k, price.Keeps 1 true k 0 ↔ k = 1) ∧ ∀ k, yield.Keeps 1 true k 0 ↔ k = 0 := by
  obtain ⟨price, rest, hsections, hprice, hrest⟩ := List.map_eq_cons_iff.1 byDate_overlapping
  obtain ⟨yield, rest, rfl, hyield, hnil⟩ := List.map_eq_cons_iff.1 hrest
  obtain rfl := List.map_eq_nil_iff.1 hnil
  -- equal weights keep their places
  have hle : Scalar.sortKeyLe (1 : Float) 1 = true := by decide
  refine ⟨price, yield, ?_, ?_, fun k => ?_, fun k => ?_⟩
  · simp [sectionsOn, hsections, CrossSection.rowsFor, hprice, hyield]
  · simp [sectionsOn, hsections, CrossSection.rowsFor, hprice, hyield]
  · simp [CrossSection.Keeps, DateRows.Keeps, DateRows.byWeight, hprice, eq_comm]
  · have hrows : (DateRows.mk 0 [⟨0, ⟨0, (1 : Float)⟩, 1⟩, ⟨1, ⟨0, 1⟩, 1⟩]).byWeight true =
        [⟨0, ⟨0, 1⟩, 1⟩, ⟨1, ⟨0, 1⟩, 1⟩] :=
      List.mergeSort_of_pairwise (by simp [hle])
    simp [CrossSection.Keeps, DateRows.Keeps, hrows, hyield, eq_comm]

/-- The first entity fits together at that time: its yield is kept. -/
theorem Panel.agreesAt_ranking_overlapping :
    ∃ e' ∈ (overlapping.aggregate (.ranking true 1)).entities,
      e'.identity.key = "a" ∧ e'.AgreesAt 0 := by
  obtain ⟨price, yield, hfirst, -, -, hyield⟩ := exists_sections_overlapping
  have hkept := (hyield 0).2 rfl
  have hshares := rankedShares_ne_nil (hfirst ▸ List.mem_singleton_self _) hkept
  have hmem := mem_entities_ranking.2 ⟨0, _, rfl, hshares, rfl⟩
  refine ⟨_, hmem, rfl, ?_⟩
  obtain ⟨k, e, he, hidentity, hagrees⟩ := agreesAt_ranking_iff hmem
  -- no other entity has its key
  have hk : k = 0 := by
    match k, he with
    | 0, _ => rfl
    | 1, he =>
      cases Option.some.inj he
      exact absurd (congrArg Identity.key hidentity) (by decide)
  subst hk
  exact (hagrees 0).2 fun _ => ⟨yield, by rw [hfirst]; rfl, hkept⟩

/-- **A value without weight.** When one row of each date is kept, the second entity keeps its
price, since no other entity has one, but not its yield, and with the yield it loses its weight:
`¬∀ e' ∈ (overlapping.aggregate (.ranking true 1)).entities, ∀ t, e'.AgreesAt t`. -/
theorem Panel.not_agreesAt_ranking_overlapping :
    ¬∀ e' ∈ (overlapping.aggregate (.ranking true 1)).entities, ∀ t, e'.AgreesAt t := by
  intro h
  obtain ⟨price, yield, -, hsecond, hprice, hyield⟩ := exists_sections_overlapping
  have hkept := (hprice 1).2 rfl
  have hshares := rankedShares_ne_nil (hsecond ▸ List.mem_cons_self) hkept
  have hagrees := h _ (mem_entities_ranking.2 ⟨1, _, rfl, hshares, rfl⟩) 0
  rw [agreesAt_merge_iff, hsecond] at hagrees
  obtain ⟨x, hx, hlast⟩ := hagrees ⟨price, List.mem_cons_self, hkept⟩
  obtain rfl := Option.some.inj hx
  exact absurd ((hyield 1).1 hlast) Nat.one_ne_zero

end PanelQuery
