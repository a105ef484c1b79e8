import PanelQuery.Proofs.Category.InOrder
import PanelQuery.Proofs.Panel.Ranking
import PanelQuery.Proofs.Panel.Reduction
import PanelQuery.Proofs.Statistics.Buckets

/-! # Classifications

A classification keeps every row of every cross section, and puts it into a bucket of its date. The
rows of an entity come from several cross sections: those of one field and of different categories
meet in one series, where they have different dates, and of several fields on one date the first one
gives the entity its category.

* **`valueAt?_foldl_mergeLabels`, `Placement.categoryAt_merge`** — labels that are merged, of which
  the first ones stand;
* **`CrossSection.Orderly.mem_field_of_mem_classify`, `CrossSection.Orderly.mem_labelsFor_iff`** —
  the values and the labels of a share;
* **`Panel.observed?_merge_iff`, `Panel.exists_first_section`** — the merged shares of an entity;
* **`Panel.Classified`, `Panel.classified_aggregate`** — classifications of panels;
* **`CrossSection.BucketsOn`, `Panel.bucketsOn_classify`** — the buckets of exact numbers. -/

namespace PanelQuery

variable {α : Type}

/-! ## (1) Labels that are merged -/

section First

variable {β γ δ : Type}

/-- Something is found first when there is something: `∃ c', bs.findSome? f = some c'`. -/
theorem exists_findSome?_eq_some {f : β → Option γ} {bs : List β} {b : β} (hb : b ∈ bs) {c : γ}
    (hc : f b = some c) : ∃ c', bs.findSome? f = some c' :=
  Option.isSome_iff_exists.1 (List.findSome?_isSome_iff.2 ⟨b, hb, by rw [hc, Option.isSome_some]⟩)

/-- `(bs.flatMap g).findSome? f = bs.findSome? fun b => (g b).findSome? f`: what is found first in
lists one after the other is found in the first of them that has it. -/
theorem findSome?_flatMap (f : γ → Option δ) (g : β → List γ) (bs : List β) :
    (bs.flatMap g).findSome? f = bs.findSome? fun b => (g b).findSome? f := by
  induction bs with
  | nil => rfl
  | cons b bs ih =>
    rw [List.flatMap_cons, List.findSome?_append, ih, List.findSome?_cons]
    cases (g b).findSome? f <;> rfl

end First

section Labels

variable {labels : Points String} {t : Instant} {label : String}

/-- **Labels join others in order of time**, but for the dates that have one:
`(mergeLabels labels other).Increasing` and
`∀ t, (mergeLabels labels other).valueAt? t = (labels.valueAt? t).or (other.valueAt? t)`. -/
theorem valueAt?_mergeLabels (h : labels.Increasing) (other : Points String) :
    (mergeLabels labels other).Increasing ∧ ∀ t, (mergeLabels labels other).valueAt? t =
      (labels.valueAt? t).or (other.valueAt? t) := by
  induction other generalizing labels with
  | nil => exact ⟨h, fun t => Option.or_none.symm⟩
  | cons p other ih =>
    have hstep : mergeLabels labels (p :: other) =
      mergeLabels (if (labels.valueAt? p.time).isSome then labels else labels.insert p) other := rfl
    rw [hstep]
    split
    · rename_i hsome
      obtain ⟨hinc, hvalue⟩ := ih h
      refine ⟨hinc, fun t => ?_⟩
      rw [hvalue]
      by_cases ht : p.time = t
      · obtain ⟨v, hv⟩ := Option.isSome_iff_exists.1 hsome
        rw [← ht, hv, Option.some_or, Option.some_or]
      · rw [Points.valueAt?_cons_of_ne ht]
    · rename_i hnone
      obtain ⟨hinc, hvalue⟩ := ih (h.insert p)
      refine ⟨hinc, fun t => ?_⟩
      rw [hvalue, Points.valueAt?_insert h]
      by_cases ht : p.time = t
      · rw [if_pos ht, Points.valueAt?_cons_of_eq ht, ← ht, Option.not_isSome_iff_eq_none.1 hnone,
          Option.some_or, Option.none_or]
      · rw [if_neg ht, Points.valueAt?_cons_of_ne ht]

/-- **Merged labels**: on each date, that of the first share that has one there.
`(shares.foldl (fun ls y => mergeLabels ls y.labels) labels).Increasing` and for all `t`,
`(shares.foldl (fun ls y => mergeLabels ls y.labels) labels).valueAt? t` is
`(labels.valueAt? t).or (shares.findSome? fun y => y.labels.valueAt? t)`. -/
theorem valueAt?_foldl_mergeLabels (shares : List (Placement α)) (h : labels.Increasing) :
    (shares.foldl (fun ls y => mergeLabels ls y.labels) labels).Increasing ∧
      ∀ t, (shares.foldl (fun ls y => mergeLabels ls y.labels) labels).valueAt? t =
        (labels.valueAt? t).or (shares.findSome? fun y => y.labels.valueAt? t) := by
  induction shares generalizing labels with
  | nil => exact ⟨h, fun t => Option.or_none.symm⟩
  | cons y shares ih =>
    obtain ⟨hinc, hvalue⟩ := valueAt?_mergeLabels h y.labels
    obtain ⟨hinc', hvalue'⟩ := ih hinc
    refine ⟨hinc', fun t => ?_⟩
    rw [List.foldl_cons, hvalue', hvalue, Option.or_assoc, List.findSome?_cons]
    cases y.labels.valueAt? t <;> rfl

/-- **The category that labels make** is, on each of their dates, the label of that date:
`(Category.ofWrites (labels.map fun p => (p.time, p.value))).labelAt? t = some label`. -/
theorem Category.labelAt?_ofWrites_labels (h : labels.Increasing)
    (hlabel : labels.valueAt? t = some label) :
    (Category.ofWrites (labels.map fun p => (p.time, p.value))).labelAt? t = some label := by
  have horder : (labels.map fun p => (p.time, p.value)).Pairwise fun v w => v.1 ≤ w.1 :=
    List.pairwise_map.2 (h.imp Int.le_of_lt)
  have hlast : (labels.filter fun p => decide (p.time ≤ t)).getLast? = some ⟨t, label⟩ := by
    refine (h.filter _).getLast?_eq_some_iff.2 ⟨List.mem_filter.2 ⟨?_, ?_⟩, fun q hq => ?_⟩
    · exact h.valueAt?_eq_some_iff.1 hlabel
    · exact decide_eq_true (Int.le_refl t)
    · exact of_decide_eq_true (List.mem_filter.1 hq).2
  rw [labelAt?_ofWrites horder, List.filter_map, List.getLast?_map, Option.map_map]
  exact congrArg (Option.map Point.value) hlast

/-- **The category of merged shares** on a date is the label of the first share that has one:
`(merge e shares).categoryAt t = label`. -/
theorem Placement.categoryAt_merge (e : Entity α) {shares : List (Placement α)}
    (h : (shares.findSome? fun y => y.labels.valueAt? t) = some label) :
    (merge e shares).categoryAt t = label := by
  obtain ⟨hinc, hvalue⟩ := valueAt?_foldl_mergeLabels shares Points.increasing_nil
  have hlabel := (hvalue t).trans (Option.none_or.trans h)
  have hcategory : (merge e shares).category =
      if (shares.foldl (fun ls y => mergeLabels ls y.labels) []).isEmpty then e.category
      else .ofWrites ((shares.foldl (fun ls y => mergeLabels ls y.labels) []).map
        fun p => (p.time, p.value)) := by
    unfold merge
    dsimp only
    split <;> rfl
  have hne : ¬(shares.foldl (fun ls y => mergeLabels ls y.labels) []).isEmpty = true := by
    intro hempty
    rw [List.isEmpty_iff.1 hempty] at hlabel
    cases hlabel
  rw [Entity.categoryAt, hcategory, if_neg hne, Category.labelAt?_ofWrites_labels hinc hlabel,
    Option.getD_some]

end Labels

variable [Scalar α]

/-! ## (2) Shares of a cross section -/

/-- `DateRows.bucket d n r`: the bucket of a row among those of its date. -/
def DateRows.bucket (d : DateRows α) (n : Nat) (r : Row α) : Nat :=
  bucketOf r.point.value (cutPoints n d.values)

/-- `DateRows.labelOf d n r`: the label that a row gets. -/
def DateRows.labelOf (d : DateRows α) (n : Nat) (r : Row α) : String :=
  bucketLabel (d.bucket (max n 1) r) (max n 1)

/-- **Rows have one label just when they are in one bucket**:
`d.labelOf n r = d.labelOf n r' ↔ d.bucket (max n 1) r = d.bucket (max n 1) r'`. -/
theorem DateRows.labelOf_eq_iff {d : DateRows α} {n : Nat} {r r' : Row α} :
    d.labelOf n r = d.labelOf n r' ↔ d.bucket (max n 1) r = d.bucket (max n 1) r' :=
  bucketLabel_inj _

/-- The labels that a date gives to an entity are those of its rows. -/
theorem DateRows.mem_bucketLabels {d : DateRows α} {n k : Nat} {q : Point String} :
    q ∈ ((d.bucketLabels (max n 1)).filterMap fun (entity, p) =>
        if entity = k then some p else none) ↔
      ∃ r ∈ d.rows, r.entity = k ∧ q = ⟨d.time, d.labelOf n r⟩ := by
  unfold bucketLabels
  simp only [List.mem_filterMap, List.mem_map, exists_exists_and_eq_and,
    Option.ite_none_right_eq_some, Option.some.injEq, eq_comm (a := q)]
  rfl

namespace CrossSection

variable {x : CrossSection α} {n k : Nat} {t : Instant} {y : Placement α}

/-- `labelsFor x n k`: the labels that an entity, by its place, gets on its dates. -/
def labelsFor (x : CrossSection α) (n k : Nat) : Points String :=
  x.byDate.flatMap fun d => (d.bucketLabels (max n 1)).filterMap fun (entity, p) =>
    if entity = k then some p else none

/-- The shares of a classification: each member with the labels of its entity, and what it has on
their dates. -/
theorem mem_classify : y ∈ x.classify n ↔ ∃ m ∈ x.members,
    ⟨m.entity, m.field.keep fun p => (x.labelsFor n m.entity).times.contains p.time,
      m.weight.map fun w => w.keep fun p => (x.labelsFor n m.entity).times.contains p.time,
      x.labelsFor n m.entity⟩ = y := by
  unfold classify labelsFor
  simp only [List.filterMap_flatMap]
  exact List.mem_map

/-- Labels are of rows of the entity: `q ∈ x.labelsFor n k` just when
`∃ d ∈ x.byDate, ∃ r ∈ d.rows, r.entity = k ∧ q = ⟨d.time, d.labelOf n r⟩`. -/
theorem mem_labelsFor {q : Point String} : q ∈ x.labelsFor n k ↔
    ∃ d ∈ x.byDate, ∃ r ∈ d.rows, r.entity = k ∧ q = ⟨d.time, d.labelOf n r⟩ := by
  simp only [labelsFor, List.mem_flatMap, DateRows.mem_bucketLabels]

/-- `(∃ q ∈ x.labelsFor n k, q.time = t) ↔ x.rowsFor k t ≠ []`: there is a label on a date just when
the entity has a row. -/
theorem exists_mem_labelsFor_iff (n : Nat) :
    (∃ q ∈ x.labelsFor n k, q.time = t) ↔ x.rowsFor k t ≠ [] := by
  rw [rowsFor_ne_nil_iff]
  constructor
  · rintro ⟨q, hq, ht⟩
    obtain ⟨d, hd, r, hr, hk, rfl⟩ := mem_labelsFor.1 hq
    exact ⟨d, hd, ht, r, hr, hk⟩
  · rintro ⟨d, hd, ht, r, hr, hk⟩
    exact ⟨_, mem_labelsFor.2 ⟨d, hd, r, hr, hk, rfl⟩, ht⟩

namespace Orderly

/-- **Labels are in order of time**, since an entity has one row of a date at most:
`(x.labelsFor n k).Increasing`. -/
theorem increasing_labelsFor (hx : x.Orderly) (n k : Nat) : (x.labelsFor n k).Increasing := by
  refine List.pairwise_flatMap.2 ⟨fun d hd => ?_, hx.times.imp fun {d d'} hlt q hq q' hq' => ?_⟩
  · have hrows := List.pairwise_map.1 (hx.rows d hd)
    rw [List.pairwise_filterMap, DateRows.bucketLabels, List.pairwise_map]
    refine hrows.imp fun {r r'} hne q hq q' hq' => absurd ?_ hne
    rw [Option.ite_none_right_eq_some] at hq hq'
    exact hq.1.trans hq'.1.symm
  · obtain ⟨r, -, -, rfl⟩ := DateRows.mem_bucketLabels.1 hq
    obtain ⟨r', -, -, rfl⟩ := DateRows.mem_bucketLabels.1 hq'
    exact hlt

/-- **The label of a row** is the only one of its date:
`⟨d.time, label⟩ ∈ x.labelsFor n k ↔ label = d.labelOf n r`. -/
theorem mem_labelsFor_iff (hx : x.Orderly) {d : DateRows α} (hd : d ∈ x.byDate) {r : Row α}
    (hr : r ∈ d.rows) (hk : r.entity = k) {label : String} :
    ⟨d.time, label⟩ ∈ x.labelsFor n k ↔ label = d.labelOf n r := by
  have hmem : ⟨d.time, d.labelOf n r⟩ ∈ x.labelsFor n k :=
    mem_labelsFor.2 ⟨d, hd, r, hr, hk, rfl⟩
  constructor
  · intro h
    exact (Point.mk.inj ((hx.increasing_labelsFor n k).eq_of_time_eq h hmem rfl)).2
  · rintro rfl
    exact hmem

omit [Scalar α] in
/-- `r = r'`: an entity has one row of a date at most. -/
theorem eq_of_mem_rowsFor (hx : x.Orderly) {r r' : Row α} (hr : r ∈ x.rowsFor k t)
    (hr' : r' ∈ x.rowsFor k t) : r = r' := by
  obtain ⟨d, hd, ht, hr, hk⟩ := mem_rowsFor.1 hr
  obtain ⟨d', hd', ht', hr', hk'⟩ := mem_rowsFor.1 hr'
  have htimes : (x.byDate.map DateRows.time).Nodup :=
    List.pairwise_map.2 (hx.times.imp Int.ne_of_lt)
  obtain rfl := List.inj_on_of_nodup_map htimes hd hd' (ht.trans ht'.symm)
  exact List.inj_on_of_nodup_map (hx.rows d hd) hr hr' (hk.trans hk'.symm)

/-- **A share has the values of the rows of its entity**, and no others:
`q ∈ y.field.points ↔ ∃ r ∈ x.rowsFor y.entity q.time, r.point = q`. -/
theorem mem_field_of_mem_classify (hx : x.Orderly) (hy : y ∈ x.classify n) {q : Point α} :
    q ∈ y.field.points ↔ ∃ r ∈ x.rowsFor y.entity q.time, r.point = q := by
  obtain ⟨m, hm, rfl⟩ := mem_classify.1 hy
  have hplaced : (x.labelsFor n m.entity).times.contains q.time = true ↔
      x.rowsFor m.entity q.time ≠ [] := by
    rw [List.contains_iff_mem, Points.times, List.mem_map, exists_mem_labelsFor_iff]
  -- a row has the value of the member
  have hvalue : ∀ r ∈ x.rowsFor m.entity q.time,
      r.point ∈ m.field.points ∧ r.point.time = q.time := by
    intro r hr
    obtain ⟨d, hd, ht, hr, hk⟩ := mem_rowsFor.1 hr
    have hmem := (hx.increasing m hm).valueAt?_eq_some_iff.1 (hx.observed d hd r hr m hm hk.symm)
    rw [← hx.rowTimes d hd r hr] at hmem
    exact ⟨hmem, (hx.rowTimes d hd r hr).trans ht⟩
  dsimp only
  rw [Series.keep, List.mem_filter, hplaced]
  constructor
  · rintro ⟨hq, hrows⟩
    obtain ⟨r, hr⟩ := List.exists_mem_of_ne_nil _ hrows
    obtain ⟨hmem, ht⟩ := hvalue r hr
    exact ⟨r, hr, (hx.increasing m hm).eq_of_time_eq hmem hq ht⟩
  · rintro ⟨r, hr, rfl⟩
    exact ⟨(hvalue r hr).1, List.ne_nil_of_mem hr⟩

/-- An entity that has a row gets a share: `∃ y ∈ x.classify n, y.entity = k`. -/
theorem exists_mem_classify (hx : x.Orderly) (n : Nat) (h : x.rowsFor k t ≠ []) :
    ∃ y ∈ x.classify n, y.entity = k := by
  obtain ⟨d, hd, -, r, hr, hk⟩ := rowsFor_ne_nil_iff.1 h
  obtain ⟨m, hm, hplace⟩ := hx.member d hd r hr
  exact ⟨_, mem_classify.2 ⟨m, hm, rfl⟩, hplace.trans hk⟩

/-- `(x.labelsFor n k).valueAt? t ≠ none ↔ x.rowsFor k t ≠ []`: a label is found on a date just when
the entity has a row. -/
theorem valueAt?_labelsFor_ne_none_iff (hx : x.Orderly) (n : Nat) :
    (x.labelsFor n k).valueAt? t ≠ none ↔ x.rowsFor k t ≠ [] := by
  have hinc := hx.increasing_labelsFor n k
  rw [← exists_mem_labelsFor_iff n, Option.ne_none_iff_exists']
  constructor
  · rintro ⟨label, hlabel⟩
    exact ⟨_, hinc.valueAt?_eq_some_iff.1 hlabel, rfl⟩
  · rintro ⟨q, hq, rfl⟩
    exact ⟨_, hinc.valueAt?_eq_some_iff.2 hq⟩

/-- **The label of an entity** among the shares of a classification:
`(((x.classify n).filter fun y => y.entity == k).findSome? fun y => y.labels.valueAt? t)` is
`(x.labelsFor n k).valueAt? t`. -/
theorem findSome?_classify (hx : x.Orderly) (n k : Nat) (t : Instant) :
    (((x.classify n).filter fun y => y.entity == k).findSome? fun y => y.labels.valueAt? t) =
      (x.labelsFor n k).valueAt? t := by
  have hall : ∀ y ∈ (x.classify n).filter (fun y => y.entity == k),
      y.labels = x.labelsFor n k := by
    intro y hy
    obtain ⟨hy, hk⟩ := List.mem_filter.1 hy
    obtain ⟨m, -, rfl⟩ := mem_classify.1 hy
    exact congrArg (x.labelsFor n) (beq_iff_eq.1 hk)
  cases hlabel : (x.labelsFor n k).valueAt? t with
  | none => exact List.findSome?_eq_none_iff.2 fun y hy => by rw [hall y hy, hlabel]
  | some label =>
    have hrow := (hx.valueAt?_labelsFor_ne_none_iff n).1 (by rw [hlabel]; exact nofun)
    obtain ⟨y, hy, hk⟩ := hx.exists_mem_classify n hrow
    have hmem : y ∈ (x.classify n).filter fun y => y.entity == k :=
      List.mem_filter.2 ⟨hy, beq_iff_eq.2 hk⟩
    obtain ⟨v, hv⟩ := exists_findSome?_eq_some (f := fun y => y.labels.valueAt? t) hmem
      (by rw [hall y hmem, hlabel])
    obtain ⟨y', hy', hv'⟩ := List.exists_of_findSome?_eq_some hv
    rw [hv, ← hv', hall y' hy', hlabel]

end Orderly

end CrossSection

/-! ## (3) Shares of an entity -/

section Shares

variable {p : Panel α} {x x' : CrossSection α} {n k : Nat} {t : Instant}

/-- The cross sections of a panel are orderly: `x.Orderly`. -/
theorem Panel.orderly_of_mem (hx : x ∈ p.crossSections) : x.Orderly :=
  orderly_crossSection? (mem_crossSections_iff.1 hx)

/-- **An entity has rows of a date in one section of a field**: `x = x'`. -/
theorem Panel.section_unique (hx : x ∈ p.crossSections) (hx' : x' ∈ p.crossSections)
    (hfield : x.field = x'.field) (hrows : x.rowsFor k t ≠ []) (hrows' : x'.rowsFor k t ≠ []) :
    x = x' := by
  have h := mem_crossSections_iff.1 hx
  have h' := mem_crossSections_iff.1 hx'
  rw [← hfield] at h'
  have hcategory := sections_disjoint h h' hrows hrows'
  rw [← hcategory] at h'
  exact Option.some.inj (h.symm.trans h')

/-- **Sections come field by field**, in the order of the fields: `p.crossSections.Pairwise fun x x'
=> p.fieldLabels.idxOf x.field ≤ p.fieldLabels.idxOf x'.field`. -/
theorem Panel.pairwise_idxOf_field (p : Panel α) : p.crossSections.Pairwise fun x x' =>
    p.fieldLabels.idxOf x.field ≤ p.fieldLabels.idxOf x'.field := by
  have hnodup : p.fieldLabels.Nodup := Roster.nodup_eraseDups _
  rw [crossSections, List.pairwise_flatMap]
  constructor
  · intro field _
    rw [List.pairwise_filterMap]
    refine List.pairwise_of_forall fun category category' x hx x' hx' => ?_
    rw [(crossSection?_eq_some hx).1, (crossSection?_eq_some hx').1]
  · refine List.pairwise_iff_getElem.2 fun i j hi hj hij x hx x' hx' => ?_
    obtain ⟨category, -, hx⟩ := List.mem_filterMap.1 hx
    obtain ⟨category', -, hx'⟩ := List.mem_filterMap.1 hx'
    rw [(crossSection?_eq_some hx).1, (crossSection?_eq_some hx').1, hnodup.idxOf_getElem,
      hnodup.idxOf_getElem]
    exact hij.le

/-- `m.field.label = x.field`: the members of a cross section have its field. -/
theorem Panel.label_of_mem_members (hx : x ∈ p.crossSections) {m : Member α} (hm : m ∈ x.members) :
    m.field.label = x.field := by
  rw [members_crossSection? (mem_crossSections_iff.1 hx)] at hm
  obtain ⟨⟨n, e, s⟩, hc, rfl⟩ := List.mem_map.1 hm
  have hlabel : s.label = x.field := Entity.label_of_field? (mem_candidates_iff.1 hc).2.2
  exact hlabel

/-- `Panel.classifiedShares p n k`: the shares that an entity, by its place, gets in a
classification. -/
def Panel.classifiedShares (p : Panel α) (n k : Nat) : List (Placement α) :=
  (p.crossSections.flatMap fun x => x.classify n).filter fun y => y.entity == k

/-- `y ∈ p.classifiedShares n k ↔ y.entity = k ∧ ∃ x ∈ p.crossSections, y ∈ x.classify n`: a share
is of a section. -/
theorem Panel.mem_classifiedShares {y : Placement α} : y ∈ p.classifiedShares n k ↔
    y.entity = k ∧ ∃ x ∈ p.crossSections, y ∈ x.classify n := by
  rw [classifiedShares, List.mem_filter, List.mem_flatMap, beq_iff_eq, and_comm]

/-- Shares are in order: `∀ y ∈ p.classifiedShares n k, y.WellFormed`. -/
theorem Panel.wellFormed_classifiedShares (p : Panel α) (n k : Nat) :
    ∀ y ∈ p.classifiedShares n k, y.WellFormed := by
  intro y hy
  obtain ⟨-, x, hx, hy⟩ := mem_classifiedShares.1 hy
  have h := mem_crossSections_iff.1 hx
  exact CrossSection.wellFormed_classify (fun m hm => increasing_members h hm) n y hy

/-- An entity that has a row gets a share: `∃ y ∈ p.classifiedShares n k, y ∈ x.classify n`. -/
theorem Panel.exists_mem_classifiedShares (hx : x ∈ p.crossSections) (n : Nat)
    (h : x.rowsFor k t ≠ []) : ∃ y ∈ p.classifiedShares n k, y ∈ x.classify n := by
  obtain ⟨y, hy, hk⟩ := (orderly_of_mem hx).exists_mem_classify n h
  exact ⟨y, mem_classifiedShares.2 ⟨hk, x, hx, hy⟩, hy⟩

/-- **The shares of a field** have the values of the rows in the sections of the field:
`(∃ y ∈ p.classifiedShares n k, y.field.label = field ∧ y.field.points.valueAt? t = some v)` just
when `∃ x ∈ p.crossSections, x.field = field ∧ ∃ r ∈ x.rowsFor k t, r.point = ⟨t, v⟩`. -/
theorem Panel.exists_share_iff {field : String} {v : α} :
    (∃ y ∈ p.classifiedShares n k, y.field.label = field ∧
        y.field.points.valueAt? t = some v) ↔
      ∃ x ∈ p.crossSections, x.field = field ∧ ∃ r ∈ x.rowsFor k t, r.point = ⟨t, v⟩ := by
  have hlabel : ∀ x ∈ p.crossSections, ∀ y ∈ x.classify n, y.field.label = x.field := by
    intro x hx y hy
    obtain ⟨m, hm, rfl⟩ := CrossSection.mem_classify.1 hy
    exact label_of_mem_members hx hm
  constructor
  · rintro ⟨y, hy, rfl, hvalue⟩
    have hinc := (p.wellFormed_classifiedShares n k y hy).field
    obtain ⟨rfl, x, hx, hy⟩ := mem_classifiedShares.1 hy
    exact ⟨x, hx, (hlabel x hx y hy).symm,
      ((orderly_of_mem hx).mem_field_of_mem_classify hy).1 (hinc.valueAt?_eq_some_iff.1 hvalue)⟩
  · rintro ⟨x, hx, rfl, r, hr, hpoint⟩
    obtain ⟨y, hshare, hy⟩ := exists_mem_classifiedShares hx n (List.ne_nil_of_mem hr)
    have hinc := (p.wellFormed_classifiedShares n k y hshare).field
    obtain ⟨rfl, -⟩ := mem_classifiedShares.1 hshare
    exact ⟨y, hshare, hlabel x hx y hy, hinc.valueAt?_eq_some_iff.2
      (((orderly_of_mem hx).mem_field_of_mem_classify hy).2 ⟨r, hr, hpoint⟩)⟩

/-- **The field of merged shares** has the values of the rows in the sections of the field:
`Series.observed? ((Placement.merge e (p.classifiedShares n k)).field? field) t = some v` just when
`∃ x ∈ p.crossSections, x.field = field ∧ ∃ r ∈ x.rowsFor k t, r.point = ⟨t, v⟩`. -/
theorem Panel.observed?_merge_iff (e : Entity α) {field : String} {v : α} :
    Series.observed? ((Placement.merge e (p.classifiedShares n k)).field? field) t = some v ↔
      ∃ x ∈ p.crossSections, x.field = field ∧ ∃ r ∈ x.rowsFor k t, r.point = ⟨t, v⟩ := by
  have hmem : ∀ u, (u ∈ ((p.classifiedShares n k).filter fun y => y.field.label == field).filterMap
      fun y => y.field.points.valueAt? t) ↔
        ∃ x ∈ p.crossSections, x.field = field ∧ ∃ r ∈ x.rowsFor k t, r.point = ⟨t, u⟩ := by
    intro u
    rw [← exists_share_iff (n := n)]
    simp only [List.mem_filterMap, List.mem_filter, beq_iff_eq, and_assoc]
  rw [Placement.observed?_field?_merge (p.wellFormed_classifiedShares n k)]
  constructor
  · exact fun hlast => (hmem v).1 (List.mem_of_getLast? hlast)
  · rintro ⟨x, hx, rfl, r, hr, hpoint⟩
    refine getLast?_eq_some_of_forall_eq ((hmem v).2 ⟨x, hx, rfl, r, hr, hpoint⟩) fun u hu => ?_
    -- any other value would be that of the same row
    obtain ⟨x', hx', hfield, r', hr', hpoint'⟩ := (hmem u).1 hu
    obtain rfl := section_unique hx' hx hfield (List.ne_nil_of_mem hr') (List.ne_nil_of_mem hr)
    obtain rfl := (orderly_of_mem hx).eq_of_mem_rowsFor hr hr'
    exact (Point.mk.inj (hpoint'.symm.trans hpoint)).2

/-- The label of an entity on a date is that of the first section that has one:
`((p.classifiedShares n k).findSome? fun y => y.labels.valueAt? t)` is
`p.crossSections.findSome? fun x => (x.labelsFor n k).valueAt? t`. -/
theorem Panel.findSome?_classifiedShares (p : Panel α) (n k : Nat) (t : Instant) :
    ((p.classifiedShares n k).findSome? fun y => y.labels.valueAt? t) =
      p.crossSections.findSome? fun x => (x.labelsFor n k).valueAt? t := by
  have hsection : ∀ x ∈ p.crossSections, (((x.classify n).filter fun y => y.entity == k).findSome?
      fun y => y.labels.valueAt? t) = (x.labelsFor n k).valueAt? t :=
    fun x hx => (orderly_of_mem hx).findSome?_classify n k t
  rw [classifiedShares, List.filter_flatMap, findSome?_flatMap]
  generalize p.crossSections = sections at hsection
  induction sections with
  | nil => rfl
  | cons x sections ih =>
    obtain ⟨hx, hrest⟩ := List.forall_mem_cons.1 hsection
    rw [List.findSome?_cons, List.findSome?_cons, hx, ih hrest]

/-- **The label of merged shares** on a date is that of the row in the first section that has one,
which is one of the first field: for some `x ∈ p.sectionsOn k t`,
`(∀ x' ∈ p.sectionsOn k t, p.fieldLabels.idxOf x.field ≤ p.fieldLabels.idxOf x'.field)` and for some
`d ∈ x.byDate`, `d.time = t` and for some `r ∈ d.rows`, `r.entity = k` and
`((p.classifiedShares n k).findSome? fun y => y.labels.valueAt? t) = some (d.labelOf n r)`. -/
theorem Panel.exists_first_section (n : Nat) (h : p.sectionsOn k t ≠ []) :
    ∃ x ∈ p.sectionsOn k t,
      (∀ x' ∈ p.sectionsOn k t, p.fieldLabels.idxOf x.field ≤ p.fieldLabels.idxOf x'.field) ∧
      ∃ d ∈ x.byDate, d.time = t ∧ ∃ r ∈ d.rows, r.entity = k ∧
        ((p.classifiedShares n k).findSome? fun y => y.labels.valueAt? t) =
          some (d.labelOf n r) := by
  have hrows : ∀ x, x ∈ p.sectionsOn k t ↔
      x ∈ p.crossSections ∧ (x.labelsFor n k).valueAt? t ≠ none := by
    intro x
    unfold sectionsOn
    rw [List.mem_filter]
    refine and_congr_right fun hx => ?_
    rw [(orderly_of_mem hx).valueAt?_labelsFor_ne_none_iff]
    simp
  -- some section has a label, and so there is a first one
  obtain ⟨x, hx⟩ := List.exists_mem_of_ne_nil _ h
  obtain ⟨hx, hsome⟩ := (hrows x).1 hx
  obtain ⟨label, hlabel⟩ := Option.ne_none_iff_exists'.1 hsome
  obtain ⟨label, hfirst⟩ := exists_findSome?_eq_some
    (f := fun x : CrossSection α => (x.labelsFor n k).valueAt? t) hx hlabel
  obtain ⟨before, first, after, hsections, hlabel, hnone⟩ := List.findSome?_eq_some_iff.1 hfirst
  have hmem : first ∈ p.crossSections := by rw [hsections]; simp
  refine ⟨first, (hrows first).2 ⟨hmem, by rw [hlabel]; exact nofun⟩, fun x' hx' => ?_, ?_⟩
  · -- no section before it has a label, and those behind it have the same or a later field
    obtain ⟨hx', hsome'⟩ := (hrows x').1 hx'
    rw [hsections] at hx'
    have hpairwise := p.pairwise_idxOf_field
    rw [hsections] at hpairwise
    rcases List.mem_append.1 hx' with hx' | hx'
    · exact absurd (hnone x' hx') hsome'
    · rcases List.mem_cons.1 hx' with rfl | hx'
      · exact le_refl _
      · exact (List.pairwise_cons.1 (List.pairwise_append.1 hpairwise).2.1).1 x' hx'
  · have hinc := (orderly_of_mem hmem).increasing_labelsFor n k
    obtain ⟨d, hd, r, hr, hk, heq⟩ :=
      CrossSection.mem_labelsFor.1 (hinc.valueAt?_eq_some_iff.1 hlabel)
    obtain ⟨rfl, rfl⟩ := Point.mk.inj heq
    exact ⟨d, hd, rfl, r, hr, hk, (p.findSome?_classifiedShares n k _).trans hfirst⟩

end Shares

/-! ## (4) Classifications of panels -/

/-- An entity of a classification: the one at a place of the panel, with all its rows. -/
structure Panel.Classified (p : Panel α) (n k : Nat) (e' : Entity α) : Prop where
  /-- It is who it was. -/
  identity : ∃ e, p.entities[k]? = some e ∧ e'.identity = e.identity
  /-- There is one series of each field at most. -/
  nodup : (e'.fields.map Series.label).Nodup
  /-- Series are in order. -/
  increasing : ∀ s ∈ e'.fields, s.Increasing
  /-- The series of a field has the rows in all sections of the field, and no others. -/
  points : ∀ field (q : Point α), (∃ s, e'.field? field = some s ∧ q ∈ s.points) ↔
    ∃ x ∈ p.crossSections, x.field = field ∧ ∃ r ∈ x.rowsFor k q.time, r.point = q
  /-- The category on a date with rows is the label of the row of the first field that has one. -/
  category : ∀ t, p.sectionsOn k t ≠ [] → ∃ x ∈ p.sectionsOn k t,
    (∀ x' ∈ p.sectionsOn k t, p.fieldLabels.idxOf x.field ≤ p.fieldLabels.idxOf x'.field) ∧
    ∃ d ∈ x.byDate, d.time = t ∧ ∃ r ∈ d.rows, r.entity = k ∧ e'.categoryAt t = d.labelOf n r

section Panels

variable {p : Panel α} {n k : Nat}

/-- **The shares of an entity make an entity that is classified**:
`p.Classified n k (Placement.merge e (p.classifiedShares n k))`. -/
theorem Panel.classified_merge {e : Entity α} (he : p.entities[k]? = some e) :
    p.Classified n k (Placement.merge e (p.classifiedShares n k)) where
  identity := ⟨e, he, Placement.identity_merge e _⟩
  nodup := Placement.nodup_labels_merge e _
  increasing := Placement.increasing_fields_merge (p.wellFormed_classifiedShares n k) e
  points field q := by
    rw [← observed?_merge_iff e, Series.observed?, Option.bind_eq_some_iff]
    refine exists_congr fun s => and_congr_right fun hs => ?_
    have hinc := Placement.increasing_fields_merge (p.wellFormed_classifiedShares n k) e s
      (List.mem_of_find?_eq_some hs)
    exact hinc.valueAt?_eq_some_iff.symm
  category t h := by
    obtain ⟨x, hx, hfirst, d, hd, ht, r, hr, hk, hlabel⟩ := exists_first_section n h
    exact ⟨x, hx, hfirst, d, hd, ht, r, hr, hk, Placement.categoryAt_merge e hlabel⟩

omit [Scalar α] in
/-- Of what is made of the elements of a list, each is made of one of some elements in their order,
which are all of which anything is made: for some `used : List β`, `used.Sublist bs`,
`(∀ b ∈ bs, f b ≠ none → b ∈ used)` and
`List.Forall₂ (fun b c => f b = some c) used (bs.filterMap f)`. -/
theorem exists_sublist_forall₂ {β γ : Type} (f : β → Option γ) (bs : List β) :
    ∃ used : List β, used.Sublist bs ∧ (∀ b ∈ bs, f b ≠ none → b ∈ used) ∧
      List.Forall₂ (fun b c => f b = some c) used (bs.filterMap f) := by
  induction bs with
  | nil => exact ⟨[], .slnil, List.forall_mem_nil _, .nil⟩
  | cons b bs ih =>
    obtain ⟨used, hsub, hall, hmade⟩ := ih
    cases hb : f b with
    | none =>
      rw [List.filterMap_cons_none hb]
      refine ⟨used, hsub.cons b, List.forall_mem_cons.2 ⟨fun hne => absurd hb hne, hall⟩, hmade⟩
    | some c =>
      rw [List.filterMap_cons_some hb]
      refine ⟨b :: used, hsub.cons_cons b, List.forall_mem_cons.2
        ⟨fun _ => List.mem_cons_self, fun a ha hne => List.mem_cons_of_mem b (hall a ha hne)⟩,
        .cons hb hmade⟩

omit [Scalar α] in
/-- The entities that have a share, in their order. -/
theorem Panel.exists_forall₂_placed (p : Panel α) (shares : List (Placement α)) :
    ∃ used : List (Entity α × Nat), used.Sublist p.entities.zipIdx ∧
      (∀ c ∈ p.entities.zipIdx, (shares.filter fun y => y.entity == c.2) ≠ [] → c ∈ used) ∧
      List.Forall₂ (fun c e' => Placement.merge c.1 (shares.filter fun y => y.entity == c.2) = e')
        used (p.placed shares) := by
  obtain ⟨used, hsub, hall, hmade⟩ := exists_sublist_forall₂ (fun c : Entity α × Nat =>
    if (shares.filter fun y => y.entity == c.2).isEmpty then none
    else some (Placement.merge c.1 (shares.filter fun y => y.entity == c.2))) p.entities.zipIdx
  rw [placed_eq]
  refine ⟨used, hsub, fun c hc hne => hall c hc ?_, hmade.imp fun c e' hmerge => ?_⟩
  · rw [if_neg (mt List.isEmpty_iff.1 hne)]
    exact Option.some_ne_none _
  · exact Option.some.inj (Option.ite_none_left_eq_some.1 hmerge).2

/-- **A classification keeps every row**: for some `places : List Nat`, `places.Pairwise (· < ·)`,
`(∀ k ∈ places, k < p.entities.length)`, `(∀ k t, p.sectionsOn k t ≠ [] → k ∈ places)` and
`List.Forall₂ (fun k e' => p.Classified n k e') places (p.aggregate (.quantile n)).entities`. Its
entities are those of the panel, in their order, that have a share in some section, and so all that
have a row. -/
theorem Panel.classified_aggregate (p : Panel α) (n : Nat) : ∃ places : List Nat,
    places.Pairwise (· < ·) ∧ (∀ k ∈ places, k < p.entities.length) ∧
      (∀ k t, p.sectionsOn k t ≠ [] → k ∈ places) ∧
      List.Forall₂ (fun k e' => p.Classified n k e') places
        (p.aggregate (.quantile n)).entities := by
  obtain ⟨used, hsub, hall, hmade⟩ :=
    p.exists_forall₂_placed (p.crossSections.flatMap fun x => x.classify n)
  have hplaces : (used.map Prod.snd).Sublist (List.range' 0 p.entities.length) := by
    rw [← List.zipIdx_map_snd]
    exact hsub.map Prod.snd
  refine ⟨used.map Prod.snd, List.Pairwise.sublist hplaces List.pairwise_lt_range', fun k hk => ?_,
    fun k t hrows => ?_, ?_⟩
  · have hrange := List.mem_range'_1.1 (hplaces.subset hk)
    omega
  · obtain ⟨x, hx⟩ := List.exists_mem_of_ne_nil _ hrows
    obtain ⟨hx, hrow⟩ := List.mem_filter.1 hx
    have hrow : x.rowsFor k t ≠ [] := by simpa using hrow
    obtain ⟨e, he, -⟩ := categoryAt_of_rowsFor (mem_crossSections_iff.1 hx) hrow
    obtain ⟨y, hy, -⟩ := exists_mem_classifiedShares hx n hrow
    exact List.mem_map.2
      ⟨(e, k), hall (e, k) (List.mem_zipIdx_iff_getElem?.2 he) (List.ne_nil_of_mem hy), rfl⟩
  · have hlisted : ∀ c ∈ used, p.entities[c.2]? = some c.1 := fun c hc =>
      List.mem_zipIdx_iff_getElem?.1 (hsub.subset hc)
    rw [List.forall₂_map_left_iff]
    refine ((List.forall₂_and_left _ _).2 ⟨hlisted, hmade⟩).imp fun c e' ⟨he, hmerge⟩ => ?_
    exact hmerge ▸ classified_merge he

end Panels

/-! ## (5) Buckets of exact numbers -/

/-- The buckets of a date, and what the shares of a classification have on it. -/
structure CrossSection.BucketsOn (x : CrossSection Rat) (n : Nat) (d : DateRows Rat) : Prop where
  /-- The entity of a row has a share, of which the row's bucket is the only label of the date. -/
  label : ∀ r ∈ d.rows, (∃ y ∈ x.classify n, y.entity = r.entity) ∧
    ∀ y ∈ x.classify n, y.entity = r.entity → ∀ label,
      ⟨d.time, label⟩ ∈ y.labels ↔ label = bucketLabel (d.bucket n r) n
  /-- A bucket depends on the number of rows and on that of smaller values. -/
  bucket_eq : ∀ r ∈ d.rows, d.bucket n r =
    if d.rows.length = 1 then 1
    else max 1 ⌈(below d.values r.point.value * n : Rat) / (d.rows.length - 1 : Nat)⌉₊
  /-- There are `n` buckets. -/
  bounds : ∀ r ∈ d.rows, 1 ≤ d.bucket n r ∧ d.bucket n r ≤ n
  /-- Buckets do not fall with the value. -/
  mono : ∀ r ∈ d.rows, ∀ r' ∈ d.rows, r.point.value ≤ r'.point.value →
    d.bucket n r ≤ d.bucket n r'
  /-- Equal values are in one bucket. -/
  equal : ∀ r ∈ d.rows, ∀ r' ∈ d.rows, r.point.value = r'.point.value →
    d.bucket n r = d.bucket n r'
  /-- A greatest value that one of several rows has alone is in the last bucket. -/
  greatest : 1 < d.rows.length → ∀ r ∈ d.rows, (∀ r' ∈ d.rows, r'.point.value ≤ r.point.value) →
    d.values.count r.point.value = 1 → d.bucket n r = n

section Buckets

variable {n : Nat}

/-- `d.bucket n r = bucketOfRank n d.rows.length (below d.values r.point.value)`: the bucket of a
row is that of its rank among the values of the date. -/
theorem DateRows.bucket_eq {d : DateRows Rat} (hn : 0 < n) {r : Row Rat} (hr : r ∈ d.rows) :
    d.bucket n r = bucketOfRank n d.rows.length (below d.values r.point.value) := by
  have hmem : r.point.value ∈ d.values := List.mem_map_of_mem hr
  rw [bucket, bucketOf_cutPoints hn hmem, values, List.length_map]

/-- **The buckets of a classification**: `x.BucketsOn n d`. -/
theorem Panel.bucketsOn_classify {p : Panel Rat} {field category : String} {x : CrossSection Rat}
    (h : p.crossSection? field category = some x) (hn : 1 ≤ n) {d : DateRows Rat}
    (hd : d ∈ x.byDate) : x.BucketsOn n d where
  label r hr := by
    have hx := orderly_crossSection? h
    refine ⟨hx.exists_mem_classify n (CrossSection.rowsFor_ne_nil_iff.2 ⟨d, hd, rfl, r, hr, rfl⟩),
      fun y hy hk label => ?_⟩
    obtain ⟨m, -, rfl⟩ := CrossSection.mem_classify.1 hy
    have hlabel : d.labelOf n r = bucketLabel (d.bucket n r) n := by
      rw [DateRows.labelOf, max_eq_left hn]
    rw [← hlabel]
    exact hx.mem_labelsFor_iff hd hr hk.symm
  bucket_eq r hr := by
    rw [DateRows.bucket_eq hn hr]
    rfl
  bounds r hr := by
    have hrank : below d.values r.point.value < d.rows.length := by
      have hmem : r.point.value ∈ d.values := List.mem_map_of_mem hr
      have hlt := below_lt_length hmem
      rwa [DateRows.values, List.length_map] at hlt
    rw [DateRows.bucket_eq hn hr]
    exact ⟨bucketOfRank_pos _ _ _, bucketOfRank_le hn hrank⟩
  mono r hr r' hr' hle := by
    rw [DateRows.bucket_eq hn hr, DateRows.bucket_eq hn hr']
    exact bucketOfRank_mono _ _ (below_mono hle)
  equal r hr r' hr' heq := by
    rw [DateRows.bucket, heq, DateRows.bucket]
  greatest hmany r hr hgreatest hone := by
    have hrank : below d.values r.point.value = d.rows.length - 1 := by
      rw [below_of_greatest hone (List.forall_mem_map.2 hgreatest), DateRows.values,
        List.length_map]
    rw [DateRows.bucket_eq hn hr, hrank]
    exact bucketOfRank_last hn hmany

/-- Four prices of one day, of which two are equal. -/
def Panel.tied : Panel Rat :=
  { entities := [("a", 2), ("b", 1), ("c", 5), ("d", 2)].map fun (key, price) => {
      identity := ⟨key, key, false⟩
      series := [⟨.labelled "Price", [⟨0, price⟩], false⟩] } }

/-- Their quartiles: the two that are equal are in one, and the third one has none. -/
theorem Panel.bucketsOn_classify_tied : ∃ x, Panel.tied.crossSection? "Price" "All" = some x ∧
    1 ≤ 4 ∧ ∃ d ∈ x.byDate, d.values = [2, 1, 5, 2] ∧ x.BucketsOn 4 d ∧
      d.rows.map (d.bucket 4) = [2, 1, 4, 2] := by
  have hlisted : ∃ x, Panel.tied.crossSection? "Price" "All" = some x :=
    Panel.exists_crossSection?_iff.2
      ⟨Panel.tied.entities[0], List.getElem_mem (by decide), by decide, _, rfl⟩
  obtain ⟨x, hx⟩ := hlisted
  have hd : (⟨0, [⟨0, ⟨0, 2⟩, 1⟩, ⟨1, ⟨0, 1⟩, 1⟩, ⟨2, ⟨0, 5⟩, 1⟩, ⟨3, ⟨0, 2⟩, 1⟩]⟩ : DateRows Rat) ∈
      x.byDate := by
    have hdates : x.byDate =
        [⟨0, [⟨0, ⟨0, 2⟩, 1⟩, ⟨1, ⟨0, 1⟩, 1⟩, ⟨2, ⟨0, 5⟩, 1⟩, ⟨3, ⟨0, 2⟩, 1⟩]⟩] := by
      rw [Panel.byDate_crossSection? hx]
      cbv
    exact hdates ▸ List.mem_cons_self
  have hbuckets := Panel.bucketsOn_classify hx (show 1 ≤ 4 by decide) hd
  refine ⟨x, hx, by decide, _, hd, rfl, hbuckets, ?_⟩
  rw [List.map_congr_left hbuckets.bucket_eq]
  decide +kernel

end Buckets

end PanelQuery
