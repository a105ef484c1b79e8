import PanelQuery.Proofs.Panel.Classification

/-! # Rankings of panels with one field

A ranking sorts the rows of each date by weight, and the sort is stable. So the rows that are kept
come before the others in the order of weights, and where weights are equal, in the order of the
entities. When the panel has fields of one label only, an entity has rows of a date in one section
at most, and its weight and its value on the date are what that section leaves of its row.

* **`Row.leads`, `Row.Precedes`** — the order of weights, and that in which rows are kept;
* **`DateRows.pairwise_byWeight`** — the rows of a date from the first to the last;
* **`CrossSection.Rankable.valueAt?_rankedWeight`, `CrossSection.Rankable.keeps_iff`** — the new
  weight of a row, and the rows that are kept;
* **`Panel.rankedEntity?`** — what a ranking makes of an entity;
* **`Panel.observed?_weight?_ranked`, `Panel.observed?_field?_ranked`** — its weight and its values;
* **`DateRows.Selected`, `Panel.Selects`, `Panel.selects_ranking`** — what a ranking keeps. -/

namespace PanelQuery

/-! ## (1) The order of rows -/

section Order

variable {α : Type} [Scalar α]

/-- `Row.leads descending a b`: whether the weight of a row puts it before another one, or level
with it. -/
def Row.leads (descending : Bool) (a b : Row α) : Bool :=
  if descending then Scalar.sortKeyLe b.weight a.weight else Scalar.sortKeyLe a.weight b.weight

/-- One row is kept rather than another one: it is heavier, or lighter when the lightest are kept,
or else it has the same weight and its entity comes first. -/
def Row.Precedes (descending : Bool) (a b : Row α) : Prop :=
  a.leads descending b = true ∧ (b.leads descending a = true → a.entity < b.entity)

omit [Scalar α] in
/-- **What is sorted in a stable way** is in order, and what is level keeps its places:
`(bs.mergeSort le).Pairwise fun a b => le a b = true ∧ (le b a = true → place a < place b)`. -/
theorem pairwise_mergeSort_stable {β : Type} {le : β → β → Bool}
    (htrans : ∀ a b c, le a b = true → le b c = true → le a c = true)
    (htotal : ∀ a b, (le a b || le b a) = true) {place : β → Nat} {bs : List β}
    (h : bs.Pairwise fun a b => place a < place b) :
    (bs.mergeSort le).Pairwise fun a b =>
      le a b = true ∧ (le b a = true → place a < place b) := by
  refine List.pairwise_iff_forall_sublist.2 fun {a b} hab => ?_
  have hle := List.pairwise_iff_forall_sublist.1 (List.pairwise_mergeSort htrans htotal bs) hab
  refine ⟨hle, fun hge => ?_⟩
  -- those that are level with the first one are in order as they stand
  have hlevel : (bs.filter fun c => le a c && le c a).Pairwise fun c d => le c d = true := by
    refine List.pairwise_of_forall_mem_list fun c hc d hd => ?_
    have hc := (Bool.and_eq_true_iff.1 (List.mem_filter.1 hc).2).2
    have hd := (Bool.and_eq_true_iff.1 (List.mem_filter.1 hd).2).1
    exact htrans c a d hc hd
  have hkept := hab.filter fun c => le a c && le c a
  have haa : le a a = true := by simpa using htotal a a
  rw [filter_mergeSort_of_pairwise htrans htotal hlevel, List.filter_cons_of_pos (by simp [haa]),
    List.filter_cons_of_pos (by simp [hle, hge]), List.filter_nil] at hkept
  exact List.pairwise_iff_forall_sublist.1 h (hkept.trans List.filter_sublist)

end Order

/-- **The rows of a date by weight**: each one is kept rather than those that follow.
`(d.byWeight descending).Pairwise (Row.Precedes descending)`. -/
theorem DateRows.pairwise_byWeight {d : DateRows Float}
    (h : d.rows.Pairwise fun r r' => r.entity < r'.entity) (descending : Bool) :
    (d.byWeight descending).Pairwise (Row.Precedes descending) := by
  refine pairwise_mergeSort_stable (fun a b c hab hbc => ?_) (fun a b => ?_) h
  · cases descending with
    | false => exact decide_eq_true (Int.le_trans (of_decide_eq_true hab) (of_decide_eq_true hbc))
    | true => exact decide_eq_true (Int.le_trans (of_decide_eq_true hbc) (of_decide_eq_true hab))
  · cases descending <;>
      exact Bool.or_eq_true_iff.2 ((Int.le_total _ _).imp decide_eq_true decide_eq_true)

/-! ## (2) Sections -/

namespace CrossSection.Rankable

variable {α : Type} [Scalar α] {x : CrossSection α} {n : Nat} {descending : Bool}
  {d : DateRows α}

/-- **The new weight of a row** is the weight of the row when it is one of the first, and else zero:
`(x.rankedWeight n descending r.entity).points.valueAt? d.time` is
`some (if i < n then r.weight else 0)`. -/
theorem valueAt?_rankedWeight (hx : x.Rankable) (hd : d ∈ x.byDate) {i : Nat} {r : Row α}
    (hr : (d.byWeight descending)[i]? = some r) :
    (x.rankedWeight n descending r.entity).points.valueAt? d.time =
      some (if i < n then r.weight else 0) := by
  have hmem := DateRows.mem_byWeight.1 (List.mem_of_getElem? hr)
  obtain ⟨v, hv⟩ := Option.ne_none_iff_exists'.1 ((valueAt?_rankedWeight_ne_none_iff n descending).2
    (rowsFor_ne_nil_iff.2 ⟨d, hd, rfl, r, hmem, rfl⟩))
  obtain ⟨d', hd', ht, hp⟩ := exists_of_valueAt?_rankedWeight hv
  obtain rfl := List.inj_on_of_nodup_map hx.times hd' hd ht
  -- the weight has been written for the only row that the entity has
  obtain ⟨j, r', hr', hk, heq⟩ := DateRows.mem_rankedFor.1 hp
  obtain rfl := DateRows.eq_of_getElem?_byWeight (hx.rows d' hd') hr hr' hk.symm
  obtain rfl := Option.some.inj (hr.symm.trans hr')
  rw [hv, (Point.mk.inj heq).2]

/-- **A row is kept** when it is one of the first:
`x.Keeps n descending r.entity d.time ↔ i < n`. -/
theorem keeps_iff [ZeroOne α] (hx : x.Rankable) (hd : d ∈ x.byDate) {i : Nat} {r : Row α}
    (hr : (d.byWeight descending)[i]? = some r) : x.Keeps n descending r.entity d.time ↔ i < n := by
  rw [← hx.weight_ne_zero_iff (hx.valueAt?_rankedWeight hd hr)]
  by_cases hi : i < n
  · simp [hi, hx.weights d hd r (DateRows.mem_byWeight.1 (List.mem_of_getElem? hr))]
  · simp [hi, ZeroOne.zero_beq]

/-- `v = r.point.value`: a share has the values of rows. -/
theorem value_eq_of_mem_rank (hx : x.Rankable) {y : Placement α} (hy : y ∈ x.rank n descending)
    (hd : d ∈ x.byDate) {r : Row α} (hr : r ∈ d.rows) (hk : y.entity = r.entity) {v : α}
    (hv : y.field.points.valueAt? d.time = some v) : v = r.point.value := by
  obtain ⟨m, hm, rfl⟩ := mem_rank.1 hy
  have hfield := hx.increasing m hm
  have hmem := List.mem_of_mem_filter ((hfield.keep _).valueAt?_eq_some_iff.1 hv)
  have hvalue := hfield.valueAt?_eq_some_iff.2 hmem
  rw [hx.observed d hd r hr m hm hk] at hvalue
  exact (Option.some.inj hvalue).symm

end CrossSection.Rankable

/-! ## (3) Entities -/

namespace Panel

variable {α : Type} [Scalar α] {p : Panel α} {x z : CrossSection α} {field : String} {n k : Nat}
  {descending : Bool} {t : Instant} {e : Entity α}

/-- `rankedEntity? p n descending k`: the entity that a ranking makes of the one at a place, if that
has a share. -/
def rankedEntity? (p : Panel α) (n : Nat) (descending : Bool) (k : Nat) : Option (Entity α) :=
  p.entities[k]?.bind fun e =>
    if (p.rankedShares n descending k).isEmpty then none
    else some (Placement.merge e (p.rankedShares n descending k))

/-- It is made of the shares: `p.rankedEntity? n descending k = some e'` just when there is `e` with
`p.entities[k]? = some e`, `p.rankedShares n descending k ≠ []` and
`Placement.merge e (p.rankedShares n descending k) = e'`. -/
theorem rankedEntity?_eq_some_iff {e' : Entity α} : p.rankedEntity? n descending k = some e' ↔
    ∃ e, p.entities[k]? = some e ∧ p.rankedShares n descending k ≠ [] ∧
      Placement.merge e (p.rankedShares n descending k) = e' := by
  simp [rankedEntity?, Option.bind_eq_some_iff]

/-- **The entities of a ranking** are made of those of the panel, in their order:
`(p.aggregate (.ranking descending n)).entities` is
`(List.range p.entities.length).filterMap (p.rankedEntity? n descending)`. -/
theorem entities_ranking (p : Panel α) (n : Nat) (descending : Bool) :
    (p.aggregate (.ranking descending n)).entities =
      (List.range p.entities.length).filterMap (p.rankedEntity? n descending) := by
  rw [placed_ranking, placed_eq, List.range_eq_range', ← List.zipIdx_map_snd, List.filterMap_map]
  refine List.filterMap_congr fun ⟨e, k⟩ hc => ?_
  rw [Function.comp_apply, rankedEntity?, List.mem_zipIdx_iff_getElem?.1 hc]
  rfl

/-- `x.field = field`: all sections of a panel with one field are of this field. -/
theorem field_eq_of_mem (hfield : p.fieldLabels = [field]) (hx : x ∈ p.crossSections) :
    x.field = field := by
  obtain ⟨label, hlabel, hx⟩ := List.mem_flatMap.1 hx
  obtain ⟨category, -, h⟩ := List.mem_filterMap.1 hx
  rw [hfield] at hlabel
  rw [(crossSection?_eq_some h).1, List.mem_singleton.1 hlabel]

/-- **In a panel with one field**, an entity has rows of a date in one section: `z = x`. -/
theorem eq_of_rowsFor (hfield : p.fieldLabels = [field]) (hx : x ∈ p.crossSections)
    (hz : z ∈ p.crossSections) (hrows : x.rowsFor k t ≠ []) (hrows' : z.rowsFor k t ≠ []) :
    z = x :=
  section_unique hz hx ((field_eq_of_mem hfield hz).trans (field_eq_of_mem hfield hx).symm) hrows'
    hrows

/-- Cross sections of panels can be ranked: `x.Rankable`. -/
theorem rankable_of_mem [ZeroOne α] (hx : x ∈ p.crossSections) : x.Rankable :=
  rankable_crossSection? ZeroOne.one_beq (mem_crossSections_iff.1 hx)

/-- A share that has a weight on a date is of a section in which its entity has a row:
`z.rowsFor y.entity t ≠ []`. -/
theorem rowsFor_ne_nil_of_weight {y : Placement α} (hy : y ∈ z.rank n descending) {v : α}
    (hv : Series.observed? y.weight t = some v) :
    z.rowsFor y.entity t ≠ [] := by
  rw [CrossSection.observed?_weight_of_mem_rank hy] at hv
  refine (CrossSection.valueAt?_rankedWeight_ne_none_iff n descending).1 ?_
  rw [hv]
  exact Option.some_ne_none v

/-- **The weight of an entity on a date** is what the section has left of its row's weight:
`Series.observed? (Placement.merge e (p.rankedShares n descending k)).weight? t = some v`. -/
theorem observed?_weight?_ranked [ZeroOne α] (hfield : p.fieldLabels = [field])
    (hx : x ∈ p.crossSections) {v : α}
    (hv : (x.rankedWeight n descending k).points.valueAt? t = some v) :
    Series.observed? (Placement.merge e (p.rankedShares n descending k)).weight? t = some v := by
  have hrows : x.rowsFor k t ≠ [] :=
    (CrossSection.valueAt?_rankedWeight_ne_none_iff n descending).1 (hv ▸ Option.some_ne_none v)
  rw [Placement.observed?_weight?_merge (p.wellFormed_rankedShares n descending k)]
  refine getLast?_eq_some_of_forall_eq ?_ fun u hu => ?_
  · obtain ⟨y, hy, rfl⟩ := (rankable_of_mem hx).exists_mem_rank n descending hrows
    refine List.mem_filterMap.2 ⟨y, mem_rankedShares.2 ⟨rfl, x, hx, hy⟩, ?_⟩
    rw [CrossSection.observed?_weight_of_mem_rank hy, hv]
  · obtain ⟨y, hy, hweight⟩ := List.mem_filterMap.1 hu
    obtain ⟨rfl, z, hz, hrank⟩ := mem_rankedShares.1 hy
    obtain rfl := eq_of_rowsFor hfield hx hz hrows (rowsFor_ne_nil_of_weight hrank hweight)
    rw [CrossSection.observed?_weight_of_mem_rank hrank, hv] at hweight
    exact (Option.some.inj hweight).symm

/-- **The value of an entity on a date** on which its row is kept is that of the row:
`Series.observed? ((Placement.merge e (p.rankedShares n descending r.entity)).field? field) d.time =
some r.point.value`. -/
theorem observed?_field?_ranked [ZeroOne α] (hfield : p.fieldLabels = [field])
    (hx : x ∈ p.crossSections) {d : DateRows α} (hd : d ∈ x.byDate) {r : Row α} (hr : r ∈ d.rows)
    (hkeeps : x.Keeps n descending r.entity d.time) :
    Series.observed? ((Placement.merge e (p.rankedShares n descending r.entity)).field? field)
      d.time = some r.point.value := by
  rw [Placement.observed?_field?_merge (p.wellFormed_rankedShares n descending r.entity)]
  refine getLast?_eq_some_of_forall_eq ?_ fun u hu => ?_
  · obtain ⟨y, hy, hk⟩ :=
      (rankable_of_mem hx).exists_mem_rank n descending hkeeps.rowsFor_ne_nil
    obtain ⟨v, hv⟩ := Option.ne_none_iff_exists'.1
      (((rankable_of_mem hx).field_ne_none_iff hy).2 (hk ▸ hkeeps))
    obtain rfl := (rankable_of_mem hx).value_eq_of_mem_rank hy hd hr hk hv
    have hlabel : y.field.label = field := by
      obtain ⟨m, hm, rfl⟩ := CrossSection.mem_rank.1 hy
      exact (label_of_mem_members hx hm).trans (field_eq_of_mem hfield hx)
    exact List.mem_filterMap.2 ⟨y, List.mem_filter.2
      ⟨mem_rankedShares.2 ⟨hk, x, hx, hy⟩, beq_iff_eq.2 hlabel⟩, hv⟩
  · obtain ⟨y, hy, hu⟩ := List.mem_filterMap.1 hu
    obtain ⟨hk, z, hz, hy⟩ := mem_rankedShares.1 (List.mem_of_mem_filter hy)
    have hkept := ((rankable_of_mem hz).field_ne_none_iff hy).1 (hu ▸ Option.some_ne_none u)
    obtain rfl := eq_of_rowsFor hfield hx hz hkeeps.rowsFor_ne_nil (hk ▸ hkept.rowsFor_ne_nil)
    exact (rankable_of_mem hz).value_eq_of_mem_rank hy hd hr hk hu

/-- An entity that no section keeps on a date has no value then:
`∀ s ∈ (Placement.merge e (p.rankedShares n descending k)).fields, s.points.valueAt? t = none`. -/
theorem valueAt?_eq_none_of_not_keeps [ZeroOne α]
    (h : ∀ z ∈ p.crossSections, ¬z.Keeps n descending k t) :
    ∀ s ∈ (Placement.merge e (p.rankedShares n descending k)).fields,
      s.points.valueAt? t = none := by
  intro s hs
  by_contra hvalue
  obtain ⟨y, hy⟩ := (Placement.exists_field_merge_iff
    (p.wellFormed_rankedShares n descending k) t).1 ⟨s, hs, hvalue⟩
  obtain ⟨z, hz, hkeeps⟩ := exists_rankedShares_iff.1 ⟨y, hy⟩
  exact h z (List.mem_of_mem_filter hz) hkeeps

end Panel

/-! ## (4) What a ranking keeps -/

/-- What a ranking does with the rows of a date: some are kept and the others are dropped. -/
structure DateRows.Selected (d : DateRows Float) (field : String) (n : Nat) (descending : Bool)
    (out : Nat → Option (Entity Float)) (kept dropped : List (Row Float)) : Prop where
  rows : (kept ++ dropped).Perm d.rows
  /-- Every entity has one row at most. -/
  entities : (d.rows.map Row.entity).Nodup
  count : kept.length = min n d.rows.length
  /-- The entity of a row that is kept has the weight of the row, which is not zero, and its
  value. -/
  keeps : ∀ r ∈ kept, ∃ e', out r.entity = some e' ∧
    Series.observed? e'.weight? d.time = some r.weight ∧ (r.weight == 0) = false ∧
      Series.observed? (e'.field? field) d.time = some r.point.value
  /-- The entity of a row that is dropped has weight zero and no value. -/
  drops : ∀ r ∈ dropped, ∃ e', out r.entity = some e' ∧
    Series.observed? e'.weight? d.time = some 0 ∧ ∀ s ∈ e'.fields, s.points.valueAt? d.time = none
  /-- No row that is dropped is heavier than one that is kept, or lighter when the lightest are
  kept; of equal weights, those of earlier entities are kept. -/
  order : ∀ r ∈ kept, ∀ r' ∈ dropped, r.Precedes descending r'

/-- What a ranking makes of a panel, entity by entity. -/
structure Panel.Selects (p : Panel Float) (field : String) (n : Nat) (descending : Bool)
    (out : Nat → Option (Entity Float)) : Prop where
  /-- The entities are made of those of the panel, in their order. -/
  entities : (p.aggregate (.ranking descending n)).entities =
    (List.range p.entities.length).filterMap out
  /-- They are who they were. -/
  identity : ∀ k e', out k = some e' → p.entities[k]?.map Entity.identity = some e'.identity
  /-- On every date of every category, the first rows are kept. -/
  selected : ∀ category x, p.crossSection? field category = some x → ∀ d ∈ x.byDate,
    ∃ kept dropped, d.Selected field n descending out kept dropped
  /-- An entity has no value on a date on which it has no row. -/
  unlisted : ∀ k e' t, out k = some e' →
    (∀ category x, p.crossSection? field category = some x → x.rowsFor k t = []) →
      ∀ s ∈ e'.fields, s.points.valueAt? t = none

namespace Panel

variable {p : Panel Float} {field : String} {n : Nat} {descending : Bool} {x : CrossSection Float}
  {d : DateRows Float} {r : Row Float}

/-- **The entity of a row** is in the ranking, with the weight of the row if that is one of the
first, and else with weight zero: there are `e` and `e'` with
`p.rankedEntity? n descending r.entity = some e'`,
`e' = Placement.merge e (p.rankedShares n descending r.entity)` and
`Series.observed? e'.weight? d.time = some (if i < n then r.weight else 0)`. -/
theorem exists_rankedEntity? (hfield : p.fieldLabels = [field]) (hx : x ∈ p.crossSections)
    (hd : d ∈ x.byDate) {i : Nat} (hr : (d.byWeight descending)[i]? = some r) :
    ∃ e e', p.rankedEntity? n descending r.entity = some e' ∧
      e' = Placement.merge e (p.rankedShares n descending r.entity) ∧
        Series.observed? e'.weight? d.time = some (if i < n then r.weight else 0) := by
  have hrows : x.rowsFor r.entity d.time ≠ [] := CrossSection.rowsFor_ne_nil_iff.2
    ⟨d, hd, rfl, r, DateRows.mem_byWeight.1 (List.mem_of_getElem? hr), rfl⟩
  obtain ⟨e, he, -⟩ := categoryAt_of_rowsFor (mem_crossSections_iff.1 hx) hrows
  obtain ⟨y, hy, hk⟩ := (rankable_of_mem hx).exists_mem_rank n descending hrows
  have hshares := List.ne_nil_of_mem (mem_rankedShares.2 ⟨hk, x, hx, hy⟩)
  exact ⟨e, _, rankedEntity?_eq_some_iff.2 ⟨e, he, hshares, rfl⟩, rfl,
    observed?_weight?_ranked hfield hx ((rankable_of_mem hx).valueAt?_rankedWeight hd hr)⟩

/-- **The first rows of a date are kept**: `d.Selected field n descending (p.rankedEntity? n
descending) ((d.byWeight descending).take n) ((d.byWeight descending).drop n)`. -/
theorem selected_byWeight (hfield : p.fieldLabels = [field]) (hx : x ∈ p.crossSections)
    (hd : d ∈ x.byDate) : d.Selected field n descending (p.rankedEntity? n descending)
      ((d.byWeight descending).take n) ((d.byWeight descending).drop n) := by
  have hrankable := rankable_of_mem hx
  have hrows := pairwise_rows (mem_crossSections_iff.1 hx) hd
  have hperm : (d.byWeight descending).Perm d.rows := List.mergeSort_perm _ _
  have hsplit := List.take_append_drop n (d.byWeight descending)
  refine ⟨?_, hrankable.rows d hd, ?_, fun r hr => ?_, fun r hr => ?_, ?_⟩
  · rwa [hsplit]
  · rw [List.length_take, hperm.length_eq]
  · obtain ⟨i, hi⟩ := List.mem_iff_getElem?.1 hr
    rw [List.getElem?_take, Option.ite_none_right_eq_some] at hi
    obtain ⟨hi, hplace⟩ := hi
    have hmem := DateRows.mem_byWeight.1 (List.mem_of_getElem? hplace)
    obtain ⟨e, e', he', rfl, hweight⟩ := exists_rankedEntity? hfield hx hd hplace
    rw [if_pos hi] at hweight
    exact ⟨_, he', hweight, hrankable.weights d hd r hmem,
      observed?_field?_ranked hfield hx hd hmem ((hrankable.keeps_iff hd hplace).2 hi)⟩
  · obtain ⟨i, hplace⟩ := List.mem_iff_getElem?.1 hr
    rw [List.getElem?_drop] at hplace
    have hmem := DateRows.mem_byWeight.1 (List.mem_of_getElem? hplace)
    have hi : ¬n + i < n := Nat.not_lt.2 (Nat.le_add_right n i)
    obtain ⟨e, e', he', rfl, hweight⟩ := exists_rankedEntity? hfield hx hd hplace
    rw [if_neg hi] at hweight
    refine ⟨_, he', hweight, valueAt?_eq_none_of_not_keeps fun z hz hkeeps => ?_⟩
    -- no other section has a row of the entity, and this one drops it
    obtain rfl := eq_of_rowsFor hfield hx hz
      (CrossSection.rowsFor_ne_nil_iff.2 ⟨d, hd, rfl, r, hmem, rfl⟩) hkeeps.rowsFor_ne_nil
    exact hi ((hrankable.keeps_iff hd hplace).1 hkeeps)
  · have hordered := DateRows.pairwise_byWeight hrows descending
    rw [← hsplit, List.pairwise_append] at hordered
    exact hordered.2.2

/-- **A ranking of a panel with one field** keeps the first rows of every date of every category,
and nothing else: `p.Selects field n descending (p.rankedEntity? n descending)`. -/
theorem selects_ranking (hfield : p.fieldLabels = [field]) (n : Nat) (descending : Bool) :
    p.Selects field n descending (p.rankedEntity? n descending) where
  entities := p.entities_ranking n descending
  identity k e' he' := by
    obtain ⟨e, he, -, rfl⟩ := rankedEntity?_eq_some_iff.1 he'
    rw [he, Option.map_some, Placement.identity_merge]
  selected category x h d hd := by
    have hx : x ∈ p.crossSections := by
      obtain ⟨rfl, rfl, -⟩ := crossSection?_eq_some h
      exact mem_crossSections_iff.2 h
    exact ⟨_, _, selected_byWeight hfield hx hd⟩
  unlisted k e' t he' h := by
    obtain ⟨e, -, -, rfl⟩ := rankedEntity?_eq_some_iff.1 he'
    refine valueAt?_eq_none_of_not_keeps fun z hz hkeeps => hkeeps.rowsFor_ne_nil ?_
    have hsection := mem_crossSections_iff.1 hz
    rw [field_eq_of_mem hfield hz] at hsection
    exact h _ z hsection

/-- Three prices of one day, of entities of which the last two have the same weight. -/
def contenders : Panel Float :=
  { entities := [("a", 1), ("b", 2), ("c", 2)].map fun (key, weight) => {
      identity := ⟨key, key, false⟩
      series := [⟨.labelled "Price", [⟨0, 5⟩], false⟩,
        ⟨.labelled "Weight", [⟨0, weight⟩], true⟩] } }

/-- The heaviest one is kept, or the first of them:
`contenders.Selects "Price" 1 true (contenders.rankedEntity? 1 true)`. -/
theorem selects_ranking_contenders :
    contenders.Selects "Price" 1 true (contenders.rankedEntity? 1 true) :=
  selects_ranking (by decide +kernel) 1 true

end Panel

end PanelQuery
