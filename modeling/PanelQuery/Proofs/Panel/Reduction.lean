import PanelQuery.Aggregation.Reducer
import PanelQuery.Proofs.Panel.CrossSection
import PanelQuery.Proofs.Roster.Gathering
import PanelQuery.Proofs.Series.Cutting
import PanelQuery.Proofs.Statistics

/-! # Figures do not depend on the order of entities

A reducer that draws figures makes one series of each figure of each cross section. The rows of a
date come in the order of the entities, and so do fields and categories, but no figure of exact
numbers depends on the order of its rows, and no two cross sections meet in one series.

* **`DateRows.Alike`, `Reducer.figure_eq_of_alike`** — rows in another order, and their figures;
* **`Reducer.isSome_figure`** — some rows have every figure;
* **`Reducer.keys`, `Reducer.category_eq_of_mem_keys`** — what the entities of figures are called;
* **`Panel.alike_crossSection?`** — the cross sections of entities in another order;
* **`Panel.drawn`, `Panel.labelled_aggregate`** — all figures, of which no two meet in one series;
* **`Panel.Tabulates`, `Panel.SameSeries`, `Panel.aggregate_perm`** — panels of figures. -/

namespace PanelQuery

/-! ## (1) Figures of a date -/

section Figures

variable {α : Type}

/-- What a figure is drawn from: the value and the weight of a row. -/
def Row.measured (r : Row α) : α × α := (r.point.value, r.weight)

/-- `DateRows.Alike d d'`: rows of two dates with the same values and weights, in whatever order and
of whatever entities. -/
def DateRows.Alike (d d' : DateRows α) : Prop :=
  (d.rows.map Row.measured).Perm (d'.rows.map Row.measured)

namespace DateRows.Alike

variable {d d' : DateRows α}

/-- What is drawn from values and weights of the rows is the same, up to order: `(d.rows.map fun r
=> f r.point.value r.weight).Perm (d'.rows.map fun r => f r.point.value r.weight)`. -/
theorem map (h : d.Alike d') {β : Type} (f : α → α → β) :
    (d.rows.map fun r => f r.point.value r.weight).Perm
      (d'.rows.map fun r => f r.point.value r.weight) := by
  have hmap := List.Perm.map (fun vw : α × α => f vw.1 vw.2) h
  rwa [List.map_map, List.map_map] at hmap

/-- `d.rows.length = d'.rows.length`: there are as many. -/
theorem length_eq (h : d.Alike d') : d.rows.length = d'.rows.length := by
  simpa using List.Perm.length_eq h

/-- `d.rows.isEmpty = d'.rows.isEmpty`: there are none where there are none. -/
theorem isEmpty_eq (h : d.Alike d') : d.rows.isEmpty = d'.rows.isEmpty := by
  rw [Bool.eq_iff_iff, List.isEmpty_iff_length_eq_zero, List.isEmpty_iff_length_eq_zero,
    h.length_eq]

/-- The values are the same, up to order: `d.values.Perm d'.values`. -/
theorem values (h : d.Alike d') : d.values.Perm d'.values := h.map fun v _ => v

end DateRows.Alike

variable {d d' : DateRows Rat}

/-- `d.weightedMean = d'.weightedMean`: the weighted mean does not depend on the order of the
rows. -/
theorem DateRows.Alike.weightedMean_eq (h : d.Alike d') : d.weightedMean = d'.weightedMean := by
  have htotal := (h.map fun _ w => w).sum_eq
  have hproducts := (h.map fun v w => w * v).sum_eq
  unfold DateRows.weightedMean
  simp only [Scalar.sumLeft_eq_sum]
  rw [show (d.rows.map Row.weight).sum = (d'.rows.map Row.weight).sum from htotal, hproducts,
    Statistics.mean_eq_of_perm h.values]

/-- `d.percentPositive = d'.percentPositive`: the share of positive values does not. -/
theorem DateRows.Alike.percentPositive_eq (h : d.Alike d') :
    d.percentPositive = d'.percentPositive := by
  have hcount : ∀ d : DateRows Rat, (d.rows.countP fun r => decide (0 < r.point.value)) =
      d.values.countP fun v => decide (0 < v) := by
    intro d
    rw [DateRows.values, List.countP_map]
    rfl
  rw [DateRows.percentPositive, DateRows.percentPositive, hcount, hcount, h.values.countP_eq,
    h.length_eq]

/-- **No figure depends on the order of the rows**: `f.2 d = f.2 d'`. -/
theorem Reducer.figure_eq_of_alike {r : Reducer} {category : String}
    {f : String × (DateRows Rat → Option Rat)} (hf : f ∈ r.figures category) (h : d.Alike d') :
    f.2 d = f.2 d' := by
  cases r with
  | sum =>
    obtain rfl := List.mem_singleton.1 hf
    exact congrArg some (Statistics.sum_eq_of_perm h.values)
  | average =>
    obtain rfl := List.mem_singleton.1 hf
    exact h.weightedMean_eq
  | count =>
    obtain rfl := List.mem_singleton.1 hf
    exact congrArg (fun n => some (Scalar.ofNat n)) h.length_eq
  | percentPositive =>
    obtain rfl := List.mem_singleton.1 hf
    exact congrArg some h.percentPositive_eq
  | median =>
    obtain rfl := List.mem_singleton.1 hf
    exact Statistics.median_eq_of_perm h.values
  | boxplot =>
    obtain ⟨⟨row, k⟩, -, rfl⟩ := List.mem_map.1 hf
    exact congrArg (Statistics.quantileSorted · _) (Scalar.sorted_eq_of_perm h.values)
  | top n => cases hf
  | bottom n => cases hf
  | quantile n => cases hf

/-- **Some rows have every figure**: `(f.2 d).isSome`. -/
theorem Reducer.isSome_figure {r : Reducer} {category : String}
    {f : String × (DateRows Rat → Option Rat)} (hf : f ∈ r.figures category) (h : d.rows ≠ []) :
    (f.2 d).isSome := by
  have hvalues : d.values ≠ [] := mt List.map_eq_nil_iff.1 h
  cases r with
  | sum =>
    obtain rfl := List.mem_singleton.1 hf
    rfl
  | average =>
    obtain rfl := List.mem_singleton.1 hf
    show d.weightedMean.isSome
    unfold DateRows.weightedMean
    dsimp only
    -- where the weights cancel out, the plain mean takes the place of the weighted one
    split
    · exact Statistics.isSome_mean hvalues
    · rfl
  | count =>
    obtain rfl := List.mem_singleton.1 hf
    rfl
  | percentPositive =>
    obtain rfl := List.mem_singleton.1 hf
    rfl
  | median =>
    obtain rfl := List.mem_singleton.1 hf
    exact Statistics.isSome_median hvalues
  | boxplot =>
    obtain ⟨⟨row, k⟩, -, rfl⟩ := List.mem_map.1 hf
    exact Statistics.isSome_quantileSorted (Scalar.sorted_ne_nil hvalues) _
  | top n => cases hf
  | bottom n => cases hf
  | quantile n => cases hf

end Figures

/-! ## (2) Names of figures -/

/-- `Reducer.keys r category`: the keys of the entities that a reducer makes of a category. -/
def Reducer.keys (r : Reducer) (category : String) : List String :=
  match r with
  | boxplot => boxRows.map fun row => category ++ " " ++ row
  | sum | average | count | percentPositive | median => [category]
  | top _ | bottom _ | quantile _ => []

namespace Reducer

variable {r : Reducer} {category category' key : String}

/-- They are the names of its figures:
`(r.figures category : List (String × (DateRows α → Option α))).map Prod.fst` is
`r.keys category`. -/
theorem map_fst_figures {α : Type} [Scalar α] (r : Reducer) (category : String) :
    (r.figures category : List (String × (DateRows α → Option α))).map Prod.fst =
      r.keys category := by
  cases r <;> rfl

/-- The name of a figure is one of them: `f.1 ∈ r.keys category`. -/
theorem mem_keys_of_mem_figures {α : Type} [Scalar α] {f : String × (DateRows α → Option α)}
    (hf : f ∈ r.figures category) : f.1 ∈ r.keys category := by
  rw [← map_fst_figures (α := α)]
  exact List.mem_map_of_mem hf

/-- `l = l' ∧ m = m'`: what comes before the last of some marks is told by the whole, and what comes
after it. -/
theorem eq_of_append_cons_eq {β : Type} {a : β} {l l' m m' : List β} (hm : a ∉ m) (hm' : a ∉ m')
    (h : l ++ a :: m = l' ++ a :: m') : l = l' ∧ m = m' := by
  have hshort : ∀ {l l' m m' c : List β}, a ∉ m → l' = l ++ c → a :: m = c ++ a :: m' →
      l = l' ∧ m = m' := by
    intro l l' m m' c hm hl heq
    cases c with
    | nil => exact ⟨by rw [hl, List.append_nil], (List.cons.inj heq).2⟩
    | cons b c =>
      -- there would be one more mark after the last one
      refine absurd ?_ hm
      rw [(List.cons.inj heq).2]
      exact List.mem_append_right _ List.mem_cons_self
  rcases List.append_eq_append_iff.1 h with ⟨c, hl, heq⟩ | ⟨c, hl, heq⟩
  · exact hshort hm hl heq
  · exact (hshort hm' hl heq).imp Eq.symm Eq.symm

/-- The rows of a box plot have no blank in their names: `' ' ∉ row.toList`. -/
theorem not_mem_of_mem_boxRows {row : String} (h : row ∈ boxRows) : ' ' ∉ row.toList := by
  revert row
  decide

/-- **A key is made of one category**: `category = category'`. -/
theorem category_eq_of_mem_keys (h : key ∈ r.keys category) (h' : key ∈ r.keys category') :
    category = category' := by
  cases r with
  | boxplot =>
    obtain ⟨row, hrow, rfl⟩ := List.mem_map.1 h
    obtain ⟨row', hrow', heq⟩ := List.mem_map.1 h'
    have hlists : category.toList ++ ' ' :: row.toList =
        category'.toList ++ ' ' :: row'.toList := by
      simpa using congrArg String.toList heq.symm
    exact String.toList_inj.1 (eq_of_append_cons_eq (not_mem_of_mem_boxRows hrow)
      (not_mem_of_mem_boxRows hrow') hlists).1
  | sum | average | count | percentPositive | median =>
    exact (List.mem_singleton.1 h).symm.trans (List.mem_singleton.1 h')
  | top n => cases h
  | bottom n => cases h
  | quantile n => cases h

/-- The keys of a category are different: `(r.keys category).Nodup`. -/
theorem nodup_keys (r : Reducer) (category : String) : (r.keys category).Nodup := by
  cases r with
  | boxplot =>
    refine List.Nodup.map (fun row row' heq => ?_) (show boxRows.Nodup by decide)
    exact (String.append_right_inj (category ++ " ")).1 heq
  | sum | average | count | percentPositive | median => exact List.nodup_singleton _
  | top n => exact List.nodup_nil
  | bottom n => exact List.nodup_nil
  | quantile n => exact List.nodup_nil

end Reducer

/-! ## (3) Cross sections of reordered entities -/

section Sections

variable {α : Type} [Scalar α] {p q : Panel α} {field category : String} {x y : CrossSection α}

omit [Scalar α] in
/-- `s.label = label`: a field that is found by a label has it. -/
theorem Entity.label_of_field? {e : Entity α} {label : String} {s : Series α}
    (h : e.field? label = some s) : s.label = label := by
  simpa using List.find?_some h

/-- What is drawn from the row of an entity does not depend on the place of the entity:
`(e.row? field category schedule t n).map Row.measured` is
`(e.row? field category schedule t n').map Row.measured`. -/
theorem Entity.map_row? (e : Entity α) (field category : String) (schedule : Schedule) (t : Instant)
    (n n' : Nat) : (e.row? field category schedule t n).map Row.measured =
      (e.row? field category schedule t n').map Row.measured := by
  unfold row?
  split
  · cases e.field? field with
    | none => rfl
    | some s =>
      simp only [Option.bind_some, Member.row?, Option.map_map]
      rfl
  · rfl

namespace Panel

omit [Scalar α] in
/-- The candidates of a cross section, whatever their places are:
`(∃ c ∈ p.candidates field category, P c.2.2)` just when
`∃ e ∈ p.entities, e.isEverIn category = true ∧ ∃ s, e.field? field = some s ∧ P s`. -/
theorem exists_mem_candidates_iff {P : Series α → Prop} :
    (∃ c ∈ p.candidates field category, P c.2.2) ↔
      ∃ e ∈ p.entities, e.isEverIn category = true ∧ ∃ s, e.field? field = some s ∧ P s := by
  constructor
  · rintro ⟨⟨n, e, s⟩, hc, hs⟩
    obtain ⟨he, hlisted, hfield⟩ := mem_candidates_iff.1 hc
    exact ⟨e, List.mem_of_getElem? he, hlisted, s, hfield, hs⟩
  · rintro ⟨e, he, hlisted, s, hfield, hs⟩
    obtain ⟨n, hn⟩ := List.mem_iff_getElem?.1 he
    exact ⟨(n, e, s), mem_candidates hn hlisted hfield, hs⟩

/-- **A cross section is of its field and its category**, and is headed by a candidate:
`x.field = field`, `x.category = category` and
`∃ c ∈ p.candidates field category, x.header = c.2.2.header`. -/
theorem crossSection?_eq_some (h : p.crossSection? field category = some x) :
    x.field = field ∧ x.category = category ∧
      ∃ c ∈ p.candidates field category, x.header = c.2.2.header := by
  unfold crossSection? at h
  split at h
  · cases h
  · rename_i n e s rest hcandidates
    rw [← Option.some.inj h]
    exact ⟨rfl, rfl, (n, e, s), hcandidates ▸ List.mem_cons_self, rfl⟩

/-- `x.header.label = field`: its label is that of its field. -/
theorem label_crossSection? (h : p.crossSection? field category = some x) :
    x.header.label = field := by
  obtain ⟨-, -, ⟨n, e, s⟩, hc, hheader⟩ := crossSection?_eq_some h
  rw [hheader]
  exact Entity.label_of_field? (mem_candidates_iff.1 hc).2.2

/-- There is one where an entity is listed in the category and has the field:
`(∃ x, p.crossSection? field category = some x)` just when
`∃ e ∈ p.entities, e.isEverIn category = true ∧ ∃ s, e.field? field = some s`. -/
theorem exists_crossSection?_iff : (∃ x, p.crossSection? field category = some x) ↔
    ∃ e ∈ p.entities, e.isEverIn category = true ∧ ∃ s, e.field? field = some s := by
  constructor
  · rintro ⟨x, h⟩
    obtain ⟨-, -, c, hc, -⟩ := crossSection?_eq_some h
    obtain ⟨e, he, hlisted, s, hs, -⟩ :=
      (exists_mem_candidates_iff (P := fun _ => True)).1 ⟨c, hc, trivial⟩
    exact ⟨e, he, hlisted, s, hs⟩
  · rintro ⟨e, he, hlisted, s, hs⟩
    obtain ⟨n, hn⟩ := List.mem_iff_getElem?.1 he
    exact exists_crossSection? (mem_candidates hn hlisted hs)

/-- **The cross sections of a panel** are those of all fields and categories:
`x ∈ p.crossSections ↔ p.crossSection? x.field x.category = some x`. -/
theorem mem_crossSections_iff : x ∈ p.crossSections ↔
    p.crossSection? x.field x.category = some x := by
  constructor
  · intro hx
    obtain ⟨field, category, h⟩ := mem_crossSections hx
    obtain ⟨rfl, rfl, -⟩ := crossSection?_eq_some h
    exact h
  · intro h
    obtain ⟨e, he, hlisted, s, hs⟩ := exists_crossSection?_iff.1 ⟨x, h⟩
    refine List.mem_flatMap.2 ⟨x.field, ?_, List.mem_filterMap.2 ⟨x.category, ?_, h⟩⟩
    · refine List.mem_eraseDups.2 (List.mem_flatMap.2 ⟨e, he, List.mem_map.2 ⟨s, ?_, ?_⟩⟩)
      · exact List.mem_of_find?_eq_some hs
      · exact Entity.label_of_field? hs
    · exact mem_categoryLabels.2 ⟨e, he, hlisted⟩

omit [Scalar α] in
/-- `p.sectionSchedule field category = q.sectionSchedule field category`: the dates of a cross
section do not depend on the order of the entities. -/
theorem sectionSchedule_eq_of_perm (h : p.entities.Perm q.entities) (field category : String) :
    p.sectionSchedule field category = q.sectionSchedule field category := by
  have hmem : ∀ (p : Panel α) (t : Instant), t ∈ (p.sectionSchedule field category).dates ↔
      ∃ e ∈ p.entities, e.isEverIn category = true ∧
        ∃ s, e.field? field = some s ∧ t ∈ s.points.times := by
    intro p t
    rw [sectionSchedule, Schedule.ofDates, mem_distinctSorted, List.mem_flatMap]
    exact exists_mem_candidates_iff (P := fun s => t ∈ s.points.times)
  have hdates := pairwise_lt_ext (p.sectionSchedule_pairwise field category)
    (q.sectionSchedule_pairwise field category) fun t => by rw [hmem, hmem]; simp only [h.mem_iff]
  exact congrArg (Schedule.mk · false false) hdates

/-- Nor does what is drawn from the rows of a date, but for its order. -/
theorem rows_perm (h : p.entities.Perm q.entities) (field category : String) (schedule : Schedule)
    (t : Instant) :
    ((p.entities.zipIdx.filterMap fun c => c.1.row? field category schedule t c.2).map
        Row.measured).Perm
      ((q.entities.zipIdx.filterMap fun c => c.1.row? field category schedule t c.2).map
        Row.measured) := by
  have hplaces : ∀ es : List (Entity α),
      (es.zipIdx.filterMap fun c => c.1.row? field category schedule t c.2).map Row.measured =
        es.filterMap fun e => (e.row? field category schedule t 0).map Row.measured := by
    intro es
    rw [List.map_filterMap]
    conv_rhs => rw [← List.zipIdx_map_fst 0 es, List.filterMap_map]
    exact List.filterMap_congr fun c _ => c.1.map_row? field category schedule t c.2 0
  rw [hplaces, hplaces]
  exact h.filterMap _

/-- **The cross sections of reordered entities** are alike, date by date:
`List.Forall₂ (fun d d' => d.time = d'.time ∧ d.Alike d') x.byDate y.byDate`. -/
theorem alike_crossSection? (h : p.entities.Perm q.entities)
    (hx : p.crossSection? field category = some x) (hy : q.crossSection? field category = some y) :
    List.Forall₂ (fun d d' => d.time = d'.time ∧ d.Alike d') x.byDate y.byDate := by
  rw [byDate_crossSection? hx, byDate_crossSection? hy, sectionSchedule_eq_of_perm h,
    List.forall₂_map_left_iff, List.forall₂_map_right_iff]
  exact List.forall₂_same.2 fun t _ => ⟨rfl, rows_perm h field category _ t⟩

end Panel

end Sections

/-! ## (4) Figures of a panel -/

/-- A figure that is drawn from a cross section, with the key that it gets. -/
structure Drawn (α : Type) where
  source : CrossSection α
  key : String
  figure : DateRows α → Option α

namespace Drawn

variable {α : Type}

/-- `point? d day`: its point on a date, if there are rows. -/
def point? (d : Drawn α) (day : DateRows α) : Option (Point α) :=
  if day.rows.isEmpty then none else (d.figure day).map fun v => ⟨day.time, v⟩

/-- Its points. -/
def points (d : Drawn α) : Points α := d.source.byDate.filterMap d.point?

/-- `q.time = day.time ∧ day.rows ≠ []`: a point is on its date, and there are rows. -/
theorem point?_eq_some {d : Drawn α} {day : DateRows α} {q : Point α} (h : d.point? day = some q) :
    q.time = day.time ∧ day.rows ≠ [] := by
  unfold point? at h
  split at h
  · cases h
  · rename_i hrows
    obtain ⟨v, -, rfl⟩ := Option.map_eq_some_iff.1 h
    exact ⟨rfl, fun hnil => hrows (List.isEmpty_iff.2 hnil)⟩

/-- Its series. -/
def series (d : Drawn α) : Series α :=
  .ofWrites { d.source.header with transformed := true } d.points

/-- What it adds to a roster. -/
def addition (d : Drawn α) : Roster.Addition α := ⟨d.source.figureEntity d.key d.figure, none⟩

end Drawn

/-- `e.fields = e.series`: without a weight, all series are fields. -/
theorem Entity.fields_eq_series {α : Type} (e : Entity α) (h : e.weight? = none) :
    e.fields = e.series :=
  List.filter_eq_self.2 fun s hs => by simpa using List.find?_eq_none.1 h s hs

/-- `bs.filter test = [b]`: of a list in which no element is found twice, one element is found by a
test that only it passes. -/
theorem filter_eq_singleton {β : Type} {test : β → Bool} {bs : List β} (hnodup : bs.Nodup) {b : β}
    (hb : b ∈ bs) (h : ∀ c ∈ bs, test c = true ↔ c = b) : bs.filter test = [b] := by
  induction bs with
  | nil => cases hb
  | cons c bs ih =>
    obtain ⟨hc, hbs⟩ := List.nodup_cons.1 hnodup
    obtain ⟨htest, hrest⟩ := List.forall_mem_cons.1 h
    rcases List.mem_cons.1 hb with rfl | hb
    · rw [List.filter_cons_of_pos (htest.2 rfl), List.filter_eq_nil_iff.2 fun c' hc' htest' => ?_]
      exact hc ((hrest c' hc').1 htest' ▸ hc')
    · rw [List.filter_cons_of_neg fun htest' => hc (htest.1 htest' ▸ hb), ih hbs hb hrest]

namespace Panel

variable {α : Type}

/-- `labelled p key label`: the series of a key with a label. -/
def labelled (p : Panel α) (key label : String) : List (Series α) :=
  (p.entities.filter fun e => e.key == key).flatMap fun e =>
    e.series.filter fun s => s.label == label

variable [Scalar α] {p : Panel α} {r : Reducer}

/-- `drawn p r`: the figures that a reducer draws from a panel. -/
def drawn (p : Panel α) (r : Reducer) : List (Drawn α) :=
  p.crossSections.flatMap fun x => (r.figures x.category).map fun f => ⟨x, f.1, f.2⟩

/-- They are all figures of all cross sections:
`d ∈ p.drawn r ↔ d.source ∈ p.crossSections ∧ (d.key, d.figure) ∈ r.figures d.source.category`. -/
theorem mem_drawn {d : Drawn α} : d ∈ p.drawn r ↔
    d.source ∈ p.crossSections ∧ (d.key, d.figure) ∈ r.figures d.source.category := by
  constructor
  · intro hd
    obtain ⟨x, hx, hd⟩ := List.mem_flatMap.1 hd
    obtain ⟨f, hf, rfl⟩ := List.mem_map.1 hd
    exact ⟨hx, hf⟩
  · rintro ⟨hx, hf⟩
    exact List.mem_flatMap.2 ⟨d.source, hx, List.mem_map.2 ⟨_, hf, rfl⟩⟩

/-- The key of a figure is one of its category: `d.key ∈ r.keys d.source.category`. -/
theorem key_mem_keys {d : Drawn α} (hd : d ∈ p.drawn r) : d.key ∈ r.keys d.source.category :=
  Reducer.mem_keys_of_mem_figures (mem_drawn.1 hd).2

/-- `p.crossSections.Pairwise fun x y => ¬(x.field = y.field ∧ x.category = y.category)`: no two
cross sections are of one field and one category. -/
theorem pairwise_crossSections (p : Panel α) :
    p.crossSections.Pairwise fun x y => ¬(x.field = y.field ∧ x.category = y.category) := by
  rw [crossSections, List.pairwise_flatMap]
  constructor
  · intro field _
    rw [List.pairwise_filterMap]
    refine (Roster.nodup_eraseDups _).imp fun hne x hx y hy heq => hne ?_
    rw [← (crossSection?_eq_some hx).2.1, ← (crossSection?_eq_some hy).2.1, heq.2]
  · refine (Roster.nodup_eraseDups _).imp fun hne x hx y hy heq => hne ?_
    obtain ⟨c, -, hx⟩ := List.mem_filterMap.1 hx
    obtain ⟨c', -, hy⟩ := List.mem_filterMap.1 hy
    rw [← (crossSection?_eq_some hx).1, ← (crossSection?_eq_some hy).1, heq.1]

/-- **No two figures have one key and one field**:
`((p.drawn r).map fun d => (d.key, d.source.field)).Nodup`. -/
theorem nodup_drawn (p : Panel α) (r : Reducer) :
    ((p.drawn r).map fun d => (d.key, d.source.field)).Nodup := by
  rw [List.Nodup, List.pairwise_map, drawn, List.pairwise_flatMap]
  -- the figures of one cross section have different keys, and of two sections with one field the
  -- categories differ, which keys tell apart
  constructor
  · intro x _
    rw [List.pairwise_map]
    have hkeys := r.nodup_keys x.category
    rw [← Reducer.map_fst_figures (α := α), List.Nodup, List.pairwise_map] at hkeys
    exact hkeys.imp fun hne heq => hne (Prod.mk.inj heq).1
  · refine p.pairwise_crossSections.imp fun hne d hd d' hd' heq => hne ?_
    obtain ⟨f, hf, rfl⟩ := List.mem_map.1 hd
    obtain ⟨f', hf', rfl⟩ := List.mem_map.1 hd'
    have hkey : f'.1 = f.1 := (congrArg Prod.fst heq).symm
    have hmem := Reducer.mem_keys_of_mem_figures hf'
    rw [hkey] at hmem
    exact ⟨congrArg Prod.snd heq,
      Reducer.category_eq_of_mem_keys (Reducer.mem_keys_of_mem_figures hf) hmem⟩

/-- `d.series.label = d.source.field`: the label of a figure is that of its field. -/
theorem label_series {d : Drawn α} (hd : d ∈ p.drawn r) : d.series.label = d.source.field :=
  label_crossSection? (mem_crossSections_iff.1 (mem_drawn.1 hd).1)

/-- **A panel of figures is what a roster gathers** of them by their keys:
`(p.aggregate r).entities = (Roster.gather .key ((p.drawn r).map Drawn.addition)).entities`. -/
theorem entities_aggregate (hr : r.keepsEntities = false) (p : Panel α) :
    (p.aggregate r).entities =
      (Roster.gather .key ((p.drawn r).map Drawn.addition)).entities := by
  have hreduced : (p.crossSections.flatMap fun x => x.reduce r) =
      (p.drawn r).map fun d => d.source.figureEntity d.key d.figure := by
    rw [drawn, List.map_flatMap]
    simp only [CrossSection.reduce, List.map_map, Function.comp_def]
  rw [aggregate]
  dsimp only
  rw [hr, if_neg Bool.false_ne_true, Roster.addAll, hreduced, List.foldl_map, Roster.gather,
    List.foldl_map]
  rfl

omit [Scalar α] in
/-- `d.addition.Proper`: what a figure adds may be added, it is one field. -/
theorem proper_addition (d : Drawn α) : d.addition.Proper where
  weight := Nat.zero_le 1
  increasing := nofun
  labels := List.nodup_singleton _

omit [Scalar α] in
/-- `Roster.addedFields (ds.map Drawn.addition) = ds.map fun d => (d.series, none)`: the fields that
figures add are their series. -/
theorem addedFields_map_addition (ds : List (Drawn α)) :
    Roster.addedFields (ds.map Drawn.addition) = ds.map fun d => (d.series, none) := by
  rw [Roster.addedFields, List.flatMap_map]
  exact List.map_eq_flatMap.symm

/-- The series of all figures of one key have different labels:
`(((p.drawn r).filter fun d => d.key == key).map fun d => d.series.label).Nodup`. -/
theorem nodup_labels_drawn (p : Panel α) (r : Reducer) (key : String) :
    (((p.drawn r).filter fun d => d.key == key).map fun d => d.series.label).Nodup := by
  have hsub : ((p.drawn r).filter fun d => d.key == key).Sublist (p.drawn r) :=
    List.filter_sublist
  have hpairs := (p.nodup_drawn r).sublist (hsub.map _)
  rw [List.Nodup, List.pairwise_map] at hpairs ⊢
  refine hpairs.imp_of_mem fun hd hd' hne heq => hne ?_
  obtain ⟨hd, hkey⟩ := List.mem_filter.1 hd
  obtain ⟨hd', hkey'⟩ := List.mem_filter.1 hd'
  rw [label_series hd, label_series hd'] at heq
  rw [beq_iff_eq.1 hkey, beq_iff_eq.1 hkey', heq]

/-- **The entity of a key** has the series of all figures of this key, as they are:
`e.series = ((p.drawn r).filter fun d => d.key == e.key).map Drawn.series`. -/
theorem series_of_mem_aggregate (hr : r.keepsEntities = false) {e : Entity α}
    (he : e ∈ (p.aggregate r).entities) :
    e.series = ((p.drawn r).filter fun d => d.key == e.key).map Drawn.series := by
  rw [entities_aggregate hr] at he
  obtain ⟨x, rfl, hgathers⟩ := (Roster.entities_gather Roster.lasting_gathers .key
    (List.forall_mem_map.2 fun d _ => proper_addition d)).2 e he
  rw [List.filter_map] at hgathers
  change x.Gathers (((p.drawn r).filter fun d => d.key == x.entity.key).map Drawn.addition)
    at hgathers
  -- the labels are different, and so each field keeps its own
  have hfields := hgathers.relabelled.eq_of_nodup (by
    rw [addedFields_map_addition, List.map_map]
    exact p.nodup_labels_drawn r x.entity.key)
  rw [addedFields_map_addition, List.map_map] at hfields
  -- and no figure is a weight
  have hweight : x.entity.weight? = none := by
    have hnone : x.entity.weight?.isSome = false := by
      rw [hgathers.weighted, List.any_map]
      exact List.any_eq_false.2 fun d _ => Bool.false_ne_true
    simpa using hnone
  rw [← x.entity.fields_eq_series hweight, hfields]
  rfl

/-- `(p.aggregate r).entities.map Entity.key = ((p.drawn r).map Drawn.key).eraseDups`: the keys of a
panel of figures are those of the figures, each once. -/
theorem keys_aggregate (hr : r.keepsEntities = false) (p : Panel α) :
    (p.aggregate r).entities.map Entity.key = ((p.drawn r).map Drawn.key).eraseDups := by
  rw [entities_aggregate hr]
  have hkeys := (Roster.entities_gather Roster.lasting_gathers .key
    (List.forall_mem_map.2 fun d (_ : d ∈ p.drawn r) => proper_addition d)).1
  rw [List.map_map] at hkeys
  exact hkeys

/-- **The series of a key with a label** are those of the figures of this key and this field:
`(p.aggregate r).labelled key label` is
`((p.drawn r).filter fun d => d.key == key && d.source.field == label).map Drawn.series`. -/
theorem labelled_aggregate (hr : r.keepsEntities = false) (p : Panel α) (key label : String) :
    (p.aggregate r).labelled key label =
      ((p.drawn r).filter fun d => d.key == key && d.source.field == label).map Drawn.series := by
  have hkeys := keys_aggregate hr p
  have hnodup : ((p.aggregate r).entities.map Entity.key).Nodup :=
    hkeys ▸ Roster.nodup_eraseDups _
  by_cases hkey : key ∈ (p.aggregate r).entities.map Entity.key
  · -- there is one entity of the key, with all its figures
    obtain ⟨e, he, rfl⟩ := List.mem_map.1 hkey
    have hone : (p.aggregate r).entities.filter (fun e' => e'.key == e.key) = [e] :=
      filter_eq_singleton hnodup.of_map he fun e' he' => beq_iff_eq.trans
        ⟨fun heq => List.inj_on_of_nodup_map hnodup he' he heq, fun heq => congrArg _ heq⟩
    have hlabel : ∀ d ∈ (p.drawn r).filter (fun d => d.key == e.key),
        (d.series.label == label) = (d.source.field == label) :=
      fun d hd => by rw [label_series (List.mem_of_mem_filter hd)]
    rw [labelled, hone, List.flatMap_singleton, series_of_mem_aggregate hr he, List.filter_map]
    refine congrArg (List.map Drawn.series) ?_
    rw [List.filter_congr (p := (fun s => s.label == label) ∘ Drawn.series) hlabel,
      List.filter_filter]
    exact List.filter_congr fun d _ => Bool.and_comm _ _
  · -- there is none, and no figure of the key
    have hentities : (p.aggregate r).entities.filter (fun e => e.key == key) = [] :=
      List.filter_eq_nil_iff.2 fun e he heq => hkey (List.mem_map.2 ⟨e, he, beq_iff_eq.1 heq⟩)
    have hdrawn : (p.drawn r).filter (fun d => d.key == key && d.source.field == label) = [] := by
      refine List.filter_eq_nil_iff.2 fun d hd htest => hkey ?_
      rw [hkeys, List.mem_eraseDups, ← beq_iff_eq.1 (Bool.and_eq_true_iff.1 htest).1]
      exact List.mem_map_of_mem hd
    rw [labelled, hentities, hdrawn]
    rfl

/-- `(p.aggregate r).labelled d.key d.source.field = [d.series]`: so each figure is the only series
of its key and its field. -/
theorem labelled_aggregate_of_mem (hr : r.keepsEntities = false) {d : Drawn α}
    (hd : d ∈ p.drawn r) : (p.aggregate r).labelled d.key d.source.field = [d.series] := by
  have hnodup := p.nodup_drawn r
  rw [labelled_aggregate hr, filter_eq_singleton hnodup.of_map hd fun d' hd' => ?_]
  · rfl
  · rw [Bool.and_eq_true, beq_iff_eq, beq_iff_eq]
    exact ⟨fun heq => List.inj_on_of_nodup_map hnodup hd' hd (Prod.ext heq.1 heq.2),
      fun heq => by rw [heq]; exact ⟨rfl, rfl⟩⟩

/-- `(p.aggregate r).labelled key label = []`: and where there is no figure, there is no series. -/
theorem labelled_aggregate_eq_nil (hr : r.keepsEntities = false) {key label : String}
    (h : ∀ d ∈ p.drawn r, d.key = key → d.source.field ≠ label) :
    (p.aggregate r).labelled key label = [] := by
  rw [labelled_aggregate hr, List.map_eq_nil_iff, List.filter_eq_nil_iff]
  intro d hd htest
  obtain ⟨hkey, hlabel⟩ := Bool.and_eq_true_iff.1 htest
  exact h d hd (beq_iff_eq.1 hkey) (beq_iff_eq.1 hlabel)

/-- The dates of a cross section of a panel are in order:
`x.byDate.Pairwise fun day day' => day.time < day'.time`. -/
theorem pairwise_byDate {x : CrossSection α} (hx : x ∈ p.crossSections) :
    x.byDate.Pairwise fun day day' => day.time < day'.time := by
  rw [byDate_crossSection? (mem_crossSections_iff.1 hx), List.pairwise_map]
  exact p.sectionSchedule_pairwise x.field x.category

/-- `d.series.points = d.points`: the points of a figure are in order, and so its series has them
all. -/
theorem points_series {d : Drawn α} (hd : d ∈ p.drawn r) : d.series.points = d.points := by
  refine Points.ofWrites_of_increasing (List.Pairwise.filterMap _ (fun day day' hlt => ?_)
    (pairwise_byDate (mem_drawn.1 hd).1))
  intro q hq q' hq'
  rw [(Drawn.point?_eq_some hq).1, (Drawn.point?_eq_some hq').1]
  exact hlt

end Panel

/-- `(∃ n, x.rowsFor n t ≠ []) ↔ ∃ day ∈ x.byDate, day.time = t ∧ day.rows ≠ []`: an entity has rows
of a date just when there are rows of this date. -/
theorem CrossSection.exists_rowsFor_iff {α : Type} {x : CrossSection α} {t : Instant} :
    (∃ n, x.rowsFor n t ≠ []) ↔ ∃ day ∈ x.byDate, day.time = t ∧ day.rows ≠ [] := by
  constructor
  · rintro ⟨n, h⟩
    obtain ⟨day, hday, ht, row, hrow, -⟩ := rowsFor_ne_nil_iff.1 h
    exact ⟨day, hday, ht, List.ne_nil_of_mem hrow⟩
  · rintro ⟨day, hday, ht, h⟩
    obtain ⟨row, hrow⟩ := List.exists_mem_of_ne_nil _ h
    exact ⟨row.entity, rowsFor_ne_nil_iff.2 ⟨day, hday, ht, row, hrow, rfl⟩⟩

/-! ## (5) Figures of exact numbers -/

namespace Drawn

variable {p q : Panel Rat} {r : Reducer} {d : Drawn Rat}

/-- **There is a point on each date with rows**, and on no other:
`t ∈ d.points.times ↔ ∃ n, d.source.rowsFor n t ≠ []`. -/
theorem mem_times_points (hfigure : (d.key, d.figure) ∈ r.figures d.source.category) (t : Instant) :
    t ∈ d.points.times ↔ ∃ n, d.source.rowsFor n t ≠ [] := by
  rw [CrossSection.exists_rowsFor_iff, Points.times, List.mem_map]
  constructor
  · rintro ⟨q, hq, rfl⟩
    obtain ⟨day, hday, hpoint⟩ := List.mem_filterMap.1 hq
    obtain ⟨htime, hrows⟩ := point?_eq_some hpoint
    exact ⟨day, hday, htime.symm, hrows⟩
  · rintro ⟨day, hday, rfl, hrows⟩
    obtain ⟨v, hv⟩ := Option.isSome_iff_exists.1 (Reducer.isSome_figure hfigure hrows)
    refine ⟨⟨day.time, v⟩, List.mem_filterMap.2 ⟨day, hday, ?_⟩, rfl⟩
    rw [point?, if_neg fun hempty => hrows (List.isEmpty_iff.1 hempty)]
    exact Option.map_eq_some_iff.2 ⟨v, hv, rfl⟩

/-- `({ d with source := y } : Drawn Rat).points = d.points`: figures of cross sections that are
alike, date by date, have the same points. -/
theorem points_eq_of_alike (hfigure : (d.key, d.figure) ∈ r.figures d.source.category)
    {y : CrossSection Rat}
    (h : List.Forall₂ (fun day day' => day.time = day'.time ∧ day.Alike day') d.source.byDate
      y.byDate) : ({ d with source := y } : Drawn Rat).points = d.points := by
  have hpoint : ∀ day day' : DateRows Rat, day.time = day'.time ∧ day.Alike day' →
      d.point? day = d.point? day' := by
    rintro day day' ⟨htime, halike⟩
    have hvalue : d.figure day = d.figure day' := Reducer.figure_eq_of_alike hfigure halike
    rw [point?, point?, hvalue, halike.isEmpty_eq, htime]
  change y.byDate.filterMap d.point? = d.source.byDate.filterMap d.point?
  generalize d.source.byDate = days, y.byDate = days' at h
  induction h with
  | nil => rfl
  | cons hday _ ih => rw [List.filterMap_cons, List.filterMap_cons, ih, hpoint _ _ hday]

/-- **Each figure of a panel is one of the reordered panel**: for some `d' ∈ q.drawn r`,
`d'.key = d.key ∧ d'.source.field = d.source.field ∧ d'.series.points = d.series.points`. -/
theorem exists_drawn_of_perm (h : p.entities.Perm q.entities) (hd : d ∈ p.drawn r) :
    ∃ d' ∈ q.drawn r, d'.key = d.key ∧ d'.source.field = d.source.field ∧
      d'.series.points = d.series.points := by
  obtain ⟨hx, hfigure⟩ := Panel.mem_drawn.1 hd
  have hsection := Panel.mem_crossSections_iff.1 hx
  obtain ⟨e, he, hlisted⟩ := Panel.exists_crossSection?_iff.1 ⟨_, hsection⟩
  -- the other panel has a section of this field and category, if with another header
  obtain ⟨y, hy⟩ := Panel.exists_crossSection?_iff.2 ⟨e, h.mem_iff.1 he, hlisted⟩
  obtain ⟨hfield, hcategory, -⟩ := Panel.crossSection?_eq_some hy
  have hd' : ({ d with source := y } : Drawn Rat) ∈ q.drawn r := by
    refine Panel.mem_drawn.2 ⟨Panel.mem_crossSections_iff.2 ?_, ?_⟩
    · rw [hfield, hcategory]
      exact hy
    · rw [hcategory]
      exact hfigure
  refine ⟨_, hd', rfl, hfield, ?_⟩
  rw [Panel.points_series hd', Panel.points_series hd]
  exact points_eq_of_alike hfigure (Panel.alike_crossSection? h hsection hy)

end Drawn

/-- A panel of the figures of another one. -/
structure Panel.Tabulates (out p : Panel Rat) (r : Reducer) : Prop where
  /-- No two entities have one key. -/
  nodup : (out.entities.map Entity.key).Nodup
  /-- The keys are those of the categories of cross sections. -/
  keys : ∀ key, key ∈ out.entities.map Entity.key ↔
    ∃ x ∈ p.crossSections, key ∈ r.keys x.category
  /-- There is one series for each key and each field, with a point on each date on which there are
  rows, and on no other. -/
  series : ∀ x ∈ p.crossSections, ∀ key ∈ r.keys x.category, ∃ s,
    out.labelled key x.field = [s] ∧ ∀ t, t ∈ s.points.times ↔ ∃ n, x.rowsFor n t ≠ []
  /-- There is no other series. -/
  nothing : ∀ key label, (∀ x ∈ p.crossSections, key ∈ r.keys x.category → x.field ≠ label) →
    out.labelled key label = []

/-- Two panels with the same keys, and for each key and each label one series with the same points
or none. -/
structure Panel.SameSeries (a b : Panel Rat) : Prop where
  keys : ∀ key, key ∈ a.entities.map Entity.key ↔ key ∈ b.entities.map Entity.key
  series : ∀ key label, (a.labelled key label = [] ∧ b.labelled key label = []) ∨
    ∃ s s', a.labelled key label = [s] ∧ b.labelled key label = [s'] ∧ s.points = s'.points

namespace Panel

variable {p q : Panel Rat} {r : Reducer}

/-- A key of a category is that of a figure: `∃ d ∈ p.drawn r, d.source = x ∧ d.key = key`. -/
theorem exists_drawn {x : CrossSection Rat} (hx : x ∈ p.crossSections) {key : String}
    (hkey : key ∈ r.keys x.category) : ∃ d ∈ p.drawn r, d.source = x ∧ d.key = key := by
  rw [← Reducer.map_fst_figures (α := Rat)] at hkey
  obtain ⟨f, hf, rfl⟩ := List.mem_map.1 hkey
  exact ⟨⟨x, f.1, f.2⟩, mem_drawn.2 ⟨hx, hf⟩, rfl, rfl⟩

/-- **A panel of figures** has them all, and nothing else: `(p.aggregate r).Tabulates p r`. -/
theorem tabulates_aggregate (hr : r.keepsEntities = false) (p : Panel Rat) :
    (p.aggregate r).Tabulates p r where
  nodup := keys_aggregate hr p ▸ Roster.nodup_eraseDups _
  keys key := by
    rw [keys_aggregate hr, List.mem_eraseDups, List.mem_map]
    constructor
    · rintro ⟨d, hd, rfl⟩
      exact ⟨d.source, (mem_drawn.1 hd).1, key_mem_keys hd⟩
    · rintro ⟨x, hx, hkey⟩
      obtain ⟨d, hd, -, hdkey⟩ := exists_drawn hx hkey
      exact ⟨d, hd, hdkey⟩
  series x hx key hkey := by
    obtain ⟨d, hd, rfl, rfl⟩ := exists_drawn hx hkey
    refine ⟨d.series, labelled_aggregate_of_mem hr hd, fun t => ?_⟩
    rw [points_series hd]
    exact Drawn.mem_times_points (mem_drawn.1 hd).2 t
  nothing _ _ h := labelled_aggregate_eq_nil hr fun d hd hkey =>
    h d.source (mem_drawn.1 hd).1 (hkey ▸ key_mem_keys hd)

/-- **Figures do not depend on the order of entities**:
`(p.aggregate r).Tabulates p r ∧ (p.aggregate r).SameSeries (q.aggregate r)`. -/
theorem aggregate_perm (h : p.entities.Perm q.entities) (hr : r.keepsEntities = false) :
    (p.aggregate r).Tabulates p r ∧ (p.aggregate r).SameSeries (q.aggregate r) := by
  refine ⟨tabulates_aggregate hr p, fun key => ?_, fun key label => ?_⟩
  · have hsub : ∀ {p q : Panel Rat}, p.entities.Perm q.entities →
        key ∈ (p.drawn r).map Drawn.key → key ∈ (q.drawn r).map Drawn.key := by
      rintro p q h hkey
      obtain ⟨d, hd, rfl⟩ := List.mem_map.1 hkey
      obtain ⟨d', hd', hkey', -⟩ := Drawn.exists_drawn_of_perm h hd
      exact List.mem_map.2 ⟨d', hd', hkey'⟩
    rw [keys_aggregate hr, keys_aggregate hr, List.mem_eraseDups, List.mem_eraseDups]
    exact ⟨hsub h, hsub h.symm⟩
  · -- there is a figure of this key and label in both panels, or in neither
    by_cases hd : ∃ d ∈ p.drawn r, d.key = key ∧ d.source.field = label
    · obtain ⟨d, hd, rfl, rfl⟩ := hd
      obtain ⟨d', hd', hkey, hfield, hpoints⟩ := Drawn.exists_drawn_of_perm h hd
      have hsame := labelled_aggregate_of_mem hr hd'
      rw [hkey, hfield] at hsame
      exact .inr ⟨_, _, labelled_aggregate_of_mem hr hd, hsame, hpoints.symm⟩
    · have hnone : ∀ {q : Panel Rat}, p.entities.Perm q.entities →
          (q.aggregate r).labelled key label = [] := by
        refine fun h => labelled_aggregate_eq_nil hr fun d' hd' hkey' hlabel' => hd ?_
        obtain ⟨d, hmem, hkey, hfield, -⟩ := Drawn.exists_drawn_of_perm h.symm hd'
        exact ⟨d, hmem, hkey.trans hkey', hfield.trans hlabel'⟩
      exact .inl ⟨hnone (.refl _), hnone h⟩

end Panel

/-- Two entities with their fields in different orders, of which one changes its category. -/
def Panel.shuffled : Panel Rat :=
  { entities := [{
      identity := ⟨"A", "a", false⟩
      series := [⟨.labelled "Price", [⟨0, 1⟩, ⟨1, 2⟩], false⟩,
        ⟨.labelled "Yield", [⟨0, 3⟩], false⟩]
      category := .ofWrites [(1, "Growth")] }, {
      identity := ⟨"B", "b", false⟩
      series := [⟨.labelled "Yield", [⟨1, 5⟩], false⟩, ⟨.labelled "Price", [⟨0, 4⟩], false⟩] }] }

/-- Their median price, in either order. -/
theorem Panel.aggregate_perm_shuffled :
    let reversed : Panel Rat := { Panel.shuffled with entities := Panel.shuffled.entities.reverse }
    Panel.shuffled.entities.Perm reversed.entities ∧ Reducer.median.keepsEntities = false ∧
      ∃ s s', (Panel.shuffled.aggregate .median).labelled "All" "Price" = [s] ∧
        (reversed.aggregate .median).labelled "All" "Price" = [s'] ∧ s.points = s'.points := by
  intro reversed
  have hperm : Panel.shuffled.entities.Perm reversed.entities :=
    (List.reverse_perm Panel.shuffled.entities).symm
  have hkeeps : Reducer.median.keepsEntities = false := rfl
  obtain ⟨htabulates, hsame⟩ := Panel.aggregate_perm hperm hkeeps
  refine ⟨hperm, rfl, (hsame.series "All" "Price").resolve_left fun hnone => ?_⟩
  -- there is a cross section of prices, since the second entity is in no category
  have hlisted : ∃ x, Panel.shuffled.crossSection? "Price" "All" = some x :=
    Panel.exists_crossSection?_iff.2
      ⟨Panel.shuffled.entities[1], List.getElem_mem (by decide), by decide, _, rfl⟩
  obtain ⟨x, hx⟩ := hlisted
  obtain ⟨hfield, hcategory, -⟩ := Panel.crossSection?_eq_some hx
  have hmem : x ∈ Panel.shuffled.crossSections :=
    Panel.mem_crossSections_iff.2 (by rw [hfield, hcategory]; exact hx)
  obtain ⟨s, hs, -⟩ := htabulates.series x hmem "All" (by rw [hcategory]; decide)
  rw [hfield, hnone.1] at hs
  cases hs

end PanelQuery
