import PanelQuery.Aggregation.CrossSection
import PanelQuery.Proofs.Category
import PanelQuery.Proofs.Panel.Span
import PanelQuery.Proofs.Resampling

/-! # Cross sections divide the observations

The cross sections of one field, one for each category, share the observations among them.

* **`Entity.isEverIn_categoryAt`** — an entity is listed in each category in which it has data;
* **`Panel.rowsFor_crossSection?`** — what a cross section has of one entity on one date;
* **`Panel.sections_disjoint`** — no observation is in two of them;
* **`Panel.rowsFor_categoryAt`** — an observation of a level is in the one of its category;
* **`Panel.weight_ne_zero_of_mem_rows`** — no row has weight zero;
* **`Panel.Divided`, `Panel.divided_crossSections`** — the sections of a field divide the
  observations of a panel of data. -/

namespace PanelQuery

/-! ## (1) Categories of entities -/

namespace Entity

variable {α : Type} {e : Entity α}

/-- A field is one of the series: `s ∈ e.series`. -/
theorem mem_series_of_field? {label : String} {s : Series α} (h : e.field? label = some s) :
    s ∈ e.series :=
  List.mem_of_mem_filter (List.mem_of_find?_eq_some h)

/-- The span of an entity begins no later than any observation:
`∃ first last, e.span? = some (first, last) ∧ first ≤ p.time`. -/
theorem exists_span? (he : ∀ s ∈ e.series, s.Increasing) {s : Series α} (hs : s ∈ e.series)
    {p : Point α} (hp : p ∈ s.points) :
    ∃ first last, e.span? = some (first, last) ∧ first ≤ p.time := by
  obtain ⟨first, last, hspan⟩ := span?_isSome hs hp
  exact ⟨first, last, hspan, ((isSpan he hspan).bounds s hs p hp).1⟩

/-- `e.hasDefaultTimes = true`: an entity that has data before its first category has times in the
default one. -/
theorem hasDefaultTimes_of_lt (he : ∀ s ∈ e.series, s.Increasing) {s : Series α}
    (hs : s ∈ e.series) {p : Point α} (hp : p ∈ s.points)
    (hbefore : ∀ q ∈ e.category.points, p.time < q.time) : e.hasDefaultTimes = true := by
  obtain ⟨first, last, hspan, hfirst⟩ := exists_span? he hs hp
  unfold hasDefaultTimes
  rw [hspan]
  cases hpoints : e.category.points with
  | nil => rfl
  | cons q rest =>
    have hq := hbefore q (hpoints ▸ List.mem_cons_self)
    exact decide_eq_true (Int.lt_of_le_of_lt hfirst hq)

/-- **An entity is listed in each category in which it has data**:
`e.isEverIn (e.categoryAt p.time) = true`. -/
theorem isEverIn_categoryAt (he : ∀ s ∈ e.series, s.Increasing) (hcategory : e.category.WellFormed)
    {s : Series α} (hs : s ∈ e.series) {p : Point α} (hp : p ∈ s.points) :
    e.isEverIn (e.categoryAt p.time) = true := by
  unfold isEverIn categoryAt
  cases hlabel : e.category.labelAt? p.time with
  | some label =>
    have hmem := Category.mem_labels_of_labelAt? hlabel
    simp [hmem]
  | none =>
    have hdefault := hasDefaultTimes_of_lt he hs hp (hcategory.labelAt?_eq_none_iff.1 hlabel)
    simp [hdefault]

/-- `e.categoryAt t = defaultCategory`: before the first category comes the default one. -/
theorem categoryAt_of_lt (hcategory : e.category.WellFormed) {t : Instant}
    (hbefore : ∀ q ∈ e.category.points, t < q.time) : e.categoryAt t = defaultCategory := by
  rw [categoryAt, hcategory.labelAt?_eq_none_iff.2 hbefore, Option.getD_none]

end Entity

/-- **The categories of a panel** are those in which it lists an entity:
`category ∈ p.categoryLabels ↔ ∃ e ∈ p.entities, e.isEverIn category = true`. -/
theorem Panel.mem_categoryLabels {α : Type} {p : Panel α} {category : String} :
    category ∈ p.categoryLabels ↔ ∃ e ∈ p.entities, e.isEverIn category = true := by
  rw [categoryLabels, List.mem_eraseDups, List.mem_flatMap]
  refine exists_congr fun e => and_congr_right fun _ => ?_
  unfold Entity.isEverIn
  by_cases hdefault : e.hasDefaultTimes = true <;> simp [hdefault, or_comm]

/-! ## (2) Rows -/

/-- Of what is made of the elements of a list with their places, that which keeps place `n` is made
of the element at that place. -/
theorem filter_filterMap_zipIdx {β γ : Type} {f : β × Nat → Option γ} {place : γ → Nat}
    (hf : ∀ b c, f b = some c → place c = b.2) (bs : List β) (k n : Nat) :
    ((bs.zipIdx k).filterMap f).filter (fun c => place c == k + n) =
      (bs[n]?.bind fun b => f (b, k + n)).toList := by
  induction bs generalizing k n with
  | nil => rfl
  | cons b bs ih =>
    have hlater : ((bs.zipIdx (k + 1)).filterMap f).filter (fun c => place c == k) = [] := by
      refine List.filter_eq_nil_iff.2 fun c hc hplace => ?_
      obtain ⟨b', hb', hc⟩ := List.mem_filterMap.1 hc
      have hle := List.le_snd_of_mem_zipIdx hb'
      rw [← hf b' c hc, beq_iff_eq.1 hplace] at hle
      exact absurd hle (Nat.not_succ_le_self k)
    rw [List.zipIdx_cons]
    cases hb : f (b, k) with
    | none =>
      rw [List.filterMap_cons_none hb]
      cases n with
      | zero => rw [Nat.add_zero, List.getElem?_cons_zero, Option.bind_some, hb, hlater]; rfl
      | succ n => rw [List.getElem?_cons_succ, ← Nat.succ_add_eq_add_succ, ← ih]
    | some c =>
      rw [List.filterMap_cons_some hb]
      cases n with
      | zero =>
        rw [Nat.add_zero, List.getElem?_cons_zero, Option.bind_some, hb,
          List.filter_cons_of_pos (by exact beq_iff_eq.2 (hf _ c hb)), hlater]
        rfl
      | succ n =>
        rw [List.getElem?_cons_succ, ← Nat.succ_add_eq_add_succ, ← ih, List.filter_cons_of_neg]
        rw [hf _ c hb, beq_iff_eq]
        omega

section Rows

variable {α : Type}

/-- A panel of data: series in order, and categories that were written label by label. -/
structure Panel.Recorded (p : Panel α) : Prop where
  series : ∀ e ∈ p.entities, ∀ s ∈ e.series, s.Increasing
  category : ∀ e ∈ p.entities, ∃ writes, e.category = .ofWrites writes

/-- `CrossSection.rowsFor x n t`: the rows of an entity, by its place in the panel, on a date of a
cross section. -/
def CrossSection.rowsFor (x : CrossSection α) (n : Nat) (t : Instant) : List (Row α) :=
  (x.byDate.filter fun day => day.time == t).flatMap fun day =>
    day.rows.filter fun r => r.entity == n

/-- `r ∈ x.rowsFor k t ↔ ∃ d ∈ x.byDate, d.time = t ∧ r ∈ d.rows ∧ r.entity = k`: the rows of an
entity on a date are those of the date that are of it. -/
theorem CrossSection.mem_rowsFor {x : CrossSection α} {k : Nat} {t : Instant} {r : Row α} :
    r ∈ x.rowsFor k t ↔ ∃ d ∈ x.byDate, d.time = t ∧ r ∈ d.rows ∧ r.entity = k := by
  simp only [rowsFor, List.mem_flatMap, List.mem_filter, beq_iff_eq, and_assoc]

/-- `x.rowsFor k t ≠ [] ↔ ∃ d ∈ x.byDate, d.time = t ∧ ∃ r ∈ d.rows, r.entity = k`: an entity has
rows of a date when one of the rows of the date is of it. -/
theorem CrossSection.rowsFor_ne_nil_iff {x : CrossSection α} {k : Nat} {t : Instant} :
    x.rowsFor k t ≠ [] ↔ ∃ d ∈ x.byDate, d.time = t ∧ ∃ r ∈ d.rows, r.entity = k := by
  constructor
  · intro hne
    obtain ⟨r, hr⟩ := List.exists_mem_of_ne_nil _ hne
    obtain ⟨d, hd, ht, hr, hk⟩ := mem_rowsFor.1 hr
    exact ⟨d, hd, ht, r, hr, hk⟩
  · rintro ⟨d, hd, ht, r, hr, hk⟩
    exact List.ne_nil_of_mem (mem_rowsFor.2 ⟨d, hd, ht, hr, hk⟩)

/-- The dates of a cross section: all those of its candidates. -/
def Panel.sectionSchedule (p : Panel α) (field category : String) : Schedule :=
  .ofDates ((p.candidates field category).flatMap fun c => c.2.2.points.times) false false

/-- The dates of a cross section are in order:
`(p.sectionSchedule field category).dates.Pairwise (· < ·)`. -/
theorem Panel.sectionSchedule_pairwise (p : Panel α) (field category : String) :
    (p.sectionSchedule field category).dates.Pairwise (· < ·) :=
  distinctSorted_pairwise _

/-- An entity that is listed in a category and has the field is a candidate:
`(n, e, s) ∈ p.candidates field category`. -/
theorem Panel.mem_candidates {p : Panel α} {field category : String} {n : Nat} {e : Entity α}
    {s : Series α} (he : p.entities[n]? = some e) (hlisted : e.isEverIn category = true)
    (hs : e.field? field = some s) : (n, e, s) ∈ p.candidates field category := by
  refine List.mem_filterMap.2 ⟨(e, n), List.mem_zipIdx_iff_getElem?.2 he, ?_⟩
  dsimp only
  rw [if_pos hlisted, hs, Option.map_some]

/-- A candidate is an entity that is listed in the category and has the field:
`(n, e, s) ∈ p.candidates field category` just when
`p.entities[n]? = some e ∧ e.isEverIn category = true ∧ e.field? field = some s`. -/
theorem Panel.mem_candidates_iff {p : Panel α} {field category : String} {n : Nat} {e : Entity α}
    {s : Series α} :
    (n, e, s) ∈ p.candidates field category ↔
      p.entities[n]? = some e ∧ e.isEverIn category = true ∧ e.field? field = some s := by
  constructor
  · intro h
    obtain ⟨⟨e', n'⟩, hmem, hc⟩ := List.mem_filterMap.1 h
    dsimp only at hc
    rw [Option.ite_none_right_eq_some, Option.map_eq_some_iff] at hc
    obtain ⟨hlisted, s', hs', heq⟩ := hc
    cases heq
    exact ⟨List.mem_zipIdx_iff_getElem?.1 hmem, hlisted, hs'⟩
  · exact fun ⟨he, hlisted, hs⟩ => mem_candidates he hlisted hs

/-- The dates of a candidate are dates of the cross section:
`q.time ∈ (p.sectionSchedule field category).dates`. -/
theorem Panel.mem_sectionSchedule {p : Panel α} {field category : String}
    {c : Nat × Entity α × Series α} (hc : c ∈ p.candidates field category) {q : Point α}
    (hq : q ∈ c.2.2.points) : q.time ∈ (p.sectionSchedule field category).dates :=
  mem_distinctSorted.2 (List.mem_flatMap.2 ⟨c, hc, List.mem_map_of_mem hq⟩)

variable [Scalar α]

/-- `Member.row? m t`: the row of a member on a date on which it has a value. -/
def Member.row? (m : Member α) (t : Instant) : Option (Row α) :=
  (m.field.points.valueAt? t).map fun v =>
    ⟨m.entity, ⟨t, v⟩, (m.weight.bind fun w => w.points.valueAt? t).getD 1⟩

/-- `Schedule.member schedule n e s`: an entity with a field as a member of a cross section. -/
def Schedule.member (schedule : Schedule) (n : Nat) (e : Entity α) (s : Series α) : Member α :=
  ⟨n, schedule.applySeries s e.weight?, e.weight?.map fun w => schedule.applySeries w none⟩

/-- `Entity.row? e field category schedule t n`: the row of an entity in a cross section, on a date
on which it is in the category. -/
def Entity.row? (e : Entity α) (field category : String) (schedule : Schedule) (t : Instant)
    (n : Nat) : Option (Row α) :=
  if e.isEverIn category = true ∧ e.categoryAt t = category then
    (e.field? field).bind fun s => (schedule.member n e s).row? t
  else none

/-- An entity has a row where it is in the category and its field has a value:
`e.row? field category schedule t n = some r` just when `e.isEverIn category = true`,
`e.categoryAt t = category` and
`∃ s, e.field? field = some s ∧ (schedule.member n e s).row? t = some r`. -/
theorem Entity.row?_eq_some_iff {e : Entity α} {field category : String} {schedule : Schedule}
    {t : Instant} {n : Nat} {r : Row α} : e.row? field category schedule t n = some r ↔
      e.isEverIn category = true ∧ e.categoryAt t = category ∧
        ∃ s, e.field? field = some s ∧ (schedule.member n e s).row? t = some r := by
  unfold row?
  by_cases h : e.isEverIn category = true ∧ e.categoryAt t = category
  · rw [if_pos h, Option.bind_eq_some_iff]
    exact ⟨fun hs => ⟨h.1, h.2, hs⟩, fun hs => hs.2.2⟩
  · rw [if_neg h]
    exact ⟨nofun, fun hs => absurd ⟨hs.1, hs.2.1⟩ h⟩

/-- `r.entity = n`: a row keeps the place of its entity. -/
theorem Entity.entity_of_row? {e : Entity α} {field category : String} {schedule : Schedule}
    {t : Instant} {n : Nat} {r : Row α} (h : e.row? field category schedule t n = some r) :
    r.entity = n := by
  obtain ⟨-, -, s, -, hr⟩ := row?_eq_some_iff.1 h
  obtain ⟨v, -, rfl⟩ := Option.map_eq_some_iff.1 hr
  rfl

/-- **A level has a row of its own value** on each of its dates, with weight one if the entity has
no weight: `(schedule.member n e s).row? q.time = some ⟨n, q, 1⟩`. -/
theorem Schedule.row?_member {schedule : Schedule} (hdates : schedule.dates.Pairwise (· < ·))
    {e : Entity α} (hweight : e.weight? = none) {s : Series α} (hs : s.Increasing)
    (hlast : s.header.downsample = .lastValue) {q : Point α} (hq : q ∈ s.points)
    (hd : q.time ∈ schedule.dates) (n : Nat) :
    (schedule.member n e s).row? q.time = some ⟨n, q, 1⟩ := by
  have hvalue : (schedule.applySeries s none).points.valueAt? q.time = some q.value :=
    (valueAt?_applySeries_iff hdates).2 (mem_resampleFrom hlast hdates hs hq hd)
  rw [Member.row?, member, hweight, hvalue]
  rfl

/-- **No row has weight zero**, since dates on which a weight is zero are left out:
`(r.weight == 0) = false`. -/
theorem Schedule.weight_of_row?_member (hone : ((1 : α) == 0) = false) {schedule : Schedule}
    (hdates : schedule.dates.Pairwise (· < ·)) {e : Entity α} {s : Series α} {n : Nat} {t : Instant}
    {r : Row α} (hr : (schedule.member n e s).row? t = some r) : (r.weight == 0) = false := by
  obtain ⟨v, hv, rfl⟩ := Option.map_eq_some_iff.1 hr
  unfold member at hv ⊢
  cases hw : e.weight? with
  | none => exact hone
  | some w =>
    rw [hw] at hv
    have hmem := (valueAt?_applySeries_iff hdates).1 hv
    rw [Option.map_some, Option.bind_some]
    cases hx : (schedule.applySeries w none).points.valueAt? t with
    | none => exact hone
    | some x =>
      rw [points_applySeries hdates] at hx
      exact ne_zero_of_mem_apply hmem hx

namespace Panel

variable {p : Panel α} {field category : String} {x : CrossSection α}

/-- The row that a member has on a date on which its entity is in the category: `p.rowsOn category
members t = members.filterMap fun m => p.entities[m.entity]?.bind fun e => if e.categoryAt t =
category then m.row? t else none`. -/
theorem rowsOn_eq (p : Panel α) (category : String) (members : List (Member α)) (t : Instant) :
    p.rowsOn category members t = members.filterMap fun m =>
      p.entities[m.entity]?.bind fun e => if e.categoryAt t = category then m.row? t else none := by
  rw [rowsOn]
  refine List.filterMap_congr fun m _ => ?_
  cases he : p.entities[m.entity]? with
  | none => rfl
  | some e =>
    by_cases hcategory : e.categoryAt t = category
    · rw [Option.bind_some, if_pos hcategory, Member.row?]
      cases hv : m.field.points.valueAt? t <;> simp [hcategory]
    · simp [hcategory, failure]

/-- The rows that a date has of the candidates are those of the entities. -/
theorem rowsOn_candidates (p : Panel α) (field category : String) (schedule : Schedule)
    (t : Instant) :
    p.rowsOn category ((p.candidates field category).map fun c =>
        schedule.member c.1 c.2.1 c.2.2) t =
      p.entities.zipIdx.filterMap fun c => c.1.row? field category schedule t c.2 := by
  rw [rowsOn_eq, candidates, List.filterMap_map, List.filterMap_filterMap]
  refine List.filterMap_congr fun ⟨e, n⟩ hmem => ?_
  have he : p.entities[n]? = some e := List.mem_zipIdx_iff_getElem?.1 hmem
  unfold Entity.row?
  by_cases hlisted : e.isEverIn category = true
  · cases hs : e.field? field <;> simp [hlisted, hs, he, Schedule.member]
  · simp [hlisted]

/-- **The rows of a cross section**, date by date and entity by entity. -/
theorem byDate_crossSection? (h : p.crossSection? field category = some x) :
    x.byDate = (p.sectionSchedule field category).dates.map fun t =>
      ⟨t, p.entities.zipIdx.filterMap fun c =>
        c.1.row? field category (p.sectionSchedule field category) t c.2⟩ := by
  simp only [← rowsOn_candidates, sectionSchedule]
  unfold crossSection? at h
  cases hcandidates : p.candidates field category with
  | nil =>
    rw [hcandidates] at h
    cases h
  | cons c rest =>
    rw [hcandidates] at h
    rw [← Option.some.inj h]
    rfl

/-- There is a cross section where there is a candidate:
`∃ x, p.crossSection? field category = some x`. -/
theorem exists_crossSection? {c : Nat × Entity α × Series α}
    (hc : c ∈ p.candidates field category) : ∃ x, p.crossSection? field category = some x := by
  unfold crossSection?
  cases hcandidates : p.candidates field category with
  | nil =>
    rw [hcandidates] at hc
    cases hc
  | cons c rest => exact ⟨_, rfl⟩

/-- A cross section of a panel is one of a field and a category:
`∃ field category, p.crossSection? field category = some x`. -/
theorem mem_crossSections (hx : x ∈ p.crossSections) :
    ∃ field category, p.crossSection? field category = some x := by
  obtain ⟨field, -, hx⟩ := List.mem_flatMap.1 hx
  obtain ⟨category, -, hx⟩ := List.mem_filterMap.1 hx
  exact ⟨field, category, hx⟩

/-- **What a cross section has of an entity on a date.** -/
theorem rowsFor_crossSection? (h : p.crossSection? field category = some x) (n : Nat)
    (t : Instant) : x.rowsFor n t =
      if t ∈ (p.sectionSchedule field category).dates then
        (p.entities[n]?.bind fun e =>
          e.row? field category (p.sectionSchedule field category) t n).toList
      else [] := by
  have hnodup : (p.sectionSchedule field category).dates.Nodup :=
    (p.sectionSchedule_pairwise field category).imp Int.ne_of_lt
  have hdays : (p.sectionSchedule field category).dates.filter (fun d => d == t) =
      if t ∈ (p.sectionSchedule field category).dates then [t] else [] := by
    rw [List.filter_beq, hnodup.count]
    split <;> rfl
  rw [CrossSection.rowsFor, byDate_crossSection? h, List.filter_map]
  change (List.map _ (List.filter (fun d => d == t) _)).flatMap _ = _
  rw [hdays]
  by_cases ht : t ∈ (p.sectionSchedule field category).dates
  · rw [if_pos ht, if_pos ht, List.map_singleton, List.flatMap_singleton]
    have hplace : ∀ (c : Entity α × Nat) (r : Row α),
        c.1.row? field category (p.sectionSchedule field category) t c.2 = some r →
          r.entity = c.2 := fun c r hr => Entity.entity_of_row? hr
    have hrows := filter_filterMap_zipIdx hplace p.entities 0 n
    rw [Nat.zero_add] at hrows
    exact hrows
  · rw [if_neg ht, if_neg ht, List.map_nil, List.flatMap_nil]

/-! ## (3) Sections that divide the observations -/

/-- A row of an entity on a date is in the section of its category on that date:
`∃ e, p.entities[n]? = some e ∧ e.categoryAt t = category`. -/
theorem categoryAt_of_rowsFor (h : p.crossSection? field category = some x) {n : Nat} {t : Instant}
    (hrows : x.rowsFor n t ≠ []) : ∃ e, p.entities[n]? = some e ∧ e.categoryAt t = category := by
  rw [rowsFor_crossSection? h] at hrows
  split at hrows
  · obtain ⟨r, hr⟩ := Option.ne_none_iff_exists'.1 (mt Option.toList_eq_nil_iff.2 hrows)
    obtain ⟨e, he, hrow⟩ := Option.bind_eq_some_iff.1 hr
    exact ⟨e, he, (Entity.row?_eq_some_iff.1 hrow).2.1⟩
  · exact absurd rfl hrows

/-- **No observation is in two sections**: `category = category'`. -/
theorem sections_disjoint {category' : String} {x' : CrossSection α}
    (h : p.crossSection? field category = some x) (h' : p.crossSection? field category' = some x')
    {n : Nat} {t : Instant} (hrows : x.rowsFor n t ≠ []) (hrows' : x'.rowsFor n t ≠ []) :
    category = category' := by
  obtain ⟨e, he, hcategory⟩ := categoryAt_of_rowsFor h hrows
  obtain ⟨e', he', hcategory'⟩ := categoryAt_of_rowsFor h' hrows'
  obtain rfl := Option.some.inj (he.symm.trans he')
  exact hcategory.symm.trans hcategory'

/-- **No row has weight zero**: `(r.weight == 0) = false`. -/
theorem weight_ne_zero_of_mem_rows (hone : ((1 : α) == 0) = false)
    (h : p.crossSection? field category = some x) {day : DateRows α} (hday : day ∈ x.byDate)
    {r : Row α} (hr : r ∈ day.rows) : (r.weight == 0) = false := by
  rw [byDate_crossSection? h] at hday
  obtain ⟨t, -, rfl⟩ := List.mem_map.1 hday
  obtain ⟨c, -, hrow⟩ := List.mem_filterMap.1 hr
  obtain ⟨-, -, s, -, hmember⟩ := Entity.row?_eq_some_iff.1 hrow
  exact Schedule.weight_of_row?_member hone (p.sectionSchedule_pairwise field category) hmember

omit [Scalar α] in
/-- The categories of data are as they should be: `e.category.WellFormed`. -/
theorem Recorded.wellFormed_category (hp : p.Recorded) {e : Entity α} (he : e ∈ p.entities) :
    e.category.WellFormed := by
  obtain ⟨writes, hwrites⟩ := hp.category e he
  exact hwrites ▸ Category.wellFormed_ofWrites writes

/-- **An observation of a level is in the section of its category**, as it is:
`e.categoryAt q.time ∈ p.categoryLabels` and
`∃ x, p.crossSection? field (e.categoryAt q.time) = some x ∧ x.rowsFor n q.time = [⟨n, q, 1⟩]`. -/
theorem rowsFor_categoryAt (hp : p.Recorded) {n : Nat} {e : Entity α} (he : p.entities[n]? = some e)
    (hweight : e.weight? = none) {s : Series α} (hs : e.field? field = some s)
    (hlast : s.header.downsample = .lastValue) {q : Point α} (hq : q ∈ s.points) :
    e.categoryAt q.time ∈ p.categoryLabels ∧
      ∃ x, p.crossSection? field (e.categoryAt q.time) = some x ∧
        x.rowsFor n q.time = [⟨n, q, 1⟩] := by
  have hmem : e ∈ p.entities := List.mem_of_getElem? he
  have hseries := Entity.mem_series_of_field? hs
  have hlisted : e.isEverIn (e.categoryAt q.time) = true :=
    Entity.isEverIn_categoryAt (hp.series e hmem) (hp.wellFormed_category hmem) hseries hq
  have hcandidate := mem_candidates he hlisted hs
  have hd := mem_sectionSchedule hcandidate hq
  obtain ⟨x, hx⟩ := exists_crossSection? hcandidate
  refine ⟨mem_categoryLabels.2 ⟨e, hmem, hlisted⟩, x, hx, ?_⟩
  have hrow : e.row? field (e.categoryAt q.time)
      (p.sectionSchedule field (e.categoryAt q.time)) q.time n = some ⟨n, q, 1⟩ :=
    Entity.row?_eq_some_iff.2 ⟨hlisted, rfl, s, hs, Schedule.row?_member
      (p.sectionSchedule_pairwise field _) hweight (hp.series e hmem s hseries) hlast hq hd n⟩
  rw [rowsFor_crossSection? hx, if_pos hd, he, Option.bind_some, hrow, Option.toList_some]

/-- The sections of a field, one for each category, divide the observations. -/
structure Divided (p : Panel α) (field : String) : Prop where
  /-- No entity has rows of one date in the sections of two categories. -/
  disjoint : ∀ category category' x x' n t, p.crossSection? field category = some x →
    p.crossSection? field category' = some x' → x.rowsFor n t ≠ [] → x'.rowsFor n t ≠ [] →
      category = category'
  /-- An entity without weight has each observation of a level just once, in the section of its
  category at that time. -/
  complete : ∀ n e s q, p.entities[n]? = some e → e.weight? = none → e.field? field = some s →
    s.header.downsample = .lastValue → q ∈ s.points →
      e.categoryAt q.time ∈ p.categoryLabels ∧
        (∃ x, p.crossSection? field (e.categoryAt q.time) = some x ∧
          x.rowsFor n q.time = [⟨n, q, 1⟩]) ∧
        ∀ category x, p.crossSection? field category = some x → category ≠ e.categoryAt q.time →
          x.rowsFor n q.time = []
  /-- Before its first category, an entity is in the default one. -/
  uncategorized : ∀ e ∈ p.entities, ∀ t, (∀ q ∈ e.category.points, t < q.time) →
    e.categoryAt t = defaultCategory
  /-- No row has weight zero. -/
  weighted : ∀ category x, p.crossSection? field category = some x → ∀ day ∈ x.byDate,
    ∀ r ∈ day.rows, (r.weight == 0) = false

end Panel

end Rows

/-! ### Floats -/

/-- **The cross sections of a field divide the observations of a panel of data**:
`p.Divided field`. -/
theorem Panel.divided_crossSections {p : Panel Float} (hp : p.Recorded) (field : String) :
    p.Divided field where
  disjoint _ _ _ _ _ _ h h' := sections_disjoint h h'
  complete n e s q he hweight hs hlast hq := by
    obtain ⟨hlabel, x, hx, hrows⟩ := rowsFor_categoryAt hp he hweight hs hlast hq
    refine ⟨hlabel, ⟨x, hx, hrows⟩, fun category x' hx' hne => ?_⟩
    by_contra hrows'
    exact hne (sections_disjoint hx' hx hrows' (hrows ▸ List.cons_ne_nil _ _))
  uncategorized e he _ := Entity.categoryAt_of_lt (hp.wellFormed_category he)
  weighted _ _ h _ hday _ hr := weight_ne_zero_of_mem_rows (by decide) h hday hr

/-- An entity that gets a category after its first observation, and another one later. -/
def Panel.recategorized : Panel Float :=
  { entities := [{
      identity := ⟨"A", "a", false⟩
      series := [⟨.labelled "Price", [⟨0, 1⟩, ⟨10, 2⟩, ⟨20, 3⟩], false⟩]
      category := .ofWrites [(10, "Growth"), (20, "Value")] }] }

/-- Its observations before the first category, between the two and after the change. -/
theorem Panel.divided_recategorized :
    (∃ x, Panel.recategorized.crossSection? "Price" "All" = some x ∧
      x.rowsFor 0 0 = [⟨0, ⟨0, 1⟩, 1⟩]) ∧
    (∃ x, Panel.recategorized.crossSection? "Price" "Growth" = some x ∧
      x.rowsFor 0 10 = [⟨0, ⟨10, 2⟩, 1⟩]) ∧
    ∃ x, Panel.recategorized.crossSection? "Price" "Value" = some x ∧
      x.rowsFor 0 20 = [⟨0, ⟨20, 3⟩, 1⟩] := by
  have hrecorded : Panel.recategorized.Recorded :=
    ⟨List.forall_mem_singleton.2 (by decide), List.forall_mem_singleton.2 ⟨_, rfl⟩⟩
  have hall := (Panel.divided_crossSections hrecorded "Price").complete 0
  exact ⟨(hall _ _ ⟨0, 1⟩ rfl rfl rfl rfl (by simp)).2.1,
    (hall _ _ ⟨10, 2⟩ rfl rfl rfl rfl (by simp)).2.1,
    (hall _ _ ⟨20, 3⟩ rfl rfl rfl rfl (by simp)).2.1⟩

end PanelQuery
