import PanelQuery.Proofs.Panel.Aggregation
import PanelQuery.Proofs.Series.FiniteMap
import PanelQuery.Proofs.SetAlgebra.Weights

/-! # Shares that are merged date by date

A reducer that keeps the entities gives each of them a share in each cross section it is in. Merged,
they overwrite each other: on every date the last share counts that has something on the date, for
the weight among all shares, and for a field among those of its label.

* **`Series.valueAt?_overwrite`** — points that overwrite others;
* **`observed?_foldl_mergeWeight`, `observed?_foldl_mergeField`** — weights and fields that are
  merged one after the other;
* **`Placement.observed?_weight?_merge`, `Placement.observed?_field?_merge`** — the merged entity;
* **`Panel.mem_placed`** — the entities that have a share. -/

namespace PanelQuery

variable {α : Type}

/-! ## (1) Points that overwrite others -/

/-- `Series.observed? s t`: what a series has at a time, if there is a series at all. -/
def Series.observed? (s : Option (Series α)) (t : Instant) : Option α :=
  s.bind fun s => s.points.valueAt? t

/-- `observed? (none : Option (Series α)) t = none`: without a series there is nothing. -/
theorem Series.observed?_none (t : Instant) : observed? (none : Option (Series α)) t = none := rfl

/-- **Points that overwrite others are found**, and where there are none, what has been there:
`(s.overwrite points).points.valueAt? t = (points.valueAt? t).or (s.points.valueAt? t)`. -/
theorem Series.valueAt?_overwrite {s : Series α} (hs : s.Increasing) {points : Points α}
    (hpoints : points.Increasing) (t : Instant) :
    (s.overwrite points).points.valueAt? t = (points.valueAt? t).or (s.points.valueAt? t) := by
  induction points generalizing s with
  | nil => rfl
  | cons p points ih =>
    obtain ⟨hp, hrest⟩ := Points.increasing_cons.1 hpoints
    have hstep : (s.overwrite (p :: points)).points.valueAt? t =
        (Points.valueAt? points t).or ((s.points.insert p).valueAt? t) := ih (hs.insert p) hrest
    rw [hstep, Points.valueAt?_insert hs]
    by_cases ht : p.time = t
    · -- the points that follow are later
      have hnone : Points.valueAt? points t = none :=
        Points.valueAt?_eq_none fun q hq hqt => Int.ne_of_lt (hp q hq) (ht.trans hqt.symm)
      rw [Points.valueAt?_cons_of_eq ht, hnone, if_pos ht, Option.none_or, Option.some_or]
    · rw [Points.valueAt?_cons_of_ne ht, if_neg ht]

/-- `(s.overwrite points).header = s.header`: points that overwrite others leave the description. -/
theorem Series.header_overwrite (s : Series α) (points : Points α) :
    (s.overwrite points).header = s.header :=
  List.foldlRecOn (motive := fun t : Series α => t.header = s.header) points _ rfl
    fun _ ht _ _ => ht

/-- What counts last among the things that are made of the elements of a list:
`(((b :: bs).filterMap f).getLast?).or c = ((bs.filterMap f).getLast?).or ((f b).or c)`. -/
theorem getLast?_filterMap_cons_or {β γ : Type} (f : β → Option γ) (b : β) (bs : List β)
    (c : Option γ) : (((b :: bs).filterMap f).getLast?).or c =
      ((bs.filterMap f).getLast?).or ((f b).or c) := by
  cases hb : f b with
  | none => rw [List.filterMap_cons_none hb, Option.none_or]
  | some v =>
    rw [List.filterMap_cons_some hb, List.getLast?_cons]
    cases (bs.filterMap f).getLast? <;> rfl

/-- `bs.getLast? = some b`: of things that are all the same, the last one is it. -/
theorem getLast?_eq_some_of_forall_eq {β : Type} {bs : List β} {b : β} (hb : b ∈ bs)
    (h : ∀ c ∈ bs, c = b) : bs.getLast? = some b := by
  obtain ⟨c, hc⟩ := Option.isSome_iff_exists.1 (List.getLast?_isSome.2 (List.ne_nil_of_mem hb))
  rw [hc, h c (List.mem_of_getLast? hc)]

/-! ## (2) Weights -/

/-- A weight that overwrites another one: `Series.observed? (mergeWeight weight other) t` is
`(Series.observed? other t).or (Series.observed? weight t)`. -/
theorem observed?_mergeWeight {weight other : Option (Series α)}
    (hweight : ∀ w, weight = some w → w.Increasing) (hother : ∀ w, other = some w → w.Increasing)
    (t : Instant) : Series.observed? (mergeWeight weight other) t =
      (Series.observed? other t).or (Series.observed? weight t) := by
  cases weight with
  | none => exact (Option.or_none).symm
  | some w =>
    cases other with
    | none => rfl
    | some v => exact Series.valueAt?_overwrite (hweight w rfl) (hother v rfl) t

/-- **Merged weights**: the last one counts that has a point on the date.
`Series.observed? (shares.foldl (fun w x => mergeWeight w x.weight) w) t` is
`((shares.filterMap fun x => Series.observed? x.weight t).getLast?).or (Series.observed? w t)`. -/
theorem observed?_foldl_mergeWeight {shares : List (Placement α)}
    (hshares : ∀ x ∈ shares, x.WellFormed) {w : Option (Series α)}
    (hw : ∀ s, w = some s → s.Increasing) (t : Instant) :
    Series.observed? (shares.foldl (fun w x => mergeWeight w x.weight) w) t =
      ((shares.filterMap fun x => Series.observed? x.weight t).getLast?).or
        (Series.observed? w t) := by
  induction shares generalizing w with
  | nil => rfl
  | cons x shares ih =>
    obtain ⟨hx, hrest⟩ := List.forall_mem_cons.1 hshares
    rw [List.foldl_cons, ih hrest (increasing_mergeWeight hw hx.weight),
      observed?_mergeWeight hw hx.weight, getLast?_filterMap_cons_or]

/-! ## (3) Fields -/

/-- `labelled? fields label`: a field with a label among some. -/
def labelled? (fields : List (Series α)) (label : String) : Option (Series α) :=
  fields.find? fun s => s.label == label

/-- `Series.observed? (labelled? ([] : List (Series α)) label) t = none`: of no fields none is
found. -/
theorem observed?_labelled?_nil (label : String) (t : Instant) :
    Series.observed? (labelled? ([] : List (Series α)) label) t = none := rfl

/-- One more field adds its points to those of its label, and leaves the others. -/
theorem observed?_mergeField {field : Series α} (hfield : field.Increasing)
    {fields : List (Series α)} (hfields : ∀ s ∈ fields, s.Increasing) (label : String)
    (t : Instant) : Series.observed? (labelled? (mergeField field fields) label) t =
      if field.label = label then
        (field.points.valueAt? t).or (Series.observed? (labelled? fields label) t)
      else Series.observed? (labelled? fields label) t := by
  have hfound : ∀ {s : Series α} {ss}, s.label = label → labelled? (s :: ss) label = some s :=
    fun h => List.find?_cons_of_pos (by exact beq_iff_eq.2 h)
  have hother : ∀ {s : Series α} {ss}, s.label ≠ label →
      labelled? (s :: ss) label = labelled? ss label :=
    fun h => List.find?_cons_of_neg (by exact fun heq => h (beq_iff_eq.1 heq))
  induction fields with
  | nil =>
    rw [mergeField]
    split
    · rename_i h
      rw [hfound h]
      exact (Option.or_none).symm
    · rename_i h
      rw [hother h]
  | cons s fields ih =>
    obtain ⟨hs, hrest⟩ := List.forall_mem_cons.1 hfields
    rw [mergeField]
    split
    · -- it overwrites the first one, which keeps its label
      rename_i hsame
      have hlabel : (s.overwrite field.points).label = s.label :=
        congrArg Header.label (s.header_overwrite field.points)
      split
      · rename_i h
        rw [hfound (hlabel.trans (hsame.trans h)), hfound (hsame.trans h)]
        exact Series.valueAt?_overwrite hs hfield t
      · rename_i h
        have hne : s.label ≠ label := hsame ▸ h
        rw [hother (hlabel ▸ hne), hother hne]
    · rename_i hdiffers
      by_cases hs' : s.label = label
      · rw [hfound hs', hfound hs', if_neg fun h => hdiffers (hs'.trans h.symm)]
      · rw [hother hs', hother hs', ih hrest]

/-- **Merged fields**: of those with one label, the last one counts that has a point on the
date. -/
theorem observed?_foldl_mergeField {shares : List (Placement α)}
    (hshares : ∀ x ∈ shares, x.WellFormed) {fields : List (Series α)}
    (hfields : ∀ s ∈ fields, s.Increasing) (label : String) (t : Instant) :
    Series.observed? (labelled? (shares.foldl (fun fs x => mergeField x.field fs) fields) label) t =
      (((shares.filter fun x => x.field.label == label).filterMap fun x =>
        x.field.points.valueAt? t).getLast?).or (Series.observed? (labelled? fields label) t) := by
  induction shares generalizing fields with
  | nil => rfl
  | cons x shares ih =>
    obtain ⟨hx, hrest⟩ := List.forall_mem_cons.1 hshares
    rw [List.foldl_cons, ih hrest (increasing_mergeField hx.field hfields),
      observed?_mergeField hx.field hfields]
    split
    · rename_i h
      rw [List.filter_cons_of_pos (by exact beq_iff_eq.2 h), getLast?_filterMap_cons_or]
    · rename_i h
      rw [List.filter_cons_of_neg (by exact fun heq => h (beq_iff_eq.1 heq))]

/-- The labels of merged fields: that of one more field is new, or one of them. -/
theorem labels_mergeField (field : Series α) (fields : List (Series α)) :
    (mergeField field fields).map Series.label =
      if field.label ∈ fields.map Series.label then fields.map Series.label
      else fields.map Series.label ++ [field.label] := by
  induction fields with
  | nil => rfl
  | cons s fields ih =>
    have hlabel : (s.overwrite field.points).label = s.label :=
      congrArg Header.label (s.header_overwrite field.points)
    rw [mergeField]
    by_cases hsame : s.label = field.label
    · rw [if_pos hsame, List.map_cons, List.map_cons, hlabel,
        if_pos (List.mem_cons.2 (.inl hsame.symm))]
    · rw [if_neg hsame, List.map_cons, List.map_cons, ih]
      by_cases hmem : field.label ∈ fields.map Series.label
      · rw [if_pos hmem, if_pos (List.mem_cons_of_mem _ hmem)]
      · rw [if_neg hmem, if_neg (List.not_mem_cons_of_ne_of_not_mem (Ne.symm hsame) hmem)]
        rfl

/-- Merged fields have different labels:
`((shares.foldl (fun fs x => mergeField x.field fs) []).map Series.label).Nodup`. -/
theorem nodup_labels_foldl_mergeField (shares : List (Placement α)) :
    ((shares.foldl (fun fs x => mergeField x.field fs) []).map Series.label).Nodup := by
  refine List.foldlRecOn (motive := fun fs : List (Series α) => (fs.map Series.label).Nodup)
    shares _ List.nodup_nil fun fs hfs x _ => ?_
  rw [labels_mergeField]
  split
  · exact hfs
  · rename_i hnew
    exact List.nodup_append.2 ⟨hfs, List.pairwise_singleton _ _, fun label hlabel label' hlabel' =>
      fun heq => hnew (List.mem_singleton.1 hlabel' ▸ heq ▸ hlabel)⟩

/-! ## (4) The shares of one entity -/

/-- `(e.setWeight s).fields = e.fields`: a weight leaves the fields of an entity. -/
theorem Entity.fields_setWeight (e : Entity α) (s : Series α) :
    (e.setWeight s).fields = e.fields := by
  rw [fields, setWeight, List.filter_append, fields, List.filter_filter]
  simp

/-- `e.field? s.label = some s`: among fields of different labels, each is found by its label. -/
theorem Entity.field?_of_mem {e : Entity α} (h : (e.fields.map Series.label).Nodup) {s : Series α}
    (hs : s ∈ e.fields) : e.field? s.label = some s := by
  have hsome : (e.fields.find? fun u => u.label == s.label).isSome :=
    List.find?_isSome.2 ⟨s, hs, beq_self_eq_true _⟩
  obtain ⟨u, hu⟩ := Option.isSome_iff_exists.1 hsome
  have hlabel : u.label = s.label := by simpa using List.find?_some hu
  rw [field?, hu, List.inj_on_of_nodup_map h (List.mem_of_find?_eq_some hu) hs hlabel]

namespace Placement

variable {e : Entity α} {shares : List (Placement α)}

/-- The fields of merged shares: `(merge e shares).fields = (shares.foldl (fun fs x => mergeField
x.field fs) []).map fun s => { s with isWeight := false }`. -/
theorem fields_merge (e : Entity α) (shares : List (Placement α)) :
    (merge e shares).fields = (shares.foldl (fun fs x => mergeField x.field fs) []).map
      fun s => { s with isWeight := false } := by
  have hfields : ∀ fs : List (Series α), (fs.map fun s => { s with isWeight := false }).filter
      (fun s => !s.isWeight) = fs.map fun s => { s with isWeight := false } := by
    refine fun fs => List.filter_eq_self.2 fun s hs => ?_
    obtain ⟨s', -, rfl⟩ := List.mem_map.1 hs
    rfl
  unfold merge
  dsimp only
  split
  · rw [Entity.fields_setWeight]
    exact hfields _
  · exact hfields _

/-- The fields of merged shares are in order: `∀ s ∈ (merge e shares).fields, s.Increasing`. -/
theorem increasing_fields_merge (hshares : ∀ x ∈ shares, x.WellFormed) (e : Entity α) :
    ∀ s ∈ (merge e shares).fields, s.Increasing := by
  intro s hs
  rw [fields_merge] at hs
  obtain ⟨merged, hmerged, rfl⟩ := List.mem_map.1 hs
  have hall : ∀ s ∈ shares.foldl (fun fs x => mergeField x.field fs) [], s.Increasing :=
    List.foldlRecOn (motive := fun fs : List (Series α) => ∀ s ∈ fs, s.Increasing) shares _
      (List.forall_mem_nil _) fun fs hfs x hx => increasing_mergeField (hshares x hx).field hfs
  exact hall merged hmerged

/-- Merged shares have fields of different labels:
`((merge e shares).fields.map Series.label).Nodup`. -/
theorem nodup_labels_merge (e : Entity α) (shares : List (Placement α)) :
    ((merge e shares).fields.map Series.label).Nodup := by
  rw [fields_merge, List.map_map]
  exact nodup_labels_foldl_mergeField shares

/-- `(merge e shares).identity = e.identity`: merged shares keep who the entity is. -/
theorem identity_merge (e : Entity α) (shares : List (Placement α)) :
    (merge e shares).identity = e.identity := by
  unfold merge
  dsimp only
  split
  · rfl
  · rfl

/-- **The weight of merged shares**: on each date, that of the last share that has one there.
`Series.observed? (merge e shares).weight? t` is
`(shares.filterMap fun x => Series.observed? x.weight t).getLast?`. -/
theorem observed?_weight?_merge (hshares : ∀ x ∈ shares, x.WellFormed) (t : Instant) :
    Series.observed? (merge e shares).weight? t =
      (shares.filterMap fun x => Series.observed? x.weight t).getLast? := by
  have hmerged := observed?_foldl_mergeWeight hshares (w := none) nofun t
  rw [Series.observed?_none, Option.or_none] at hmerged
  rw [← hmerged]
  unfold merge
  dsimp only
  split
  · rename_i w hw
    rw [Entity.weight?_setWeight, hw]
    rfl
  · rename_i hw
    -- all series are fields
    rw [hw, Entity.weight?, List.find?_eq_none.2 fun s hs => ?_]
    obtain ⟨s', -, rfl⟩ := List.mem_map.1 hs
    exact Bool.false_ne_true

/-- **The fields of merged shares**: on each date, what the last share of the label has there. -/
theorem observed?_field?_merge (hshares : ∀ x ∈ shares, x.WellFormed) (label : String)
    (t : Instant) : Series.observed? ((merge e shares).field? label) t =
      ((shares.filter fun x => x.field.label == label).filterMap fun x =>
        x.field.points.valueAt? t).getLast? := by
  have hmerged := observed?_foldl_mergeField hshares
    (List.forall_mem_nil fun s : Series α => s.Increasing) label t
  rw [observed?_labelled?_nil, Option.or_none] at hmerged
  rw [← hmerged, Entity.field?, fields_merge, List.find?_map, Series.observed?, labelled?,
    Option.bind_map]
  rfl

/-- A field of merged shares has a value on a date just when a share of its label has:
`(∃ s ∈ (merge e shares).fields, s.points.valueAt? t ≠ none)` just when
`∃ x ∈ shares, x.field.points.valueAt? t ≠ none`. -/
theorem exists_field_merge_iff (hshares : ∀ x ∈ shares, x.WellFormed) (t : Instant) :
    (∃ s ∈ (merge e shares).fields, s.points.valueAt? t ≠ none) ↔
      ∃ x ∈ shares, x.field.points.valueAt? t ≠ none := by
  constructor
  · rintro ⟨s, hs, hvalue⟩
    have hfound := Entity.field?_of_mem (nodup_labels_merge e shares) hs
    have hlast := observed?_field?_merge (e := e) hshares s.label t
    rw [hfound, Series.observed?, Option.bind_some] at hlast
    obtain ⟨v, hv⟩ := Option.ne_none_iff_exists'.1 (hlast ▸ hvalue)
    obtain ⟨x, hx, hxv⟩ := List.mem_filterMap.1 (List.mem_of_getLast? hv)
    exact ⟨x, List.mem_of_mem_filter hx, by rw [hxv]; exact Option.some_ne_none v⟩
  · rintro ⟨x, hx, hvalue⟩
    obtain ⟨v, hv⟩ := Option.ne_none_iff_exists'.1 hvalue
    have hmem : v ∈ (shares.filter fun y => y.field.label == x.field.label).filterMap fun y =>
        y.field.points.valueAt? t :=
      List.mem_filterMap.2 ⟨x, List.mem_filter.2 ⟨hx, beq_self_eq_true _⟩, hv⟩
    obtain ⟨u, hu⟩ := Option.isSome_iff_exists.1
      (List.getLast?_isSome.2 (List.ne_nil_of_mem hmem))
    rw [← observed?_field?_merge (e := e) hshares, Series.observed?,
      Option.bind_eq_some_iff] at hu
    obtain ⟨s, hs, hu⟩ := hu
    exact ⟨s, List.mem_of_find?_eq_some hs, by rw [hu]; exact Option.some_ne_none u⟩

end Placement

/-! ## (5) Entities that have a share -/

/-- Entities without share are left out. -/
theorem Panel.placed_eq (p : Panel α) (shares : List (Placement α)) :
    p.placed shares = p.entities.zipIdx.filterMap fun c =>
      if (shares.filter fun y => y.entity == c.2).isEmpty then none
      else some (Placement.merge c.1 (shares.filter fun y => y.entity == c.2)) := by
  refine List.filterMap_congr fun c _ => ?_
  dsimp only
  cases shares.filter fun y => y.entity == c.2 <;> rfl

/-- **The entities that have a share**, by their places: `e' ∈ p.placed shares` just when there are
`n` and `e` with `p.entities[n]? = some e`, `(shares.filter fun x => x.entity == n) ≠ []` and
`Placement.merge e (shares.filter fun x => x.entity == n) = e'`. -/
theorem Panel.mem_placed {p : Panel α} {shares : List (Placement α)} {e' : Entity α} :
    e' ∈ p.placed shares ↔ ∃ n e, p.entities[n]? = some e ∧
      (shares.filter fun x => x.entity == n) ≠ [] ∧
      Placement.merge e (shares.filter fun x => x.entity == n) = e' := by
  rw [placed_eq, List.mem_filterMap]
  constructor
  · rintro ⟨⟨e, n⟩, hmem, hmerge⟩
    obtain ⟨hne, hmerge⟩ := Option.ite_none_left_eq_some.1 hmerge
    exact ⟨n, e, List.mem_zipIdx_iff_getElem?.1 hmem, mt List.isEmpty_iff.2 hne,
      Option.some.inj hmerge⟩
  · rintro ⟨n, e, he, hne, rfl⟩
    exact ⟨(e, n), List.mem_zipIdx_iff_getElem?.2 he, if_neg (mt List.isEmpty_iff.1 hne)⟩

end PanelQuery
