import PanelQuery.Aggregation.Reducer
import PanelQuery.Proofs.Roster

/-! # Aggregation of well-formed panels

Reducers that keep the entities merge what an entity got in all cross sections; the others make an
entity of each figure, of which those with one key are merged.

* **`Placement.WellFormed`** — the shares of a cross section;
* **`Placement.wellFormed_merge`** — the shares of one entity as an entity;
* **`Panel.WellFormed.aggregate`** — the panel of a reducer. -/

namespace PanelQuery

variable {α : Type}

/-! ## (1) Cross sections -/

/-- A share whose series are in order. -/
structure Placement.WellFormed (x : Placement α) : Prop where
  field : x.field.Increasing
  weight : ∀ w, x.weight = some w → w.Increasing

section CrossSections

variable [Scalar α]

/-- `m.field.Increasing ∧ ∀ w, m.weight = some w → w.Increasing`: the series of the members of a
cross section are in order. -/
theorem Panel.increasing_members {p : Panel α} {field category : String} {x : CrossSection α}
    (h : p.crossSection? field category = some x) {m : Member α} (hm : m ∈ x.members) :
    m.field.Increasing ∧ ∀ w, m.weight = some w → w.Increasing := by
  unfold crossSection? at h
  split at h
  · cases h
  · rw [← Option.some.inj h] at hm
    -- all of them are on the dates of the cross section
    obtain ⟨c, -, rfl⟩ := List.mem_map.1 hm
    refine ⟨Series.increasing_withPoints _ _, fun w hw => ?_⟩
    obtain ⟨v, -, rfl⟩ := Option.map_eq_some_iff.1 hw
    exact v.increasing_withPoints _

/-- The shares of a ranking: `∀ y ∈ x.rank n descending, y.WellFormed`. -/
theorem CrossSection.wellFormed_rank {x : CrossSection α}
    (hx : ∀ m ∈ x.members, m.field.Increasing) (n : Nat) (descending : Bool) :
    ∀ y ∈ x.rank n descending, y.WellFormed := by
  intro y hy
  obtain ⟨m, hm, rfl⟩ := List.mem_map.1 hy
  refine ⟨(hx m hm).keep _, fun w hw => ?_⟩
  rw [← Option.some.inj hw]
  exact Series.increasing_weight _

/-- The shares of a classification: `∀ y ∈ x.classify n, y.WellFormed`. -/
theorem CrossSection.wellFormed_classify {x : CrossSection α}
    (hx : ∀ m ∈ x.members, m.field.Increasing ∧ ∀ w, m.weight = some w → w.Increasing) (n : Nat) :
    ∀ y ∈ x.classify n, y.WellFormed := by
  intro y hy
  obtain ⟨m, hm, rfl⟩ := List.mem_map.1 hy
  refine ⟨(hx m hm).1.keep _, fun w hw => ?_⟩
  obtain ⟨v, hv, rfl⟩ := Option.map_eq_some_iff.1 hw
  exact ((hx m hm).2 v hv).keep _

/-- **The shares of a cross section** are in order: `∀ y ∈ x.place r, y.WellFormed`. -/
theorem CrossSection.wellFormed_place {x : CrossSection α}
    (hx : ∀ m ∈ x.members, m.field.Increasing ∧ ∀ w, m.weight = some w → w.Increasing)
    (r : Reducer) : ∀ y ∈ x.place r, y.WellFormed := by
  cases r with
  | top n => exact wellFormed_rank (fun m hm => (hx m hm).1) n true
  | bottom n => exact wellFormed_rank (fun m hm => (hx m hm).1) n false
  | quantile n => exact wellFormed_classify hx n
  | sum | average | count | percentPositive | median | boxplot => exact List.forall_mem_nil _

end CrossSections

/-! ## (2) Shares of one entity -/

/-- Points that overwrite others leave a series in order: `(s.overwrite points).Increasing`. -/
theorem Series.Increasing.overwrite {s : Series α} (h : s.Increasing) (points : Points α) :
    (s.overwrite points).Increasing :=
  Series.Increasing.foldl (fun _ p hs => hs.insert p) h points

/-- One more field, be it new or not, leaves all fields in order:
`∀ s ∈ mergeField field fields, s.Increasing`. -/
theorem increasing_mergeField {field : Series α} (h : field.Increasing) {fields : List (Series α)}
    (hfields : ∀ s ∈ fields, s.Increasing) : ∀ s ∈ mergeField field fields, s.Increasing := by
  induction fields with
  | nil => exact List.forall_mem_singleton.2 h
  | cons s fields ih =>
    obtain ⟨hs, hrest⟩ := List.forall_mem_cons.1 hfields
    rw [mergeField]
    split
    · exact List.forall_mem_cons.2 ⟨hs.overwrite field.points, hrest⟩
    · exact List.forall_mem_cons.2 ⟨hs, ih hrest⟩

/-- A weight that another one overwrites is in order:
`∀ w, mergeWeight weight other = some w → w.Increasing`. -/
theorem increasing_mergeWeight {weight other : Option (Series α)}
    (h : ∀ w, weight = some w → w.Increasing) (hother : ∀ w, other = some w → w.Increasing) :
    ∀ w, mergeWeight weight other = some w → w.Increasing := by
  intro w hw
  unfold mergeWeight at hw
  split at hw
  · rename_i w' v
    rw [← Option.some.inj hw]
    exact (h w' rfl).overwrite v.points
  · rename_i w'
    rw [← Option.some.inj hw]
    exact h w' rfl
  · exact hother w hw

/-- **The shares of an entity make a well-formed entity**:
`(Placement.merge source shares).WellFormed`. -/
theorem Placement.wellFormed_merge {source : Entity α} (hsource : source.WellFormed)
    {shares : List (Placement α)} (hshares : ∀ x ∈ shares, x.WellFormed) :
    (Placement.merge source shares).WellFormed := by
  unfold Placement.merge
  extract_lets fields weight labels series entity
  have hfields : ∀ s ∈ fields, s.Increasing :=
    List.foldlRecOn (motive := fun fs => ∀ s ∈ fs, Series.Increasing s) shares _ nofun
      fun fs hfs x hx => increasing_mergeField (hshares x hx).field hfs
  have hweight : ∀ w, weight = some w → w.Increasing :=
    List.foldlRecOn (motive := fun weight => ∀ w, weight = some w → Series.Increasing w) shares _
      nofun fun w hw x hx => increasing_mergeWeight hw (hshares x hx).weight
  have hentity : entity.WellFormed := by
    refine .ofFields _ (fun t ht => ?_) (fun t ht => ?_) ?_
    · obtain ⟨s, hs, rfl⟩ := List.mem_map.1 ht
      exact hfields s hs
    · obtain ⟨s, -, rfl⟩ := List.mem_map.1 ht
      rfl
    · split
      · exact hsource.category
      · exact Category.wellFormed_ofWrites _
  clear_value weight
  cases weight with
  | some w => exact hentity.setWeight (hweight w rfl)
  | none => exact hentity

/-- `(Placement.merge source shares).key = source.key`: the shares of an entity make an entity of
its key. -/
theorem Placement.key_merge (source : Entity α) (shares : List (Placement α)) :
    (Placement.merge source shares).key = source.key := by
  unfold Placement.merge
  dsimp only
  split
  · rfl
  · rfl

/-! ## (3) Panels -/

namespace Panel.WellFormed

variable [Scalar α] {p : Panel α}

omit [Scalar α] in
/-- The entities that have a share, each with all its shares: `q.WellFormed`. -/
theorem placed (h : p.WellFormed) {shares : List (Placement α)}
    (hshares : ∀ x ∈ shares, x.WellFormed) {q : Panel α} (hq : q.entities = p.placed shares) :
    q.WellFormed where
  entities e he := by
    rw [hq] at he
    obtain ⟨⟨source, n⟩, hmem, hmerge⟩ := List.mem_filterMap.1 he
    have hsource : source ∈ p.entities := (List.mem_zipIdx' hmem).2 ▸ List.getElem_mem _
    dsimp only at hmerge
    split at hmerge
    · cases hmerge
    · rw [← Option.some.inj hmerge]
      refine Placement.wellFormed_merge (h.entities source hsource) fun x hx => hshares x ?_
      exact List.mem_of_mem_filter hx
  keys := by
    rw [hq]
    have hkeys : (p.entities.zipIdx.map fun b => Entity.key b.1) = p.entities.map Entity.key := by
      refine (List.map_map (g := Entity.key) (f := Prod.fst)).symm.trans ?_
      rw [List.zipIdx_map_fst]
    refine (hkeys ▸ h.keys).sublist (keys_filterMap (fun b e hmerge => ?_) _)
    dsimp only at hmerge
    split at hmerge
    · cases hmerge
    · rw [← Option.some.inj hmerge]
      exact Placement.key_merge b.1 _

/-- **Aggregation.** Entities get new series, or figures take their place:
`(p.aggregate r).WellFormed`. -/
theorem aggregate (h : p.WellFormed) (r : Reducer) : (p.aggregate r).WellFormed := by
  unfold Panel.aggregate
  dsimp only
  -- the cross sections are those of some fields and categories
  have hsections : ∀ x ∈ p.crossSections, ∃ field category,
      p.crossSection? field category = some x := by
    intro x hx
    obtain ⟨field, -, hx⟩ := List.mem_flatMap.1 hx
    obtain ⟨category, -, hx⟩ := List.mem_filterMap.1 hx
    exact ⟨field, category, hx⟩
  by_cases hkeeps : r.keepsEntities
  · rw [if_pos hkeeps]
    refine h.placed (fun y hy => ?_) rfl
    obtain ⟨x, hx, hy⟩ := List.mem_flatMap.1 hy
    obtain ⟨field, category, hx⟩ := hsections x hx
    exact x.wellFormed_place (fun m hm => increasing_members hx hm) r y hy
  · rw [if_neg hkeeps]
    refine Roster.WellFormed.panel (Roster.WellFormed.addAll (Roster.wellFormed_empty .key)
      (fun e he => ?_) (fun e _ => rfl) none).1 rfl
    -- a figure is one field of a constant category
    obtain ⟨x, -, he⟩ := List.mem_flatMap.1 he
    obtain ⟨figure, -, rfl⟩ := List.mem_map.1 he
    exact .ofFields _ (List.forall_mem_singleton.2 (Series.increasing_ofWrites _ _))
      (List.forall_mem_singleton.2 rfl) (Category.wellFormed_constant _)

end Panel.WellFormed

end PanelQuery
