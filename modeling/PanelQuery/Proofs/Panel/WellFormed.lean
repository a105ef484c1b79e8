import PanelQuery.Panel
import PanelQuery.Proofs.Category
import PanelQuery.Proofs.Series.Order

/-! # Well-formed panels

What all panels of a query have in common: the points of every series are in order, an entity has at
most one weight, its category is as it should be, and no two entities have one key. The operations
on entities keep this.

* **`Entity.WellFormed`, `Panel.WellFormed`** — the conditions;
* **`Entity.WellFormed.setWeight`, `pushField`, `replaceFields`, …** — entities that are changed;
* **`Panel.WellFormed.map`, `keys_filterMap`** — panels whose entities are changed, and keep their
  keys. -/

namespace PanelQuery

variable {α : Type}

/-! ## (1) Entities -/

/-- An entity as it should be. -/
structure Entity.WellFormed (e : Entity α) : Prop where
  /-- The points of every series are in order. -/
  series : ∀ s ∈ e.series, s.Increasing
  /-- There is one weight at most. -/
  weight : e.weights.length ≤ 1
  /-- The category is as it should be. -/
  category : e.category.WellFormed

namespace Entity.WellFormed

variable {e : Entity α} {s : Series α}

/-- An entity without series and category: `({ identity := i } : Entity α).WellFormed`. -/
theorem ofIdentity (i : Identity) : ({ identity := i } : Entity α).WellFormed :=
  ⟨nofun, Nat.zero_le 1, Category.wellFormed_empty⟩

/-- Fields are in order: `∀ s ∈ e.fields, s.Increasing`. -/
theorem fields (h : e.WellFormed) : ∀ s ∈ e.fields, s.Increasing :=
  fun s hs => h.series s (List.mem_of_mem_filter hs)

/-- Weights are in order: `∀ s ∈ e.weights, s.Increasing`. -/
theorem weights (h : e.WellFormed) : ∀ s ∈ e.weights, s.Increasing :=
  fun s hs => h.series s (List.mem_of_mem_filter hs)

/-- The weight is in order: `w.Increasing`. -/
theorem weight? (h : e.WellFormed) {w : Series α} (hw : e.weight? = some w) : w.Increasing :=
  h.series w (List.mem_of_find?_eq_some hw)

/-- `ss.filter Series.isWeight = []`: series that are no weights have no weight among them. -/
theorem filter_isWeight_eq_nil {ss : List (Series α)} (h : ∀ s ∈ ss, s.isWeight = false) :
    ss.filter Series.isWeight = [] := by
  refine List.filter_eq_nil_iff.2 fun s hs => ?_
  rw [h s hs]
  exact Bool.false_ne_true

/-- `e.fields.filter Series.isWeight = []`: fields have no weight among them. -/
theorem filter_fields (e : Entity α) : e.fields.filter Series.isWeight = [] :=
  filter_isWeight_eq_nil fun s hs => by simpa using (List.mem_filter.1 hs).2

/-- A series as the only weight: `(e.setWeight s).WellFormed`. -/
theorem setWeight (h : e.WellFormed) (hs : s.Increasing) : (e.setWeight s).WellFormed where
  series t ht := by
    rcases List.mem_append.1 ht with ht | ht
    · exact h.fields t ht
    · rw [List.mem_singleton.1 ht]
      exact hs
  weight := by
    rw [Entity.weights, Entity.setWeight, List.filter_append, filter_fields]
    exact Nat.le_refl 1
  category := h.category

/-- No weight: `e.clearWeight.WellFormed`. -/
theorem clearWeight (h : e.WellFormed) : e.clearWeight.WellFormed where
  series := h.fields
  weight := by
    rw [Entity.weights, Entity.clearWeight, filter_fields]
    exact Nat.zero_le 1
  category := h.category

/-- One more field: `(e.pushField s).WellFormed`. -/
theorem pushField (h : e.WellFormed) (hs : s.Increasing) : (e.pushField s).WellFormed where
  series t ht := by
    rcases List.mem_append.1 ht with ht | ht
    · exact h.series t ht
    · rw [List.mem_singleton.1 ht]
      exact hs
  weight := by
    rw [Entity.weights, Entity.pushField, List.filter_append]
    simpa [Entity.weights] using h.weight
  category := h.category

/-- Other fields: `(e.replaceFields fields).WellFormed`. -/
theorem replaceFields (h : e.WellFormed) {fields : List (Series α)}
    (hfields : ∀ s ∈ fields, s.Increasing) (hweight : ∀ s ∈ fields, s.isWeight = false) :
    (e.replaceFields fields).WellFormed where
  series t ht := by
    rcases List.mem_append.1 ht with ht | ht
    · exact h.weights t ht
    · exact hfields t ht
  weight := by
    rw [Entity.weights, Entity.replaceFields, List.filter_append, filter_isWeight_eq_nil hweight,
      List.append_nil, Entity.weights, List.filter_filter]
    simpa [Entity.weights] using h.weight
  category := h.category

/-- Series that are changed one by one, weights staying weights and fields staying fields:
`({ e with series := e.series.map f } : Entity α).WellFormed`. -/
theorem mapSeries (h : e.WellFormed) {f : Series α → Series α}
    (hf : ∀ s ∈ e.series, (f s).Increasing) (hweight : ∀ s, (f s).isWeight = s.isWeight) :
    ({ e with series := e.series.map f } : Entity α).WellFormed where
  series t ht := by
    obtain ⟨s, hs, rfl⟩ := List.mem_map.1 ht
    exact hf s hs
  weight := by
    have hcomp : Series.isWeight ∘ f = Series.isWeight := funext hweight
    rw [Entity.weights, List.filter_map, hcomp, List.length_map]
    exact h.weight
  category := h.category

/-- A weight that is changed stays one:
`((mapFirstWeight f ss).filter Series.isWeight).length = (ss.filter Series.isWeight).length`. -/
theorem filter_mapFirstWeight {f : Series α → Series α} (hf : ∀ s, (f s).isWeight = s.isWeight)
    (ss : List (Series α)) : ((mapFirstWeight f ss).filter Series.isWeight).length =
      (ss.filter Series.isWeight).length := by
  induction ss with
  | nil => rfl
  | cons s rest ih =>
    rw [mapFirstWeight]
    split
    · rename_i hs
      rw [List.filter_cons_of_pos (by rw [hf, hs]), List.filter_cons_of_pos hs]
      rfl
    · rename_i hs
      rw [List.filter_cons_of_neg hs, List.filter_cons_of_neg hs, ih]

/-- `t ∈ ss ∨ ∃ s ∈ ss, f s = t`: the series with the first weight changed. -/
theorem mem_mapFirstWeight {f : Series α → Series α} {ss : List (Series α)} {t : Series α}
    (h : t ∈ mapFirstWeight f ss) : t ∈ ss ∨ ∃ s ∈ ss, f s = t := by
  induction ss with
  | nil => cases h
  | cons s rest ih =>
    rw [mapFirstWeight] at h
    split at h
    · rcases List.mem_cons.1 h with rfl | h
      · exact .inr ⟨s, List.mem_cons_self, rfl⟩
      · exact .inl (List.mem_cons_of_mem _ h)
    · rcases List.mem_cons.1 h with rfl | h
      · exact .inl List.mem_cons_self
      · refine (ih h).imp (List.mem_cons_of_mem _) fun hs => ?_
        obtain ⟨s', hs', heq⟩ := hs
        exact ⟨s', List.mem_cons_of_mem _ hs', heq⟩

/-- A changed weight: `(e.mapWeight f).WellFormed`. -/
theorem mapWeight (h : e.WellFormed) {f : Series α → Series α}
    (hf : ∀ s, s.Increasing → (f s).Increasing) (hweight : ∀ s, (f s).isWeight = s.isWeight) :
    (e.mapWeight f).WellFormed where
  series t ht := by
    rcases mem_mapFirstWeight ht with ht | ⟨s, hs, rfl⟩
    · exact h.series t ht
    · exact hf s (h.series s hs)
  weight := by
    rw [Entity.weights, Entity.mapWeight, filter_mapFirstWeight hweight]
    exact h.weight
  category := h.category

/-- Another category: `({ e with category := c } : Entity α).WellFormed`. -/
theorem withCategory (h : e.WellFormed) {c : Category} (hc : c.WellFormed) :
    ({ e with category := c } : Entity α).WellFormed :=
  ⟨h.series, h.weight, hc⟩

/-- Changed fields: `(e.mapFields f).WellFormed`. -/
theorem mapFields (h : e.WellFormed) {f : Series α → Series α} (hf : ∀ s, (f s).Increasing)
    (hweight : ∀ s, (f s).isWeight = s.isWeight) : (e.mapFields f).WellFormed := by
  refine h.mapSeries (fun s hs => ?_) fun s => ?_
  · split
    · exact h.series s hs
    · exact hf s
  · split
    · rfl
    · exact hweight s

/-- Fields and a weight:
`({ identity := i, series := fields ++ [w], category := c } : Entity α).WellFormed`. -/
theorem ofFieldsAndWeight (i : Identity) {fields : List (Series α)} {w : Series α} {c : Category}
    (hfields : ∀ s ∈ fields, s.Increasing) (hweight : ∀ s ∈ fields, s.isWeight = false)
    (hw : w.Increasing) (hc : c.WellFormed) :
    ({ identity := i, series := fields ++ [w], category := c } : Entity α).WellFormed where
  series t ht := by
    rcases List.mem_append.1 ht with ht | ht
    · exact hfields t ht
    · rw [List.mem_singleton.1 ht]
      exact hw
  weight := by
    rw [Entity.weights, List.filter_append, filter_isWeight_eq_nil hweight, List.nil_append]
    exact List.length_filter_le _ [w]
  category := hc

/-- Fields alone: `({ identity := i, series := fields, category := c } : Entity α).WellFormed`. -/
theorem ofFields (i : Identity) {fields : List (Series α)} {c : Category}
    (hfields : ∀ s ∈ fields, s.Increasing) (hweight : ∀ s ∈ fields, s.isWeight = false)
    (hc : c.WellFormed) :
    ({ identity := i, series := fields, category := c } : Entity α).WellFormed where
  series := hfields
  weight := by
    rw [Entity.weights, filter_isWeight_eq_nil hweight]
    exact Nat.zero_le 1
  category := hc

end Entity.WellFormed

/-! ## (2) Panels -/

/-- The key of an entity. -/
def Entity.key (e : Entity α) : String := e.identity.key

/-- `(es.map f).map Entity.key = es.map Entity.key`: entities that are changed one by one and keep
their keys have the same keys. -/
theorem Panel.keys_map {f : Entity α → Entity α} (hf : ∀ e, (f e).key = e.key)
    (es : List (Entity α)) : (es.map f).map Entity.key = es.map Entity.key := by
  rw [List.map_map]
  exact List.map_congr_left fun e _ => hf e

/-- `e.key = key`: an entity that is found by a key has the key. -/
theorem Panel.key_of_find? {p : Panel α} {key : String} {e : Entity α}
    (h : p.find? key = some e) : e.key = key := by
  simpa [Entity.key] using List.find?_some h

/-- A panel as it should be. -/
structure Panel.WellFormed (p : Panel α) : Prop where
  /-- All entities are. -/
  entities : ∀ e ∈ p.entities, e.WellFormed
  /-- No two entities have one key. -/
  keys : (p.entities.map Entity.key).Nodup

namespace Panel.WellFormed

variable {p : Panel α}

/-- A panel without entities: `(Panel.empty : Panel α).WellFormed`. -/
theorem empty : (Panel.empty : Panel α).WellFormed := ⟨nofun, List.nodup_nil⟩

/-- Title, problems and hint do not matter: `q.WellFormed`. -/
theorem of_entities_eq {q : Panel α} (h : p.WellFormed) (hq : q.entities = p.entities) :
    q.WellFormed :=
  ⟨hq ▸ h.entities, hq ▸ h.keys⟩

/-- Entities that are changed one by one, and keep their keys:
`({ p with entities := p.entities.map f }).WellFormed`. -/
theorem map (h : p.WellFormed) {f : Entity α → Entity α} (hf : ∀ e, e.WellFormed → (f e).WellFormed)
    (hkey : ∀ e, (f e).key = e.key) : ({ p with entities := p.entities.map f }).WellFormed where
  entities e he := by
    obtain ⟨e', he', rfl⟩ := List.mem_map.1 he
    exact hf e' (h.entities e' he')
  keys := by
    rw [keys_map hkey]
    exact h.keys

/-- The keys of entities that are made of some elements are keys of the elements, in the same order:
`((bs.filterMap f).map Entity.key).Sublist (bs.map key)`. -/
theorem keys_filterMap {β : Type} {f : β → Option (Entity α)} {key : β → String}
    (hkey : ∀ b e, f b = some e → e.key = key b) (bs : List β) :
    ((bs.filterMap f).map Entity.key).Sublist (bs.map key) := by
  induction bs with
  | nil => exact .slnil
  | cons b bs ih =>
    cases hfb : f b with
    | none =>
      rw [List.filterMap_cons_none hfb]
      exact ih.cons _
    | some e =>
      rw [List.filterMap_cons_some hfb, List.map_cons, List.map_cons, hkey b e hfb]
      exact ih.cons_cons _

/-- Series that are changed one by one, weights staying weights and fields staying fields:
`(p.mapSeries f).WellFormed`. -/
theorem mapSeries (h : p.WellFormed) {f : Series α → Series α}
    (hf : ∀ s, s.Increasing → (f s).Increasing) (hweight : ∀ s, (f s).isWeight = s.isWeight) :
    (p.mapSeries f).WellFormed := by
  refine h.map (fun e he => he.mapSeries (fun s hs => hf s (he.series s hs)) hweight) fun e => ?_
  rfl

/-- `e.WellFormed ∧ e.key = key`: the first entity with a key. -/
theorem find? (h : p.WellFormed) {key : String} {e : Entity α} (he : p.find? key = some e) :
    e.WellFormed ∧ e.key = key :=
  ⟨h.entities e (List.mem_of_find?_eq_some he), key_of_find? he⟩

/-- An entity that is looked up by its key is there when one with the key is:
`(p.find? e.key).isSome`. -/
theorem find?_isSome {e : Entity α} (he : e ∈ p.entities) : (p.find? e.key).isSome :=
  List.find?_isSome.2 ⟨e, he, beq_self_eq_true _⟩

end Panel.WellFormed

end PanelQuery
