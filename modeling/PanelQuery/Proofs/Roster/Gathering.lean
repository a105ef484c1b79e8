import PanelQuery.Proofs.Panel.Placement
import PanelQuery.Proofs.Roster
import PanelQuery.Proofs.Roster.Labels

/-! # What a roster makes of its additions

A roster makes one entity of all additions with one key. It loses nothing of them: each of their
fields is there, in the order of the additions and under a label of its own, and on every date the
first weight that is not zero counts.

* **`Addition`, `gather`** — entities that are added with their sources, one after the other;
* **`MadeOf`** — what one entity is when it is made of some additions;
* **`Entry.Keeps.merge`, `Entry.Gathers.merge`** — one more addition, whatever the labels of its
  fields are, and one whose labels are different;
* **`keys_add`, `idxOf?_keys_add`** — the keys of a roster, and the place that an addition gets;
* **`groups_gather`, `entities_gather`** — what each entry has of the additions with its key;
* **`gather_madeOf`** — all entities of a roster. -/

namespace PanelQuery.Roster

variable {α : Type}

/-! ## (1) Additions -/

/-- An entity that is added, and its source. -/
structure Addition (α : Type) where
  entity : Entity α
  source : Option String

/-- `Addition.key k a`: the text that tells the entity of an addition apart. -/
def Addition.key (k : MergeKey) (a : Addition α) : String := k.of a.entity.identity

/-- An entity whose weight may be added: there is one at most, in order. -/
structure Addition.Weighted (a : Addition α) : Prop where
  weight : a.entity.weights.length ≤ 1
  increasing : ∀ w ∈ a.entity.weights, w.Increasing

/-- An entity that may be added: one weight at most, in order, and fields of different labels. -/
structure Addition.Proper (a : Addition α) : Prop where
  weight : a.entity.weights.length ≤ 1
  increasing : ∀ w ∈ a.entity.weights, w.Increasing
  labels : (a.entity.fields.map Series.label).Nodup

/-- `gather k adds`: the roster of some additions. -/
def gather [Scalar α] (k : MergeKey) (adds : List (Addition α)) : Roster α :=
  adds.foldl (fun r a => (r.add a.entity a.source).1) (empty k)

/-- The fields of additions, with their sources. -/
def addedFields (adds : List (Addition α)) : List (Series α × Option String) :=
  adds.flatMap fun a => a.entity.fields.map fun s => (s, a.source)

/-- `addedWeights adds t`: the weights of additions at a time. -/
def addedWeights (adds : List (Addition α)) (t : Instant) : List α :=
  adds.filterMap fun a => Series.observed? a.entity.weight? t

/-- The first of some weights that is not zero, or else the last zero. -/
def firstWeight? [Scalar α] (vs : List α) : Option α :=
  (vs.find? fun v => !(v == 0)).or vs.getLast?

/-- The addition whose category counts: the first one that has any, or else the first one. -/
def categorized? (adds : List (Addition α)) : Option (Addition α) :=
  (adds.find? fun a => !a.entity.category.isEmpty).or adds.head?

/-- **An entity that is made of additions.** -/
structure MadeOf [Scalar α] (e : Entity α) (adds : List (Addition α)) : Prop where
  /-- It is the entity of the first one. -/
  identity : adds.head?.map (fun a => a.entity.identity) = some e.identity
  /-- It has all their fields in order, and nothing of them changes but the label. -/
  fields : List.Forall₂ (fun s f => f = relabel s f.label)
    (adds.flatMap fun a => a.entity.fields) e.fields
  /-- The labels are different. -/
  labels : (e.fields.map Series.label).Nodup
  /-- Each field is named among those before it. -/
  named : ∀ i s source f, (addedFields adds)[i]? = some (s, source) → e.fields[i]? = some f →
    Renaming ((e.fields.take i).map Series.label) s.label source f.label
  /-- It keeps its label if that is free. -/
  kept : ∀ i s source f, (addedFields adds)[i]? = some (s, source) → e.fields[i]? = some f →
    s.label ∉ (e.fields.take i).map Series.label → f.label = s.label
  /-- There is one weight at most. -/
  weights : e.weights.length ≤ 1
  /-- At every time the first weight counts that is not zero. -/
  weight : ∀ t, Series.observed? e.weight? t = firstWeight? (addedWeights adds t)
  /-- The first category counts. -/
  category : (categorized? adds).map (fun a => a.entity.category) = some e.category

/-! ## (2) Weights -/

section Weights

variable [Scalar α]

/-- `filled old new`: a value that another one replaces when it is zero or absent. -/
def filled (old new : Option α) : Option α :=
  match old with
  | some v => if v == 0 then new.or old else old
  | none => new

/-- `filled old none = old`: nothing replaces nothing. -/
theorem filled_none (old : Option α) : filled old none = old := by
  cases old with
  | none => rfl
  | some v => exact ite_self (some v)

/-- One point that fills a weight: `(fillWeight w [p]).points.valueAt? t` is
`if p.time = t then filled (w.points.valueAt? t) (some p.value) else w.points.valueAt? t`. -/
theorem valueAt?_fillWeight_singleton {w : Series α} (hw : w.Increasing) (p : Point α)
    (t : Instant) : (fillWeight w [p]).points.valueAt? t =
      if p.time = t then filled (w.points.valueAt? t) (some p.value)
      else w.points.valueAt? t := by
  rw [fillWeight, List.foldl_cons, List.foldl_nil]
  by_cases ht : p.time = t
  · subst ht
    rw [if_pos rfl]
    cases hv : w.points.valueAt? p.time with
    | none =>
      dsimp only
      rw [Series.insert, Points.valueAt?_insert hw, if_pos rfl]
      rfl
    | some v =>
      by_cases hzero : (v == 0) = true
      · simp only [filled, hzero, if_true, Option.some_or]
        rw [Series.insert, Points.valueAt?_insert hw, if_pos rfl]
      · simp only [filled, hzero, Bool.false_eq_true, if_false]
        exact hv
  · -- whether it is written or not, it is of another time
    have hinsert : (w.insert p).points.valueAt? t = w.points.valueAt? t := by
      rw [Series.insert, Points.valueAt?_insert hw, if_neg ht]
    rw [if_neg ht]
    split
    · split
      · exact hinsert
      · rfl
    · exact hinsert

/-- **A weight that is filled** with points of another one:
`(fillWeight w points).points.valueAt? t = filled (w.points.valueAt? t) (points.valueAt? t)`. -/
theorem valueAt?_fillWeight {w : Series α} (hw : w.Increasing) {points : Points α}
    (hpoints : points.Increasing) (t : Instant) :
    (fillWeight w points).points.valueAt? t =
      filled (w.points.valueAt? t) (points.valueAt? t) := by
  induction points generalizing w with
  | nil => exact (filled_none _).symm
  | cons p points ih =>
    obtain ⟨hp, hrest⟩ := Points.increasing_cons.1 hpoints
    have hstep : fillWeight w (p :: points) = fillWeight (fillWeight w [p]) points := rfl
    rw [hstep, ih (increasing_fillWeight hw [p]) hrest, valueAt?_fillWeight_singleton hw]
    by_cases ht : p.time = t
    · -- the points that follow are later
      have hnone : Points.valueAt? points t = none :=
        Points.valueAt?_eq_none fun q hq hqt => Int.ne_of_lt (hp q hq) (ht.trans hqt.symm)
      rw [if_pos ht, hnone, filled_none, Points.valueAt?_cons_of_eq ht]
    · rw [if_neg ht, Points.valueAt?_cons_of_ne ht]

/-- A weight after another one: it fills it, or is the first. -/
def joinedWeight (w other : Option (Series α)) : Option (Series α) :=
  match other with
  | none => w
  | some s => match w with
    | none => some { s with isWeight := true }
    | some w => some (fillWeight w s.points)

/-- Joined weights are in order: `∀ s, joinedWeight w other = some s → s.Increasing`. -/
theorem increasing_joinedWeight {w other : Option (Series α)}
    (hw : ∀ s, w = some s → s.Increasing) (hother : ∀ s, other = some s → s.Increasing) :
    ∀ s, joinedWeight w other = some s → s.Increasing := by
  intro s hs
  cases other with
  | none => exact hw s hs
  | some v =>
    cases w with
    | none =>
      cases hs
      exact hother v rfl
    | some w =>
      cases hs
      exact increasing_fillWeight (hw w rfl) v.points

/-- `(joinedWeight w other).isSome = (w.isSome || other.isSome)`: of joined weights there is one
when there is either. -/
theorem isSome_joinedWeight (w other : Option (Series α)) :
    (joinedWeight w other).isSome = (w.isSome || other.isSome) := by
  cases other with
  | none => exact (Bool.or_false _).symm
  | some s => cases w <;> rfl

/-- A weight that is joined to another one, at a time: `Series.observed? (joinedWeight w other) t`
is `filled (Series.observed? w t) (Series.observed? other t)`. -/
theorem observed?_joinedWeight {w other : Option (Series α)}
    (hw : ∀ s, w = some s → s.Increasing) (hother : ∀ s, other = some s → s.Increasing)
    (t : Instant) : Series.observed? (joinedWeight w other) t =
      filled (Series.observed? w t) (Series.observed? other t) := by
  cases other with
  | none => exact (filled_none _).symm
  | some s =>
    cases w with
    | none => rfl
    | some w => exact valueAt?_fillWeight (hw w rfl) (hother s rfl) t

/-- **One more weight** counts where the others are zero or absent:
`firstWeight? (vs ++ o.toList) = filled (firstWeight? vs) o`. -/
theorem firstWeight?_append (vs : List α) (o : Option α) :
    firstWeight? (vs ++ o.toList) = filled (firstWeight? vs) o := by
  cases o with
  | none => rw [Option.toList_none, List.append_nil, filled_none]
  | some v =>
    rw [Option.toList_some, firstWeight?, firstWeight?, List.find?_append, List.getLast?_append,
      List.getLast?_singleton, Option.some_or]
    cases hfirst : vs.find? fun v => !(v == 0) with
    | some u =>
      have hne : (u == 0) = false := by simpa using List.find?_some hfirst
      simp [filled, hne]
    | none =>
      -- all weights before are zero
      have hvalue : (none.or ([v].find? fun v => !(v == 0))).or (some v) = some v := by
        by_cases hv : (v == 0) = true <;> simp [hv]
      rw [hvalue, Option.none_or]
      cases hlast : vs.getLast? with
      | none => rfl
      | some z =>
        have hz : (z == 0) = true := by
          simpa using List.find?_eq_none.1 hfirst z (List.mem_of_getLast? hlast)
        simp [filled, hz]

end Weights

/-! ## (3) One more series -/

/-- `(e.mapWeight f).fields = e.fields`: a changed weight leaves the fields. -/
theorem fields_mapWeight {f : Series α → Series α} (hf : ∀ s, (f s).isWeight = s.isWeight)
    (e : Entity α) : (e.mapWeight f).fields = e.fields := by
  unfold Entity.mapWeight Entity.fields
  generalize e.series = ss
  induction ss with
  | nil => rfl
  | cons s ss ih =>
    dsimp only at ih ⊢
    rw [Entity.mapFirstWeight]
    split
    · rename_i hs
      rw [List.filter_cons_of_neg (by simp [hf, hs]), List.filter_cons_of_neg (by simp [hs])]
    · rename_i hs
      rw [List.filter_cons_of_pos (by simp [hs]), List.filter_cons_of_pos (by simp [hs]), ih]

/-- `(e.mapWeight f).weight? = e.weight?.map f`: a changed weight is the weight. -/
theorem weight?_mapWeight {f : Series α → Series α} (hf : ∀ s, (f s).isWeight = s.isWeight)
    (e : Entity α) : (e.mapWeight f).weight? = e.weight?.map f := by
  unfold Entity.mapWeight Entity.weight?
  generalize e.series = ss
  induction ss with
  | nil => rfl
  | cons s ss ih =>
    dsimp only at ih ⊢
    rw [Entity.mapFirstWeight]
    split
    · rename_i hs
      rw [List.find?_cons_of_pos (by rw [hf, hs]), List.find?_cons_of_pos hs, Option.map_some]
    · rename_i hs
      rw [List.find?_cons_of_neg hs, List.find?_cons_of_neg hs, ih]

/-- `(e.pushField s).fields = e.fields ++ [{ s with isWeight := false }]`: one more field comes
last. -/
theorem fields_pushField (e : Entity α) (s : Series α) :
    (e.pushField s).fields = e.fields ++ [{ s with isWeight := false }] := by
  rw [Entity.fields, Entity.pushField, List.filter_append]
  rfl

/-- `(e.pushField s).weight? = e.weight?`: one more field leaves the weight. -/
theorem weight?_pushField (e : Entity α) (s : Series α) : (e.pushField s).weight? = e.weight? := by
  rw [Entity.weight?, Entity.pushField, List.find?_append]
  exact Option.or_none

namespace Entry

variable [Scalar α] {x : Entry α} {source : Option String}

/-- A weight that joins an entity leaves the fields:
`(x.addSeries source s).entity.fields = x.entity.fields`, `(x.addSeries source s).used = x.used` and
`(x.addSeries source s).entity.weight? = joinedWeight x.entity.weight? (some s)`. -/
theorem addSeries_of_isWeight (x : Entry α) (source : Option String) {s : Series α}
    (hs : s.isWeight = true) :
    (x.addSeries source s).entity.fields = x.entity.fields ∧
      (x.addSeries source s).used = x.used ∧
      (x.addSeries source s).entity.weight? = joinedWeight x.entity.weight? (some s) := by
  unfold addSeries
  rw [if_pos hs]
  cases hw : x.entity.weight? with
  | none => exact ⟨Entity.fields_setWeight _ s, rfl, Entity.weight?_setWeight _ s⟩
  | some w =>
    have hweight : ∀ u : Series α, (fillWeight u s.points).isWeight = u.isWeight :=
      fun u => isWeight_fillWeight u s.points
    refine ⟨fields_mapWeight hweight _, rfl, ?_⟩
    rw [weight?_mapWeight hweight, hw]
    rfl

/-- A field that joins an entity gets a label that is free, and leaves the weight:
`(x.addSeries source s).entity.fields` is
`x.entity.fields ++ [relabel s (freshLabel s.label source x.used)]`,
`(x.addSeries source s).used = x.used ++ [freshLabel s.label source x.used]` and
`(x.addSeries source s).entity.weight? = x.entity.weight?`. -/
theorem addSeries_of_field (x : Entry α) (source : Option String) {s : Series α}
    (hs : s.isWeight = false) :
    (x.addSeries source s).entity.fields =
        x.entity.fields ++ [relabel s (freshLabel s.label source x.used)] ∧
      (x.addSeries source s).used = x.used ++ [freshLabel s.label source x.used] ∧
      (x.addSeries source s).entity.weight? = x.entity.weight? := by
  have hfield : ¬s.isWeight = true := by simp [hs]
  unfold addSeries
  rw [if_neg hfield]
  refine ⟨?_, rfl, weight?_pushField _ _⟩
  rw [fields_pushField, relabel, hs]

/-- **Fields that join an entity one after the other** are relabelled, and the others stay. -/
theorem exists_relabelled (x : Entry α) (source : Option String) (ss : List (Series α)) :
    let y := ss.foldl (fun x s => x.addSeries source s) x
    ∃ fields, y.entity.fields = x.entity.fields ++ fields ∧
      y.used = x.used ++ fields.map Series.label ∧
      Relabelled x.used ((ss.filter fun s => !s.isWeight).map fun s => (s, source)) fields := by
  induction ss generalizing x with
  | nil => exact ⟨[], (List.append_nil _).symm, (List.append_nil _).symm, .nil _⟩
  | cons s ss ih =>
    obtain ⟨fields, hfields, hused, hrelabelled⟩ := ih (x.addSeries source s)
    cases hs : s.isWeight with
    | true =>
      obtain ⟨hsame, hsameUsed, -⟩ := addSeries_of_isWeight x source hs
      rw [hsame] at hfields
      rw [hsameUsed] at hused hrelabelled
      rw [List.filter_cons_of_neg (by simp [hs])]
      exact ⟨fields, hfields, hused, hrelabelled⟩
    | false =>
      obtain ⟨hmore, hmoreUsed, -⟩ := addSeries_of_field x source hs
      rw [hmore, List.append_assoc] at hfields
      rw [hmoreUsed] at hused hrelabelled
      rw [List.filter_cons_of_pos (by simp [hs]), List.map_cons]
      refine ⟨_, hfields, ?_, .cons (renaming_freshLabel _ _ _) hrelabelled⟩
      rw [List.append_assoc] at hused
      exact hused

/-- **Series of which one at most is a weight** join it to that of the entity:
`(ss.foldl (fun x s => x.addSeries source s) x).entity.weight?` is
`joinedWeight x.entity.weight? (ss.find? Series.isWeight)`. -/
theorem weight?_foldl_addSeries (x : Entry α) (source : Option String) {ss : List (Series α)}
    (hss : (ss.filter Series.isWeight).length ≤ 1) :
    (ss.foldl (fun x s => x.addSeries source s) x).entity.weight? =
      joinedWeight x.entity.weight? (ss.find? Series.isWeight) := by
  induction ss generalizing x with
  | nil => rfl
  | cons s ss ih =>
    cases hs : s.isWeight with
    | true =>
      -- it is the only weight
      rw [List.filter_cons_of_pos hs, List.length_cons] at hss
      have hnone : ss.filter Series.isWeight = [] :=
        List.length_eq_zero_iff.1 (Nat.le_zero.1 (Nat.le_of_succ_le_succ hss))
      have hnone' : ss.find? Series.isWeight = none :=
        List.find?_eq_none.2 (List.filter_eq_nil_iff.1 hnone)
      rw [List.foldl_cons, ih _ (by simp [hnone]), hnone', List.find?_cons_of_pos hs]
      exact (addSeries_of_isWeight x source hs).2.2
    | false =>
      rw [List.filter_cons_of_neg (by simp [hs])] at hss
      rw [List.foldl_cons, ih _ hss, List.find?_cons_of_neg (by simp [hs]),
        (addSeries_of_field x source hs).2.2]

/-- The fields of an entity that takes in another one: there is `fields` with
`(x.merge source e).entity.fields = x.entity.fields ++ fields`,
`(x.merge source e).used = x.used ++ fields.map Series.label` and
`Relabelled x.used (e.fields.map fun s => (s, source)) fields`. -/
theorem exists_fields_merge (x : Entry α) (source : Option String) (e : Entity α) :
    ∃ fields, (x.merge source e).entity.fields = x.entity.fields ++ fields ∧
      (x.merge source e).used = x.used ++ fields.map Series.label ∧
      Relabelled x.used (e.fields.map fun s => (s, source)) fields :=
  exists_relabelled { x with entity := { x.entity with category := _ } } source e.series

/-- `(x.merge source e).entity.weight? = joinedWeight x.entity.weight? e.weight?`: its weight. -/
theorem weight?_merge (x : Entry α) (source : Option String) {e : Entity α}
    (he : e.weights.length ≤ 1) :
    (x.merge source e).entity.weight? = joinedWeight x.entity.weight? e.weight? :=
  weight?_foldl_addSeries { x with entity := { x.entity with category := _ } } source he

/-- It has one weight at most: `(x.merge source e).entity.weights.length ≤ 1`. -/
theorem length_weights_merge (x : Entry α) (source : Option String) (e : Entity α)
    (hx : x.entity.weights.length ≤ 1) : (x.merge source e).entity.weights.length ≤ 1 := by
  have hstep : ∀ (y : Entry α) (s : Series α), y.entity.weights.length ≤ 1 →
      (y.addSeries source s).entity.weights.length ≤ 1 := by
    intro y s hy
    unfold addSeries
    split
    · split
      · rw [Entity.weights, Entity.setWeight, List.filter_append,
          Entity.WellFormed.filter_fields]
        exact Nat.le_refl 1
      · rw [Entity.weights, Entity.mapWeight, Entity.WellFormed.filter_mapFirstWeight
          fun w => isWeight_fillWeight w s.points]
        exact hy
    · simpa [Entity.weights, Entity.pushField, List.filter_append] using hy
  unfold merge
  exact List.foldlRecOn (motive := fun y : Entry α => y.entity.weights.length ≤ 1) e.series _ hx
    fun y hy s _ => hstep y s hy

/-- Its category: `(x.merge source e).entity.category` is
`if x.entity.category.isEmpty && !e.category.isEmpty then e.category else x.entity.category`. -/
theorem category_merge (x : Entry α) (source : Option String) (e : Entity α) :
    (x.merge source e).entity.category =
      if x.entity.category.isEmpty && !e.category.isEmpty then e.category
      else x.entity.category := by
  have hsame : ∀ (y : Entry α) (s : Series α),
      (y.addSeries source s).entity.category = y.entity.category := by
    intro y s
    unfold addSeries
    split
    · split
      · rfl
      · rfl
    · rfl
  unfold merge
  -- the start has the category, and no series changes it
  exact List.foldlRecOn (motive := fun y : Entry α => y.entity.category = _) e.series _ rfl
    fun y hy s _ => (hsame y s).trans hy

end Entry

/-! ## (4) One more addition -/

/-- What an entry has of additions, whatever the labels of their fields are. -/
structure Entry.Keeps [Scalar α] (x : Entry α) (adds : List (Addition α)) : Prop where
  identity : adds.head?.map (fun a => a.entity.identity) = some x.entity.identity
  fields : List.Forall₂ (fun s f => f = relabel s f.label)
    (adds.flatMap fun a => a.entity.fields) x.entity.fields
  weights : x.entity.weights.length ≤ 1
  increasing : ∀ w, x.entity.weight? = some w → w.Increasing
  weight : ∀ t, Series.observed? x.entity.weight? t = firstWeight? (addedWeights adds t)
  weighted : x.entity.weight?.isSome = adds.any fun a => a.entity.weight?.isSome
  category : (categorized? adds).map (fun a => a.entity.category) = some x.entity.category

/-- An entry that is made of additions, and knows the labels that it has given. -/
structure Entry.Gathers [Scalar α] (x : Entry α) (adds : List (Addition α)) : Prop
    extends x.Keeps adds where
  relabelled : Relabelled [] (addedFields adds) x.entity.fields
  used : x.used = x.entity.fields.map Series.label

/-- An entity that may be added is one whose weight may be: `a.Weighted`. -/
theorem Addition.Proper.weighted {a : Addition α} (ha : a.Proper) : a.Weighted :=
  ⟨ha.weight, ha.increasing⟩

/-- The weight of an addition is in order: `∀ w, a.entity.weight? = some w → w.Increasing`. -/
theorem Addition.Weighted.weight? {a : Addition α} (ha : a.Weighted) :
    ∀ w, a.entity.weight? = some w → w.Increasing := by
  intro w hw
  refine ha.increasing w (List.mem_filter.2 ⟨List.mem_of_find?_eq_some hw, ?_⟩)
  exact List.find?_some hw

/-- The weights of one more addition: `addedWeights (adds ++ [a]) t` is
`addedWeights adds t ++ (Series.observed? a.entity.weight? t).toList`. -/
theorem addedWeights_append (adds : List (Addition α)) (a : Addition α) (t : Instant) :
    addedWeights (adds ++ [a]) t =
      addedWeights adds t ++ (Series.observed? a.entity.weight? t).toList := by
  rw [addedWeights, List.filterMap_append]
  cases hv : Series.observed? a.entity.weight? t <;> simp [addedWeights, hv]

namespace Entry

variable [Scalar α] {x : Entry α} {adds : List (Addition α)} {a : Addition α}

/-- An entry of one addition has it as it is: `(Entry.ofEntity a.entity).Keeps [a]`. -/
theorem keeps_ofEntity (ha : a.Weighted) : (Entry.ofEntity a.entity).Keeps [a] where
  identity := rfl
  fields := by
    rw [List.flatMap_singleton]
    exact List.forall₂_same.2 fun s _ => rfl
  weights := ha.weight
  increasing := ha.weight?
  weight t := by
    have hone := addedWeights_append [] a t
    rw [← List.nil_append [a], hone, firstWeight?_append]
    rfl
  weighted := by rw [List.any_cons, List.any_nil, Bool.or_false, ofEntity]
  category := by
    cases hempty : a.entity.category.isEmpty <;> simp [categorized?, hempty, ofEntity]

/-- **One more addition**: the entity takes in its fields, its weight and, as long as it has none,
its category. `(x.merge a.source a.entity).Keeps (adds ++ [a])`. -/
theorem Keeps.merge (h : x.Keeps adds) (ha : a.Weighted) :
    (x.merge a.source a.entity).Keeps (adds ++ [a]) := by
  have hhead : (adds ++ [a]).head? = adds.head? := by
    cases adds with
    | nil => cases h.identity
    | cons b adds => rfl
  obtain ⟨fields, hfields, -, hrelabelled⟩ := x.exists_fields_merge a.source a.entity
  have hweight := x.weight?_merge a.source ha.weight
  refine ⟨?_, ?_, x.length_weights_merge a.source a.entity h.weights, ?_, fun t => ?_, ?_, ?_⟩
  · rw [hhead, h.identity, identity_merge]
  · rw [hfields, List.flatMap_append, List.flatMap_singleton]
    have hadded : List.Forall₂ (fun s f => f = relabel s f.label) a.entity.fields fields := by
      simpa [Function.comp_def] using hrelabelled.forall₂
    exact List.rel_append h.fields hadded
  · rw [hweight]
    exact increasing_joinedWeight h.increasing ha.weight?
  · rw [hweight, observed?_joinedWeight h.increasing ha.weight?, h.weight, addedWeights_append,
      firstWeight?_append]
  · rw [hweight, isSome_joinedWeight, h.weighted, List.any_append, List.any_cons, List.any_nil,
      Bool.or_false]
  · rw [category_merge]
    have hcategory := h.category
    unfold categorized? at hcategory ⊢
    rw [List.find?_append, hhead]
    cases hfirst : adds.find? fun b => !b.entity.category.isEmpty with
    | some b =>
      -- it has a category already
      rw [hfirst, Option.some_or, Option.map_some] at hcategory
      have hfull : b.entity.category.isEmpty = false := by simpa using List.find?_some hfirst
      rw [Option.some.inj hcategory] at hfull
      simp [hfull, hcategory]
    | none =>
      -- all categories before are empty
      rw [hfirst, Option.none_or] at hcategory
      obtain ⟨b, hb, hsame⟩ := Option.map_eq_some_iff.1 hcategory
      have hempty : b.entity.category.isEmpty = true := by
        simpa using List.find?_eq_none.1 hfirst b (List.mem_of_mem_head? hb)
      rw [hsame] at hempty
      cases ha' : a.entity.category.isEmpty <;> simp [hempty, ha', hb, hsame]

/-- An entry of one addition whose labels are different knows them:
`(Entry.ofEntity a.entity).Gathers [a]`. -/
theorem gathers_ofEntity (ha : a.Proper) : (Entry.ofEntity a.entity).Gathers [a] where
  toKeeps := keeps_ofEntity ha.weighted
  relabelled := by
    rw [addedFields, List.flatMap_singleton]
    exact .of_nodup a.source (by simpa using ha.labels)
  used := rfl

/-- **One more addition** whose fields are labelled among those that are there:
`(x.merge a.source a.entity).Gathers (adds ++ [a])`. -/
theorem Gathers.merge (h : x.Gathers adds) (ha : a.Proper) :
    (x.merge a.source a.entity).Gathers (adds ++ [a]) := by
  obtain ⟨fields, hfields, hused, hrelabelled⟩ := x.exists_fields_merge a.source a.entity
  refine ⟨h.toKeeps.merge ha.weighted, ?_, ?_⟩
  · rw [hfields, addedFields, List.flatMap_append, List.flatMap_singleton]
    rw [h.used] at hrelabelled
    exact h.relabelled.append (by simpa using hrelabelled)
  · rw [hused, hfields, List.map_append, h.used]

end Entry

/-! ## (5) Rosters -/

/-- The texts that tell the entities of a roster apart. -/
def keys (r : Roster α) : List String := r.entries.map fun x => r.mergeBy.of x.entity.identity

variable [Scalar α]

omit [Scalar α] in
/-- `r.place? i = r.keys.idxOf? (r.mergeBy.of i)`: the place at which an entity is looked for is
that of its key. -/
theorem place?_eq (r : Roster α) (i : Identity) :
    r.place? i = r.keys.idxOf? (r.mergeBy.of i) := by
  rw [place?, keys, List.idxOf?, List.findIdx?_map]
  rfl

/-- **One more entity** goes to the place of its key, or to the end if its key is new. -/
theorem add_eq (r : Roster α) (e : Entity α) (source : Option String) :
    (∃ n, r.keys.idxOf? (r.mergeBy.of e.identity) = some n ∧
      r.add e source = ({ r with entries := r.entries.modify n fun x => x.merge source e }, n)) ∨
    (r.mergeBy.of e.identity ∉ r.keys ∧
      r.add e source =
        ({ r with entries := r.entries ++ [Entry.ofEntity e] }, r.entries.length)) := by
  unfold add
  rw [place?_eq]
  split
  · rename_i n hn
    exact .inl ⟨n, hn, rfl⟩
  · rename_i hnone
    exact .inr ⟨List.idxOf?_eq_none_iff.1 hnone, rfl⟩

/-- **The keys of a roster**: that of one more entity is new, or one of them.
`(r.add e source).1.keys` is
`if r.mergeBy.of e.identity ∈ r.keys then r.keys else r.keys ++ [r.mergeBy.of e.identity]`. -/
theorem keys_add (r : Roster α) (e : Entity α) (source : Option String) :
    (r.add e source).1.keys =
      if r.mergeBy.of e.identity ∈ r.keys then r.keys else r.keys ++ [r.mergeBy.of e.identity] := by
  obtain ⟨n, hn, hadd⟩ | ⟨hnew, hadd⟩ := r.add_eq e source
  · rw [hadd, if_pos (List.isSome_idxOf?.1 (Option.isSome_of_eq_some hn))]
    have hkey : ∀ x : Entry α,
        r.mergeBy.of (x.merge source e).entity.identity = r.mergeBy.of x.entity.identity :=
      fun x => congrArg r.mergeBy.of (Entry.identity_merge x source e)
    exact map_modify hkey n r.entries
  · rw [hadd, if_neg hnew]
    exact List.map_append

/-- **The place of one more entity** is that of its key:
`(r.add e source).1.keys.idxOf? (r.mergeBy.of e.identity) = some (r.add e source).2`. -/
theorem idxOf?_keys_add (r : Roster α) (e : Entity α) (source : Option String) :
    (r.add e source).1.keys.idxOf? (r.mergeBy.of e.identity) = some (r.add e source).2 := by
  rw [keys_add]
  obtain ⟨n, hn, hadd⟩ | ⟨hnew, hadd⟩ := r.add_eq e source
  · rw [hadd, if_pos (List.isSome_idxOf?.1 (Option.isSome_of_eq_some hn)), hn]
  · have hnone : r.keys.findIdx? (fun key => key == r.mergeBy.of e.identity) = none :=
      List.idxOf?_eq_none_iff.2 hnew
    rw [hadd, if_neg hnew, List.idxOf?, List.findIdx?_append, hnone]
    simp [keys]

omit [Scalar α] in
/-- One more element of a list is new, or repeats one: `(keys ++ [key]).eraseDups` is
`if key ∈ keys.eraseDups then keys.eraseDups else keys.eraseDups ++ [key]`. -/
theorem eraseDups_concat (keys : List String) (key : String) :
    (keys ++ [key]).eraseDups =
      if key ∈ keys.eraseDups then keys.eraseDups else keys.eraseDups ++ [key] := by
  rw [List.eraseDups_append]
  by_cases hmem : key ∈ keys
  · simp [List.removeAll, hmem]
  · simp [List.removeAll, hmem, List.eraseDups_cons]

omit [Scalar α] in
/-- No element is left twice: `keys.eraseDups.Nodup`. -/
theorem nodup_eraseDups (keys : List String) : keys.eraseDups.Nodup := by
  induction keys using List.reverseRecOn with
  | nil => exact List.nodup_nil
  | append_singleton keys key ih =>
    rw [eraseDups_concat]
    split
    · exact ih
    · rename_i hnew
      exact List.nodup_append.2 ⟨ih, List.pairwise_singleton _ _,
        fun k hk k' hk' heq => hnew (List.mem_singleton.1 hk' ▸ heq ▸ hk)⟩

/-- A roster that groups additions by their keys, with an account of what each entry has of its
group. -/
structure Groups (account : Entry α → List (Addition α) → Prop) (r : Roster α)
    (adds : List (Addition α)) : Prop where
  /-- Its keys are those of the additions, in the order in which they come up. -/
  keys : r.keys = (adds.map (Addition.key r.mergeBy)).eraseDups
  /-- Each entry has the additions with its key. -/
  entries : ∀ x ∈ r.entries,
    account x (adds.filter fun a => a.key r.mergeBy == r.mergeBy.of x.entity.identity)

/-- An account of entries that is true of the first addition, and stays true with one more. -/
structure Lasting (proper : Addition α → Prop) (account : Entry α → List (Addition α) → Prop) :
    Prop where
  first : ∀ {a : Addition α}, proper a → account (Entry.ofEntity a.entity) [a]
  merge : ∀ {x : Entry α} {adds : List (Addition α)} {a : Addition α}, account x adds →
    proper a → account (x.merge a.source a.entity) (adds ++ [a])

/-- What an entry has of additions whose weights may be added:
`Lasting (α := α) Addition.Weighted Entry.Keeps`. -/
theorem lasting_keeps : Lasting (α := α) Addition.Weighted Entry.Keeps where
  first := Entry.keeps_ofEntity
  merge h ha := h.merge ha

/-- What it has of those that may be added as they are:
`Lasting (α := α) Addition.Proper Entry.Gathers`. -/
theorem lasting_gathers : Lasting (α := α) Addition.Proper Entry.Gathers where
  first := Entry.gathers_ofEntity
  merge h ha := h.merge ha

namespace Groups

variable {proper : Addition α → Prop} {account : Entry α → List (Addition α) → Prop}
  {r : Roster α} {adds : List (Addition α)} {a : Addition α}

omit [Scalar α] in
/-- `(adds ++ [a]).filter (fun b => b.key k == key) = adds.filter fun b => b.key k == key`: an
addition counts for its own key only. -/
theorem filter_append_of_ne {k : MergeKey} {key : String} (h : a.key k ≠ key) :
    (adds ++ [a]).filter (fun b => b.key k == key) = adds.filter fun b => b.key k == key := by
  rw [List.filter_append, List.filter_cons_of_neg (by simpa using h), List.filter_nil,
    List.append_nil]

omit [Scalar α] in
/-- And for this one it is the last: `(adds ++ [a]).filter (fun b => b.key k == key)` is
`adds.filter (fun b => b.key k == key) ++ [a]`. -/
theorem filter_append_of_eq {k : MergeKey} {key : String} (h : a.key k = key) :
    (adds ++ [a]).filter (fun b => b.key k == key) =
      adds.filter (fun b => b.key k == key) ++ [a] := by
  rw [List.filter_append, List.filter_cons_of_pos (by simpa using h), List.filter_nil]

omit [Scalar α] in
/-- The keys of its groups are different: `r.keys.Nodup`. -/
theorem nodup (h : r.Groups account adds) : r.keys.Nodup :=
  h.keys ▸ nodup_eraseDups _

/-- **An addition whose key is there** changes the entry of its key, and no other:
`account x ((adds ++ [a]).filter fun b => b.key r.mergeBy == r.mergeBy.of x.entity.identity)`. -/
theorem entries_modify (h : r.Groups account adds) (hlasting : Lasting proper account)
    (ha : proper a) {n : Nat} (hn : r.keys.idxOf? (a.key r.mergeBy) = some n) {x : Entry α}
    (hx : x ∈ r.entries.modify n fun y => y.merge a.source a.entity) :
    account x ((adds ++ [a]).filter fun b =>
      b.key r.mergeBy == r.mergeBy.of x.entity.identity) := by
  obtain ⟨i, hi⟩ := List.mem_iff_getElem?.1 hx
  rw [List.getElem?_modify] at hi
  obtain ⟨y, hy, hyx⟩ := Option.map_eq_some_iff.1 hi
  have hmade := h.entries y (List.mem_of_getElem? hy)
  have hkey : r.keys[i]? = some (r.mergeBy.of y.entity.identity) := by
    rw [Roster.keys, List.getElem?_map, hy, Option.map_some]
  obtain ⟨hlt, hplace, -⟩ := List.idxOf?_eq_some_iff.1 hn
  have hplace : r.keys[n]? = some (a.key r.mergeBy) := hplace ▸ List.getElem?_eq_getElem hlt
  by_cases hni : n = i
  · rw [if_pos hni] at hyx
    rw [hni, hkey] at hplace
    rw [← hyx, Entry.identity_merge, filter_append_of_eq (Option.some.inj hplace).symm]
    exact hlasting.merge hmade ha
  · rw [if_neg hni] at hyx
    have hother : a.key r.mergeBy ≠ r.mergeBy.of y.entity.identity := fun heq =>
      hni ((List.getElem?_inj hlt h.nodup).1 (hplace.trans (heq ▸ hkey.symm)))
    rw [← hyx, filter_append_of_ne hother]
    exact hmade

/-- **An addition whose key is new** leaves all entries, and is the first one of its key:
`account x ((adds ++ [a]).filter fun b => b.key r.mergeBy == r.mergeBy.of x.entity.identity)`. -/
theorem entries_append (h : r.Groups account adds) (hlasting : Lasting proper account)
    (ha : proper a) (hnew : a.key r.mergeBy ∉ r.keys) {x : Entry α}
    (hx : x ∈ r.entries ++ [Entry.ofEntity a.entity]) :
    account x ((adds ++ [a]).filter fun b =>
      b.key r.mergeBy == r.mergeBy.of x.entity.identity) := by
  rcases List.mem_append.1 hx with hx | hx
  · have hother : a.key r.mergeBy ≠ r.mergeBy.of x.entity.identity := fun heq =>
      hnew (heq ▸ List.mem_map_of_mem (f := fun x => r.mergeBy.of x.entity.identity) hx)
    rw [filter_append_of_ne hother]
    exact h.entries x hx
  · rw [List.mem_singleton.1 hx]
    have hnone : adds.filter (fun b => b.key r.mergeBy == a.key r.mergeBy) = [] := by
      refine List.filter_eq_nil_iff.2 fun b hb heq => hnew ?_
      rw [h.keys, List.mem_eraseDups, ← beq_iff_eq.1 heq]
      exact List.mem_map_of_mem hb
    have hfirst : (adds ++ [a]).filter (fun b => b.key r.mergeBy == a.key r.mergeBy) = [a] := by
      rw [filter_append_of_eq rfl, hnone, List.nil_append]
    change account (Entry.ofEntity a.entity)
      ((adds ++ [a]).filter fun b => b.key r.mergeBy == a.key r.mergeBy)
    rw [hfirst]
    exact hlasting.first ha

/-- **One more addition**: `(r.add a.entity a.source).1.Groups account (adds ++ [a])`. -/
theorem add (h : r.Groups account adds) (hlasting : Lasting proper account) (ha : proper a) :
    (r.add a.entity a.source).1.Groups account (adds ++ [a]) := by
  have hsame : (r.add a.entity a.source).1.mergeBy = r.mergeBy :=
    WellFormed.mergeBy_add r a.entity a.source
  refine ⟨?_, fun x hx => ?_⟩
  · rw [keys_add, hsame, List.map_append, List.map_singleton, eraseDups_concat, ← h.keys]
    rfl
  · rw [hsame]
    obtain ⟨n, hn, hadd⟩ | ⟨hnew, hadd⟩ := r.add_eq a.entity a.source
    · exact h.entries_modify hlasting ha hn (by rwa [hadd] at hx)
    · exact h.entries_append hlasting ha hnew (by rwa [hadd] at hx)

end Groups

/-- **All additions**, one after the other:
`(gather k adds).Groups account adds ∧ (gather k adds).mergeBy = k`. -/
theorem groups_gather {proper : Addition α → Prop} {account : Entry α → List (Addition α) → Prop}
    (hlasting : Lasting proper account) (k : MergeKey) {adds : List (Addition α)}
    (hadds : ∀ a ∈ adds, proper a) :
    (gather k adds).Groups account adds ∧ (gather k adds).mergeBy = k := by
  induction adds using List.reverseRecOn with
  | nil => exact ⟨⟨rfl, nofun⟩, rfl⟩
  | append_singleton adds a ih =>
    obtain ⟨hgroups, hmergeBy⟩ := ih fun b hb => hadds b (List.mem_append_left _ hb)
    have hstep : gather k (adds ++ [a]) = ((gather k adds).add a.entity a.source).1 :=
      List.foldl_append
    rw [hstep]
    refine ⟨hgroups.add hlasting (hadds a (List.mem_append_right _ List.mem_cons_self)), ?_⟩
    exact (WellFormed.mergeBy_add _ a.entity a.source).trans hmergeBy

/-- **The entities of all additions**: one for each key, in the order in which the keys come up, of
which each has the additions with its key. `(gather k adds).entities.map (fun e => k.of e.identity)`
is `(adds.map (Addition.key k)).eraseDups` and for all `e ∈ (gather k adds).entities`,
`∃ x : Entry α, x.entity = e ∧ account x (adds.filter fun a => a.key k == k.of e.identity)`. -/
theorem entities_gather {proper : Addition α → Prop}
    {account : Entry α → List (Addition α) → Prop} (hlasting : Lasting proper account)
    (k : MergeKey) {adds : List (Addition α)} (hadds : ∀ a ∈ adds, proper a) :
    (gather k adds).entities.map (fun e => k.of e.identity) =
        (adds.map (Addition.key k)).eraseDups ∧
      ∀ e ∈ (gather k adds).entities, ∃ x : Entry α, x.entity = e ∧
        account x (adds.filter fun a => a.key k == k.of e.identity) := by
  obtain ⟨⟨hkeys, hentries⟩, hmergeBy⟩ := groups_gather hlasting k hadds
  rw [hmergeBy] at hkeys hentries
  rw [keys, hmergeBy] at hkeys
  refine ⟨by rw [entities, List.map_map]; exact hkeys, fun e he => ?_⟩
  obtain ⟨x, hx, rfl⟩ := List.mem_map.1 he
  exact ⟨x, rfl, hentries x hx⟩

/-- A roster that collects additions: each entry is made of those with its key. -/
structure Collects (r : Roster α) (adds : List (Addition α)) : Prop
    extends r.Groups Entry.Gathers adds

/-- One more addition that is collected: `(r.add a.entity a.source).1.Collects (adds ++ [a])`. -/
theorem Collects.add {r : Roster α} {adds : List (Addition α)} {a : Addition α}
    (h : r.Collects adds) (ha : a.Proper) : (r.add a.entity a.source).1.Collects (adds ++ [a]) :=
  ⟨h.toGroups.add lasting_gathers ha⟩

/-- `(gather k adds).Collects adds ∧ (gather k adds).mergeBy = k`: all additions are collected. -/
theorem collects_gather (k : MergeKey) {adds : List (Addition α)} (hadds : ∀ a ∈ adds, a.Proper) :
    (gather k adds).Collects adds ∧ (gather k adds).mergeBy = k :=
  (groups_gather lasting_gathers k hadds).imp_left Collects.mk

/-- An entry that is made of additions has an entity that is: `MadeOf x.entity adds`. -/
theorem Entry.Gathers.madeOf {x : Entry α} {adds : List (Addition α)} (h : x.Gathers adds) :
    MadeOf x.entity adds where
  identity := h.identity
  fields := h.fields
  labels := by simpa using h.relabelled.nodup List.nodup_nil
  named i s source f hs hf := by simpa using h.relabelled.named hs hf
  kept i s source f hs hf hfree := (h.relabelled.named hs hf).eq_of_not_mem (by simpa using hfree)
  weights := h.weights
  weight := h.weight
  category := h.category

/-- **What a roster makes of its additions.** It has one entity for each key, in the order in which
the keys come up; an addition gets the place of its key; and each entity is made of the additions
with its key. -/
theorem gather_madeOf (k : MergeKey) {adds : List (Addition α)} (hadds : ∀ a ∈ adds, a.Proper) :
    (gather k adds).entities.map (fun e => k.of e.identity) =
        (adds.map (Addition.key k)).eraseDups ∧
      (∀ a : Addition α, a.Proper →
        ((adds ++ [a]).map (Addition.key k)).eraseDups.idxOf? (a.key k) =
          some ((gather k adds).add a.entity a.source).2) ∧
      ∀ e ∈ (gather k adds).entities,
        MadeOf e (adds.filter fun a => a.key k == k.of e.identity) := by
  obtain ⟨hcollects, hmergeBy⟩ := collects_gather k hadds
  refine ⟨?_, fun a ha => ?_, fun e he => ?_⟩
  · have hkeys := hcollects.keys
    rw [keys, hmergeBy] at hkeys
    rw [entities, List.map_map]
    exact hkeys
  · have hplace := (gather k adds).idxOf?_keys_add a.entity a.source
    have hsame := WellFormed.mergeBy_add (gather k adds) a.entity a.source
    rw [(hcollects.add ha).keys, hsame, hmergeBy] at hplace
    exact hplace
  · obtain ⟨x, hx, rfl⟩ := List.mem_map.1 he
    have hmade := hcollects.entries x hx
    rw [hmergeBy] at hmade
    exact hmade.madeOf

/-- Two entities of one name, of which the second one has a field whose label is taken, also with
its source; and one of another name. -/
def namesakes : List (Addition Float) :=
  [⟨{ identity := ⟨"A", "a", false⟩
      series := [⟨.labelled "Price", [⟨0, 1⟩], false⟩, ⟨.labelled "Price (S)", [⟨0, 2⟩], false⟩,
        ⟨.labelled "Weight", [⟨0, 0⟩, ⟨1, 3⟩], true⟩] }, none⟩,
    ⟨{ identity := ⟨"B", "b", false⟩, series := [⟨.labelled "Price", [⟨0, 4⟩], false⟩] }, none⟩,
    ⟨{ identity := ⟨"A", "c", false⟩
       series := [⟨.labelled "Weight", [⟨0, 5⟩, ⟨1, 7⟩], true⟩,
        ⟨.labelled "Price", [⟨0, 6⟩], false⟩] }, some "S"⟩]

/-- The two of one name are one entity: it counts its prices, and has the second weight where the
first one is zero. -/
theorem gather_madeOf_namesakes :
    (gather .name namesakes).entities.map (fun e => e.identity.name) = ["A", "B"] ∧
    ∃ e ∈ (gather .name namesakes).entities, e.identity = ⟨"A", "a", false⟩ ∧
      e.fields.map Series.label = ["Price", "Price (S)", "Price_1"] ∧
      Series.observed? e.weight? 0 = some 5 ∧ Series.observed? e.weight? 1 = some 3 := by
  have hproper : ∀ a ∈ namesakes, a.Proper := by
    refine List.forall_mem_cons.2 ⟨⟨by decide, by decide, by decide⟩, ?_⟩
    refine List.forall_mem_cons.2 ⟨⟨by decide, by decide, by decide⟩, ?_⟩
    exact List.forall_mem_singleton.2 ⟨by decide, by decide, by decide⟩
  obtain ⟨hkeys, -, hmade⟩ := gather_madeOf .name hproper
  refine ⟨hkeys, (gather .name namesakes).entities.head (by decide), List.head_mem _, rfl, rfl, ?_⟩
  have hfirst := (hmade _ (List.head_mem (by decide))).weight
  rw [hfirst, hfirst]
  exact ⟨rfl, rfl⟩

end PanelQuery.Roster
