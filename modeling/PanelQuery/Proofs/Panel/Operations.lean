import PanelQuery.Cadence
import PanelQuery.Formula.Application
import PanelQuery.Proofs.Panel.Cuts
import PanelQuery.Proofs.Roster
import PanelQuery.Regression
import PanelQuery.SetAlgebra
import PanelQuery.TimeWindow
import PanelQuery.Transform

/-! # Operations on well-formed panels

Everything that makes a panel of panels makes well-formed ones of well-formed ones.

* **`Panel.WellFormed.clip`, `alignTo`, `resampleTo`, `rebalance`, `transform`** — operations that
  change series in place;
* **`Panel.WellFormed.applyFormula`** — new fields;
* **`Panel.wellFormed_alignEpisodes`, `wellFormed_setOperation`, `wellFormed_regress`** — operations
  that make other entities. -/

namespace PanelQuery

namespace Panel.WellFormed

/-! ## (1) Series in place -/

variable {α : Type} {p : Panel α}

/-- **Time windows.** Points are left out: `(p.clip w).WellFormed`. -/
theorem clip (h : p.WellFormed) (w : TimeWindow) : (p.clip w).WellFormed := by
  unfold Panel.clip
  split
  · exact h
  · exact h.mapSeries (fun s hs => hs.keep _) fun s => rfl

/-- **Calendars.** Every series gets new points: `(p.alignTo f).WellFormed`. -/
theorem alignTo [Scalar α] (h : p.WellFormed) (f : Frequency) : (p.alignTo f).WellFormed := by
  unfold Panel.alignTo
  split
  · exact h
  · exact h.mapSeries (fun s _ => s.increasing_withPoints _) fun s => rfl

/-- **Resampling.** Every series gets new points: `(p.resampleTo f).WellFormed`. -/
theorem resampleTo [Scalar α] (h : p.WellFormed) (f : Frequency) : (p.resampleTo f).WellFormed := by
  unfold Panel.resampleTo
  split
  · exact h
  · refine h.map (fun e he => ?_) fun e => rfl
    exact he.mapSeries (fun s _ => s.increasing_withPoints _) fun s => rfl

/-- A weight that is held is in order: `(w.rebalance f).Increasing`. -/
theorem increasing_rebalance [Scalar α] (f : Frequency) {w : Series α} (h : w.Increasing) :
    (w.rebalance f).Increasing := by
  unfold Series.rebalance
  split
  · exact w.increasing_withPoints _
  · exact h

/-- `(w.rebalance f).isWeight = w.isWeight`: a weight that is held is a weight. -/
theorem isWeight_rebalance [Scalar α] (f : Frequency) (w : Series α) :
    (w.rebalance f).isWeight = w.isWeight := by
  unfold Series.rebalance
  split
  · rfl
  · rfl

/-- **Rebalancing.** The weight of each entity gets new points: `(p.rebalance f).WellFormed`. -/
theorem rebalance [Scalar α] (h : p.WellFormed) (f : Frequency) : (p.rebalance f).WellFormed := by
  refine h.map (fun e he => ?_) fun e => rfl
  exact he.mapWeight (fun w => increasing_rebalance f) (isWeight_rebalance f)

/-- **Transforms.** Every field gets new points and another header:
`(p.transform kind window).WellFormed`. -/
theorem transform [Analytic α] (h : p.WellFormed) (kind : Transform) (window : Nat) :
    (p.transform kind window).WellFormed := by
  refine h.map (fun e he => ?_) fun e => rfl
  refine he.mapFields (fun s => ?_) fun s => rfl
  exact s.increasing_withPoints (kind.points window s.points)

end Panel.WellFormed

/-! ## (2) Formulas -/

namespace Formula

/-- The fields that a formula makes are in order, and no weights: `Meets (outputs p r e) (fun fields
=> ∀ s ∈ fields, s.Increasing ∧ s.isWeight = false) fun _ => True`. -/
theorem meets_outputs (p : Program) (r : Report) (e : Entity Float) :
    Meets (outputs p r e) (fun fields => ∀ s ∈ fields, s.Increasing ∧ s.isWeight = false)
      fun _ => True := by
  have hmake : Meets (outputs.make p r e .wraps e.fields)
      (fun fields => ∀ s ∈ fields, s.Increasing ∧ s.isWeight = false) fun _ => True := by
    unfold outputs.make
    split
    · -- one field for each one
      refine Meets.mapM_forall (fun s => ?_) _
      exact (Meets.any _).bind fun ps _ => ⟨Series.increasing_ofWrites _ ps, rfl⟩
    · split
      · exact nofun
      · refine (Meets.any _).bind fun ps _ => ?_
        exact List.forall_mem_singleton.2 ⟨Series.increasing_ofWrites _ ps, rfl⟩
  unfold outputs
  dsimp only
  split
  · split
    · trivial
    · exact hmake
  · exact hmake

end Formula

/-- An entity with the fields that a formula makes: `(e.applyFormula p r).1.WellFormed`. -/
theorem Entity.WellFormed.applyFormula {e : Entity Float} (h : e.WellFormed) (p : Formula.Program)
    (r : Formula.Report) : (e.applyFormula p r).1.WellFormed := by
  unfold Entity.applyFormula
  split
  · rename_i fields hfields
    have houtputs := (Formula.meets_outputs p r e).of_ok hfields
    exact h.replaceFields (fun s hs => (houtputs s hs).1) fun s hs => (houtputs s hs).2
  · exact h.replaceFields nofun nofun

/-- `(e.applyFormula p r).1.key = e.key`: a formula changes no key. -/
theorem Entity.key_applyFormula (e : Entity Float) (p : Formula.Program) (r : Formula.Report) :
    (e.applyFormula p r).1.key = e.key := by
  unfold Entity.applyFormula
  split
  · rfl
  · rfl

/-- **Formulas.** Every entity gets other fields: `(panel.applyFormula p).WellFormed`. -/
theorem Panel.WellFormed.applyFormula {panel : Panel Float} (h : panel.WellFormed)
    (p : Formula.Program) : (panel.applyFormula p).WellFormed := by
  have hmap := h.map (fun e he => he.applyFormula p (.of p)) fun e => e.key_applyFormula p (.of p)
  refine hmap.of_entities_eq ?_
  exact List.map_map

/-! ## (3) Episodes -/

section Episodes

variable {α : Type} [Scalar α]

/-- An episode of an entity: `(x.excerpt w e anchor).WellFormed`. -/
theorem Entity.wellFormed_excerpt (x : Entity α) (w : Episode.Window) (e : Episode)
    (anchor : Instant) : (x.excerpt w e anchor).WellFormed := by
  refine Entity.WellFormed.ofFieldsAndWeight _ (fun t ht => ?_) (fun t ht => ?_)
    (Series.increasing_weight _) ?_
  · obtain ⟨s, -, rfl⟩ := List.mem_map.1 ht
    exact s.increasing_withPoints _
  · obtain ⟨s, -, rfl⟩ := List.mem_map.1 ht
    rfl
  · split
    · exact Category.wellFormed_constant _
    · exact Category.wellFormed_empty

/-- `c.WellFormed ∧ c.identity.name = c.key`: the episodes of an entity, which are told apart by
their names, as they are by their keys. -/
theorem Entity.wellFormed_excerpts {x c : Entity α} {w : Episode.Window} {zone : Zone}
    {marketDates : List Instant} {es : List Episode} (h : c ∈ x.excerpts w zone marketDates es) :
    c.WellFormed ∧ c.identity.name = c.key := by
  obtain ⟨e, -, he⟩ := List.mem_filterMap.1 h
  obtain ⟨anchor, -, rfl⟩ := Option.map_eq_some_iff.1 he
  exact ⟨x.wellFormed_excerpt w e anchor, rfl⟩

/-- The panel of all episodes is as it should be, whatever the panel was:
`(p.episodePanel w zone).WellFormed`. -/
theorem Panel.wellFormed_episodePanel (p : Panel α) (w : Episode.Window) (zone : Zone) :
    (p.episodePanel w zone).WellFormed := by
  unfold Panel.episodePanel
  extract_lets marketDates roster missing
  suffices h : roster.WellFormed from h.panel rfl
  -- the roster stays as it should be, and goes by names, with every entity
  refine (List.foldlRecOn (motive := fun r : Roster α => r.WellFormed ∧ r.mergeBy = .name)
    p.entities _ ⟨Roster.wellFormed_empty _, rfl⟩ ?_).1
  rintro r ⟨hr, hname⟩ x -
  split
  · rename_i weight hweight
    obtain ⟨hall, hsame⟩ := hr.addAll (fun c hc => (Entity.wellFormed_excerpts hc).1)
      (fun c hc => by rw [hname]; exact (Entity.wellFormed_excerpts hc).2) (some x.identity.name)
    exact ⟨hall, hsame.trans hname⟩
  · exact ⟨hr, hname⟩

/-- **Episodes.** Where `p.alignEpisodes w zone` has a result, it is as it should be. -/
theorem Panel.wellFormed_alignEpisodes {p out : Panel α} {w : Episode.Window} {zone : Zone}
    (h : p.alignEpisodes w zone = .ok out) : out.WellFormed := by
  obtain ⟨-, rfl⟩ := (p.alignEpisodes_yields w zone out).1 h
  exact p.wellFormed_episodePanel w zone

end Episodes

/-! ## (4) Set algebra -/

section SetAlgebra

variable {α : Type} [Scalar α]

/-- A weight that is made of two is in order: `w.Increasing`. -/
theorem increasing_combinedWeight? {rule : Bool → Bool → Bool} {a b : Option (Series α)}
    {w : Series α} (h : combinedWeight? rule a b = some w) : w.Increasing := by
  unfold combinedWeight? at h
  split at h
  · cases h
  · rw [← Option.some.inj h]
    exact Series.increasing_weight _

/-- The weight of what the other side excludes is in order: `(excludedWeight l r).Increasing`. -/
theorem increasing_excludedWeight (l r : Entity α) : (excludedWeight l r).Increasing := by
  unfold excludedWeight
  split
  · cases hw : combinedWeight? (fun inLeft inRight => inLeft && !inRight) l.weight? r.weight? with
    | none => exact Points.increasing_ofWrites []
    | some w => exact increasing_combinedWeight? hw
  · exact Series.increasing_weight _

omit [Scalar α] in
/-- An entity with more fields, each unless there is one of its label:
`(fields.foldl Entity.addMissingField e).WellFormed`. -/
theorem Entity.WellFormed.addMissingFields {e : Entity α} (h : e.WellFormed)
    {fields : List (Series α)} (hfields : ∀ s ∈ fields, s.Increasing) :
    (fields.foldl Entity.addMissingField e).WellFormed := by
  induction fields generalizing e with
  | nil => exact h
  | cons s fields ih =>
    have hrest : ∀ t ∈ fields, t.Increasing := fun t ht => hfields t (List.mem_cons_of_mem _ ht)
    rw [List.foldl_cons, Entity.addMissingField]
    split
    · exact ih (h.pushField (hfields s List.mem_cons_self)) hrest
    · exact ih h hrest

omit [Scalar α] in
/-- `(fields.foldl Entity.addMissingField e).key = e.key`: more fields change no key. -/
theorem Entity.key_addMissingFields (e : Entity α) (fields : List (Series α)) :
    (fields.foldl Entity.addMissingField e).key = e.key := by
  induction fields generalizing e with
  | nil => rfl
  | cons s fields ih =>
    rw [List.foldl_cons, ih, Entity.addMissingField]
    split
    · rfl
    · rfl

/-- **An entity of both sides**: `(l.combine rule r).WellFormed`. -/
theorem Entity.WellFormed.combine {l r : Entity α} (hl : l.WellFormed) (hr : r.WellFormed)
    (rule : Bool → Bool → Bool) : (l.combine rule r).WellFormed := by
  unfold Entity.combine
  extract_lets e e'
  have he : e.WellFormed := hl.addMissingFields hr.fields
  have he' : e'.WellFormed := by
    by_cases hempty : e.category.isEmpty
    · rw [show e' = { e with category := r.category } from if_pos hempty]
      exact he.withCategory hr.category
    · rw [show e' = e from if_neg hempty]
      exact he
  split
  · rename_i w hw
    exact he'.setWeight (increasing_combinedWeight? hw)
  · exact he'.clearWeight

/-- `(l.combine rule r).key = l.key`: an entity of both sides has the key of the left one. -/
theorem Entity.key_combine (rule : Bool → Bool → Bool) (l r : Entity α) :
    (l.combine rule r).key = l.key := by
  unfold Entity.combine
  extract_lets e e'
  have he' : e'.key = l.key := by
    refine Eq.trans ?_ (l.key_addMissingFields r.fields)
    by_cases hempty : e.category.isEmpty
    · rw [show e' = { e with category := r.category } from if_pos hempty]
      rfl
    · rw [show e' = e from if_neg hempty]
  split
  · exact he'
  · exact he'

namespace Panel

variable {left right : Panel α}

omit [Scalar α] in
/-- Entities of one side alone have keys of that side, in the same order:
`((p.without q).map Entity.key).Sublist (p.entities.map Entity.key)`. -/
theorem keys_without (p q : Panel α) :
    ((p.without q).map Entity.key).Sublist (p.entities.map Entity.key) :=
  List.filter_sublist.map _

omit [Scalar α] in
/-- Entities of one side alone have no key of the other side: `x.key ≠ e.key`. -/
theorem key_ne_of_mem_without {p q : Panel α} {e x : Entity α} (he : e ∈ p.without q)
    (hx : x ∈ q.entities) : x.key ≠ e.key := by
  intro heq
  have hnone := (List.mem_filter.1 he).2
  have hsome := WellFormed.find?_isSome hx
  rw [heq] at hsome
  exact Option.isSome_iff_ne_none.1 hsome (Option.isNone_iff_eq_none.1 hnone)

omit [Scalar α] in
/-- Keys of the left side, and those of the right side alone, differ:
`((es ++ right.without left).map Entity.key).Nodup`. -/
theorem nodup_keys_append {es : List (Entity α)}
    (hes : (es.map Entity.key).Sublist (left.entities.map Entity.key))
    (hl : (left.entities.map Entity.key).Nodup) (hr : (right.entities.map Entity.key).Nodup) :
    ((es ++ right.without left).map Entity.key).Nodup := by
  rw [List.map_append]
  refine List.nodup_append.2 ⟨hl.sublist hes, hr.sublist (keys_without right left),
    fun key hkey key' hkey' => ?_⟩
  obtain ⟨x, hx, rfl⟩ := List.mem_map.1 (hes.subset hkey)
  obtain ⟨e, he, rfl⟩ := List.mem_map.1 hkey'
  exact key_ne_of_mem_without he hx

/-- **The keys of an operation differ** where those of each side do:
`((setOperation op left right).entities.map Entity.key).Nodup`. -/
theorem nodup_keys_setOperation (hl : (left.entities.map Entity.key).Nodup)
    (hr : (right.entities.map Entity.key).Nodup) (op : SetOperation) :
    ((setOperation op left right).entities.map Entity.key).Nodup := by
  cases op with
  | union =>
    refine nodup_keys_append ?_ hl hr
    rw [keys_map fun l => ?_]
    split
    · exact l.key_combine _ _
    · rfl
  | intersect =>
    -- what is left has keys of the left side, in the same order
    refine hl.sublist ((List.filter_sublist.map _).trans ?_)
    refine WellFormed.keys_filterMap (fun l e hle => ?_) _
    obtain ⟨r, -, rfl⟩ := Option.map_eq_some_iff.1 hle
    exact l.key_combine _ r
  | difference => exact nodup_keys_append (keys_without left right) hl hr
  | exclude =>
    refine (keys_map (fun l => ?_) left.entities).symm ▸ hl
    split
    · rfl
    · rfl

/-- **Set algebra.** Entities of both sides become one, and all others stay:
`(setOperation op left right).WellFormed`. -/
theorem wellFormed_setOperation (hl : left.WellFormed) (hr : right.WellFormed) (op : SetOperation) :
    (setOperation op left right).WellFormed where
  keys := nodup_keys_setOperation hl.keys hr.keys op
  entities e he := by
    cases op with
    | union =>
      rcases List.mem_append.1 he with he | he
      · -- left entities, of which those on both sides are combined
        obtain ⟨l, hmem, rfl⟩ := List.mem_map.1 he
        split
        · rename_i r hfind
          exact (hl.entities l hmem).combine (hr.find? hfind).1 _
        · exact hl.entities l hmem
      · exact hr.entities e (List.mem_of_mem_filter he)
    | intersect =>
      obtain ⟨l, hmem, hle⟩ := List.mem_filterMap.1 (List.mem_of_mem_filter he)
      obtain ⟨r, hfind, rfl⟩ := Option.map_eq_some_iff.1 hle
      exact (hl.entities l hmem).combine (hr.find? hfind).1 _
    | difference =>
      rcases List.mem_append.1 he with he | he
      · exact hl.entities e (List.mem_of_mem_filter he)
      · exact hr.entities e (List.mem_of_mem_filter he)
    | exclude =>
      obtain ⟨l, hmem, rfl⟩ := List.mem_map.1 he
      split
      · exact (hl.entities l hmem).setWeight (increasing_excludedWeight _ _)
      · exact hl.entities l hmem

end Panel

end SetAlgebra

/-! ## (5) Regressions -/

section Regressions

variable {α : Type} [Scalar α]

/-- The figures of a regression are in order, and no weights:
`∀ s ∈ kind.figures window pairs, s.Increasing ∧ s.isWeight = false`. -/
theorem Regression.wellFormed_figures (kind : Regression) (window : Nat) (pairs : List (Pair α)) :
    ∀ s ∈ kind.figures window pairs, s.Increasing ∧ s.isWeight = false := by
  have hfigure : ∀ (label : String) (points : Points α),
      (figureSeries label points).Increasing ∧ (figureSeries label points).isWeight = false :=
    fun label points => ⟨Series.increasing_ofWrites _ points, rfl⟩
  cases kind with
  | static =>
    unfold figures staticFigures
    dsimp only
    split
    · exact List.forall_mem_cons.2 ⟨hfigure _ _, List.forall_mem_cons.2 ⟨hfigure _ _,
        List.forall_mem_singleton.2 (hfigure _ _)⟩⟩
    · exact nofun
  | rollingBeta =>
    exact List.forall_mem_cons.2 ⟨hfigure _ _, List.forall_mem_singleton.2 (hfigure _ _)⟩
  | rollingAlpha => exact List.forall_mem_singleton.2 (hfigure _ _)

/-- **Regressions.** Left entities get other fields, or are left out:
`(regress kind window left right).WellFormed`. -/
theorem Panel.wellFormed_regress {left : Panel α} (h : left.WellFormed) (kind : Regression)
    (window : Nat) (right : Panel α) : (regress kind window left right).WellFormed := by
  -- an entity that stays has figures for its fields, and its key
  have hattempt : ∀ l e : Entity α, attempted? (l.regress kind window right) = some e →
      e.key = l.key ∧ (l.WellFormed → e.WellFormed) := by
    intro l e he
    unfold Entity.regress at he
    split at he
    · cases he
    split at he
    · cases he
    dsimp only at he
    split at he
    · cases he
    · rw [← Option.some.inj he]
      refine ⟨rfl, fun hl => .ofFields _ (fun s hs => ?_) (fun s hs => ?_) hl.category⟩
      · exact (kind.wellFormed_figures window _ s hs).1
      · exact (kind.wellFormed_figures window _ s hs).2
  have hentities : (regress kind window left right).entities =
      left.entities.filterMap fun l => attempted? (l.regress kind window right) :=
    List.filterMap_map
  constructor
  · intro e he
    rw [hentities] at he
    obtain ⟨l, hl, hle⟩ := List.mem_filterMap.1 he
    exact (hattempt l e hle).2 (h.entities l hl)
  · rw [hentities]
    exact h.keys.sublist (WellFormed.keys_filterMap (fun l e hle => (hattempt l e hle).1) _)

end Regressions

end PanelQuery
