import PanelQuery.Proofs.Panel.WellFormed
import PanelQuery.Roster

/-! # Well-formed rosters

A roster gathers entities of which those with one key become one. It makes well-formed entities of
well-formed entities, however many of them meet in one place.

* **`Roster.WellFormed`** — the condition on a roster;
* **`Roster.Entry.WellFormed.merge`** — an entry that takes in another entity;
* **`Roster.WellFormed.add`, `addAll`** — one more entity, and any number of them;
* **`Roster.WellFormed.panel`** — the panel of the entities of a roster. -/

namespace PanelQuery.Roster

variable {α : Type}

/-- A roster as it should be. -/
structure WellFormed (r : Roster α) : Prop where
  /-- All entities are. -/
  entities : ∀ x ∈ r.entries, x.entity.WellFormed
  /-- No two entities have one key. -/
  keys : (r.entries.map fun x => x.entity.key).Nodup
  /-- The text that tells an entity apart is its key. -/
  told : ∀ x ∈ r.entries, r.mergeBy.of x.entity.identity = x.entity.key

/-- An empty roster: `(empty k : Roster α).WellFormed`. -/
theorem wellFormed_empty (k : MergeKey) : (empty k : Roster α).WellFormed :=
  ⟨nofun, List.nodup_nil, nofun⟩

/-- **The entities of a roster make a panel**: `p.WellFormed`. -/
theorem WellFormed.panel {r : Roster α} (h : r.WellFormed) {p : Panel α}
    (hp : p.entities = r.entities) : p.WellFormed where
  entities e he := by
    rw [hp] at he
    obtain ⟨x, hx, rfl⟩ := List.mem_map.1 he
    exact h.entities x hx
  keys := by
    rw [hp, Roster.entities, List.map_map]
    exact h.keys

variable [Scalar α]

/-! ## (1) Entries -/

/-- A weight filled with points is in order: `(fillWeight w points).Increasing`. -/
theorem increasing_fillWeight {w : Series α} (h : w.Increasing) (points : Points α) :
    (fillWeight w points).Increasing := by
  refine Series.Increasing.foldl (fun s p hs => ?_) h points
  split
  · split
    · exact hs.insert p
    · exact hs
  · exact hs.insert p

/-- `(fillWeight w points).isWeight = w.isWeight`: a weight filled with points is a weight. -/
theorem isWeight_fillWeight (w : Series α) (points : Points α) :
    (fillWeight w points).isWeight = w.isWeight := by
  unfold fillWeight
  induction points generalizing w with
  | nil => rfl
  | cons p points ih =>
    rw [List.foldl_cons, ih]
    split
    · split
      · rfl
      · rfl
    · rfl

namespace Entry

variable {x : Entry α}

/-- `(x.addSeries source s).entity.identity = x.entity.identity`: one more series changes no
identity. -/
theorem identity_addSeries (x : Entry α) (source : Option String) (s : Series α) :
    (x.addSeries source s).entity.identity = x.entity.identity := by
  unfold addSeries
  split
  · split
    · rfl
    · rfl
  · rfl

/-- `(x.merge source e).entity.identity = x.entity.identity`: another entity changes no identity. -/
theorem identity_merge (x : Entry α) (source : Option String) (e : Entity α) :
    (x.merge source e).entity.identity = x.entity.identity := by
  unfold merge
  generalize e.series = ss
  -- the start has the identity of the entry, and no series changes it
  suffices h : ∀ y : Entry α,
      (ss.foldl (fun x s => x.addSeries source s) y).entity.identity = y.entity.identity from h _
  induction ss with
  | nil => exact fun y => rfl
  | cons s ss ih => exact fun y => (ih _).trans (identity_addSeries y source s)

/-- **One more series keeps an entity as it should be**:
`(x.addSeries source s).entity.WellFormed`. -/
theorem wellFormed_addSeries (h : x.entity.WellFormed) (source : Option String) {s : Series α}
    (hs : s.Increasing) : (x.addSeries source s).entity.WellFormed := by
  unfold addSeries
  split
  · split
    · exact h.setWeight hs
    · -- there is a weight, which takes in the points
      exact h.mapWeight (fun w hw => increasing_fillWeight hw s.points)
        fun w => isWeight_fillWeight w s.points
  · refine h.pushField ?_
    exact hs

/-- **An entity that takes in another one** stays as it should be:
`(x.merge source e).entity.WellFormed`. -/
theorem wellFormed_merge (h : x.entity.WellFormed) (source : Option String) {e : Entity α}
    (he : e.WellFormed) : (x.merge source e).entity.WellFormed := by
  unfold merge
  -- the series are taken in one after the other
  have hseries : ∀ (ss : List (Series α)) (y : Entry α), (∀ s ∈ ss, s.Increasing) →
      y.entity.WellFormed →
      (ss.foldl (fun x s => x.addSeries source s) y).entity.WellFormed := by
    intro ss
    induction ss with
    | nil => exact fun y _ hy => hy
    | cons s ss ih =>
      intro y hss hy
      have hnext := wellFormed_addSeries hy source (hss s List.mem_cons_self)
      exact ih (y.addSeries source s) (fun t ht => hss t (List.mem_cons_of_mem _ ht)) hnext
  refine hseries e.series _ he.series (h.withCategory ?_)
  split
  · exact he.category
  · exact h.category

end Entry

/-! ## (2) Rosters -/

omit [Scalar α] in
/-- `b ∈ bs ∨ ∃ c ∈ bs, f c = b`: of the elements of a list with one changed, each is one of the
list or the changed one. -/
theorem mem_modify {β : Type} {f : β → β} {n : Nat} {bs : List β} {b : β}
    (h : b ∈ bs.modify n f) : b ∈ bs ∨ ∃ c ∈ bs, f c = b := by
  obtain ⟨i, hi⟩ := List.mem_iff_getElem?.1 h
  rw [List.getElem?_modify] at hi
  obtain ⟨c, hc, hcb⟩ := Option.map_eq_some_iff.1 hi
  have hmem : c ∈ bs := List.mem_of_getElem? hc
  split at hcb
  · exact .inr ⟨c, hmem, hcb⟩
  · exact .inl (hcb ▸ hmem)

omit [Scalar α] in
/-- `(bs.modify n f).map g = bs.map g`: a list with one element changed looks the same to what the
change does not touch. -/
theorem map_modify {β γ : Type} {f : β → β} {g : β → γ} (hg : ∀ b, g (f b) = g b) (n : Nat)
    (bs : List β) : (bs.modify n f).map g = bs.map g := by
  refine List.ext_getElem? fun i => ?_
  rw [List.getElem?_map, List.getElem?_map, List.getElem?_modify, Option.map_eq_map,
    Option.map_map]
  refine congrArg (Option.map · bs[i]?) (funext fun b => ?_)
  rw [Function.comp_apply]
  split
  · exact hg b
  · rfl

namespace WellFormed

variable {r : Roster α} {e : Entity α}

/-- **One more entity keeps a roster as it should be**: `(r.add e source).1.WellFormed`. -/
theorem add (h : r.WellFormed) (he : e.WellFormed) (htold : r.mergeBy.of e.identity = e.key)
    (source : Option String) : (r.add e source).1.WellFormed := by
  unfold Roster.add
  split
  · -- into the entry of its key, which keeps its identity
    rename_i n hn
    have hkey : ∀ x : Entry α, (x.merge source e).entity.key = x.entity.key := fun x =>
      congrArg Identity.key (Entry.identity_merge x source e)
    refine ⟨fun x hx => ?_, ?_, fun x hx => ?_⟩
    · rcases mem_modify hx with hx | ⟨y, hy, rfl⟩
      · exact h.entities x hx
      · exact Entry.wellFormed_merge (h.entities y hy) source he
    · rw [map_modify hkey]
      exact h.keys
    · rcases mem_modify hx with hx | ⟨y, hy, rfl⟩
      · exact h.told x hx
      · rw [hkey, Entry.identity_merge]
        exact h.told y hy
  · -- at the end, where no entry has its key
    rename_i hnone
    have hnew : ∀ x ∈ r.entries, x.entity.key ≠ e.key := by
      intro x hx heq
      have hne := List.findIdx?_eq_none_iff.1 hnone x hx
      rw [h.told x hx, htold, heq, beq_self_eq_true] at hne
      exact Bool.noConfusion hne
    refine ⟨fun x hx => ?_, ?_, fun x hx => ?_⟩
    · rcases List.mem_append.1 hx with hx | hx
      · exact h.entities x hx
      · rw [List.mem_singleton.1 hx]
        exact he
    · rw [List.map_append]
      refine List.nodup_append.2
        ⟨h.keys, List.pairwise_singleton _ _, fun key hkey key' hkey' => ?_⟩
      -- the new key is none of the others
      obtain ⟨x, hx, rfl⟩ := List.mem_map.1 hkey
      rw [List.mem_singleton.1 hkey']
      exact hnew x hx
    · rcases List.mem_append.1 hx with hx | hx
      · exact h.told x hx
      · rw [List.mem_singleton.1 hx]
        exact htold

/-- `(r.add e source).1.mergeBy = r.mergeBy`: one more entity changes nothing about what tells
entities apart. -/
theorem mergeBy_add (r : Roster α) (e : Entity α) (source : Option String) :
    (r.add e source).1.mergeBy = r.mergeBy := by
  unfold Roster.add
  split
  · rfl
  · rfl

/-- **More entities keep a roster as it should be**:
`(r.addAll es source).WellFormed ∧ (r.addAll es source).mergeBy = r.mergeBy`. -/
theorem addAll (h : r.WellFormed) {es : List (Entity α)} (hes : ∀ e ∈ es, e.WellFormed)
    (htold : ∀ e ∈ es, r.mergeBy.of e.identity = e.key) (source : Option String) :
    (r.addAll es source).WellFormed ∧ (r.addAll es source).mergeBy = r.mergeBy := by
  unfold Roster.addAll
  -- what tells entities apart stays the same, and so is given for the next one too
  induction es generalizing r with
  | nil => exact ⟨h, rfl⟩
  | cons e es ih =>
    have hsame := mergeBy_add r e source
    have hnext := h.add (hes e List.mem_cons_self) (htold e List.mem_cons_self) source
    obtain ⟨hall, hmergeBy⟩ := ih hnext (fun x hx => hes x (List.mem_cons_of_mem _ hx))
      fun x hx => hsame ▸ htold x (List.mem_cons_of_mem _ hx)
    exact ⟨hall, hmergeBy.trans hsame⟩

end WellFormed

end PanelQuery.Roster
