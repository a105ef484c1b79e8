import PanelQuery.Proofs.Panel.Aggregation
import PanelQuery.Proofs.Panel.Operations
import PanelQuery.Proofs.Query.Executions

/-! # Queries have well-formed results

Whatever a query is, whatever the sources answer, and in whatever order nodes are computed, its
result is a well-formed panel, as long as the series of the answers are in order.

* **`Exchange.Increasing`, `Sources.Increasing`** — what is asked of answers;
* **`Step.converse_wellFormed`** — every step keeps panels well-formed;
* **`Engine.converse_wellFormed`, `Engine.Reaches.wellFormed`** — a node whose children have
  well-formed panels has one, and so has every node of a query;
* **`Engine.execute_wellFormed`** — the result of a query. -/

namespace PanelQuery

/-- A fetched series is in order. -/
def Exchange.Increasing : Exchange → Prop
  | series _ _ answer => ∀ f, answer = .ok f → f.series.Increasing
  | members _ _ => True

/-- Sources whose series are in order. -/
def Sources.Increasing (s : Sources) : Prop :=
  ∀ key field f, s.series key field = .ok f → f.series.Increasing

/-- The answers of such sources: `x.Increasing`. -/
theorem Exchange.AnsweredBy.increasing {sources : Sources} {x : Exchange}
    (h : x.AnsweredBy sources) (hs : sources.Increasing) : x.Increasing := by
  cases x with
  | series key field answer => exact fun f hf => hs key field f (h.symm.trans hf)
  | members set answer => trivial

/-! ## (1) Steps that ask sources -/

section Fetching

/-- A fetched series under its display name: `f.field.Increasing`. -/
theorem Fetched.increasing_field {f : Fetched} (h : f.series.Increasing) : f.field.Increasing := by
  unfold Fetched.field
  split
  · exact h
  · exact h

/-- One more set of entities keeps a roster as it should be: `(converseSet acc set).Ensures
Exchange.Increasing fun acc => acc.1.WellFormed ∧ acc.1.mergeBy = .key`. -/
theorem converseSet_wellFormed {acc : Roster Float × List String}
    (h : acc.1.WellFormed ∧ acc.1.mergeBy = .key) (set : Argument) :
    (converseSet acc set).Ensures Exchange.Increasing
      fun acc => acc.1.WellFormed ∧ acc.1.mergeBy = .key := by
  obtain ⟨hroster, hkey⟩ := h
  refine .members fun answer _ => ?_
  unfold resolveSet
  dsimp only
  split
  · rename_i members hmembers
    have hnew : ∀ e ∈ members.map fun i => ({ identity := i } : Entity Float), e.WellFormed := by
      intro e he
      obtain ⟨i, -, rfl⟩ := List.mem_map.1 he
      exact .ofIdentity i
    obtain ⟨hall, hsame⟩ := hroster.addAll hnew (fun e _ => by rw [hkey]; rfl) none
    exact ⟨hall, hsame.trans hkey⟩
  · trivial
  · exact ⟨hroster, hkey⟩

/-- **Entities** of the inputs and of sets:
`(converseEntities sets inputs).Ensures Exchange.Increasing Panel.WellFormed`. -/
theorem converseEntities_wellFormed (sets : List Argument) {inputs : List (Panel Float)}
    (h : ∀ p ∈ inputs, p.WellFormed) :
    (converseEntities sets inputs).Ensures Exchange.Increasing Panel.WellFormed := by
  -- first the entities of the inputs, then those of the sets, into one roster
  have hpresent : ((Roster.empty .key).addAll (inputs.flatMap Panel.entities) none).WellFormed ∧
      ((Roster.empty .key).addAll (inputs.flatMap Panel.entities) none).mergeBy = .key := by
    refine (Roster.wellFormed_empty .key).addAll (fun e he => ?_) (fun e _ => rfl) none
    obtain ⟨p, hp, he⟩ := List.mem_flatMap.1 he
    exact (h p hp).entities e he
  unfold converseEntities
  refine (Dialogue.Ensures.foldlM (fun acc set hacc => converseSet_wellFormed hacc set) ?_
    sets).bind ?_
  · exact hpresent
  · rintro ⟨roster, problems⟩ ⟨hroster, -⟩
    exact .done (hroster.panel rfl)

/-- Entities that are made of others one by one, and keep their keys:
`(∀ e ∈ results.map Prod.fst, e.WellFormed)` and
`(results.map Prod.fst).map Entity.key = es.map Entity.key`. -/
theorem Entity.WellFormed.of_forall₂ {es : List (Entity Float)}
    {results : List (Entity Float × List String)}
    (h : List.Forall₂ (fun e r => (e.WellFormed → r.1.WellFormed) ∧ r.1.key = e.key) es results)
    (hes : ∀ e ∈ es, e.WellFormed) : (∀ e ∈ results.map Prod.fst, e.WellFormed) ∧
      (results.map Prod.fst).map Entity.key = es.map Entity.key := by
  induction h with
  | nil => exact ⟨List.forall_mem_nil _, rfl⟩
  | cons hr _ ih =>
    obtain ⟨he, hes⟩ := List.forall_mem_cons.1 hes
    obtain ⟨hresults, hkeys⟩ := ih hes
    refine ⟨List.forall_mem_cons.2 ⟨hr.1 he, hresults⟩, ?_⟩
    rw [List.map_cons, List.map_cons, List.map_cons, hr.2, hkeys]

/-- A panel whose entities are changed one by one, and keep their keys:
`(p.converse f).Ensures Exchange.Increasing Panel.WellFormed`. -/
theorem Panel.WellFormed.converse {p : Panel Float} (h : p.WellFormed)
    {f : Entity Float → Dialogue StepError (Entity Float × List String)}
    (hf : ∀ e, (f e).Ensures Exchange.Increasing
      fun r => (e.WellFormed → r.1.WellFormed) ∧ r.1.key = e.key) :
    (p.converse f).Ensures Exchange.Increasing Panel.WellFormed := by
  refine (Dialogue.Ensures.mapM' hf p.entities).bind fun results hresults => .done ?_
  obtain ⟨hentities, hkeys⟩ := Entity.WellFormed.of_forall₂ hresults h.entities
  exact ⟨hentities, hkeys ▸ h.keys⟩

/-- One more fetched field: `(converseField acc field).Ensures Exchange.Increasing fun r =>
(acc.1.WellFormed → r.1.WellFormed) ∧ r.1.key = acc.1.key`. -/
theorem converseField_wellFormed (acc : Entity Float × List String) (field : Argument) :
    (converseField acc field).Ensures Exchange.Increasing
      fun r => (acc.1.WellFormed → r.1.WellFormed) ∧ r.1.key = acc.1.key := by
  refine .series fun answer hanswer => ?_
  unfold fetchField
  dsimp only
  split
  · rename_i f hf
    exact ⟨fun h => h.pushField (Fetched.increasing_field (hanswer f hf)), rfl⟩
  · trivial
  · -- an empty field
    exact ⟨fun h => h.pushField (Series.increasing_ofWrites _ []), rfl⟩

/-- **Fetched fields**: `(fields.foldlM converseField (e, [])).Ensures Exchange.Increasing fun r =>
(e.WellFormed → r.1.WellFormed) ∧ r.1.key = e.key`. So far, an entity is as it should be if it was
at first. -/
theorem converseFields_wellFormed (fields : List Argument) (e : Entity Float) :
    (fields.foldlM converseField (e, [])).Ensures Exchange.Increasing
      fun r => (e.WellFormed → r.1.WellFormed) ∧ r.1.key = e.key := by
  refine Dialogue.Ensures.foldlM (fun acc field hacc => ?_) ⟨id, rfl⟩ fields
  exact (converseField_wellFormed acc field).mono fun r hr =>
    ⟨fun he => hr.1 (hacc.1 he), hr.2.trans hacc.2⟩

/-- **A fetched weight**: `(converseWeight field e).Ensures Exchange.Increasing fun r =>
(e.WellFormed → r.1.WellFormed) ∧ r.1.key = e.key`. -/
theorem converseWeight_wellFormed (field : Argument) (e : Entity Float) :
    (converseWeight field e).Ensures Exchange.Increasing
      fun r => (e.WellFormed → r.1.WellFormed) ∧ r.1.key = e.key := by
  refine .series fun answer hanswer => ?_
  unfold fetchEntityWeight
  split
  · rename_i f hf
    exact ⟨fun he => he.setWeight (hanswer f hf), rfl⟩
  · trivial
  · exact ⟨id, rfl⟩

end Fetching

/-! ## (2) Steps -/

section Steps

variable {platform : Platform} {inputs : List (Panel Float)}

/-- The first input is one of the inputs:
`Meets (firstInput step inputs) Panel.WellFormed fun _ => True`. -/
theorem firstInput_wellFormed (step : String) (h : ∀ p ∈ inputs, p.WellFormed) :
    Meets (firstInput step inputs) Panel.WellFormed fun _ => True := by
  cases inputs with
  | nil => trivial
  | cons p rest => exact h p List.mem_cons_self

/-- The first two inputs are inputs: `Meets (twoInputs step inputs) (fun both => both.1.WellFormed ∧
both.2.WellFormed) fun _ => True`. -/
theorem twoInputs_wellFormed (step : String) (h : ∀ p ∈ inputs, p.WellFormed) :
    Meets (twoInputs step inputs) (fun both => both.1.WellFormed ∧ both.2.WellFormed)
      fun _ => True := by
  unfold twoInputs
  split
  · rename_i left right rest
    obtain ⟨hleft, hrest⟩ := List.forall_mem_cons.1 h
    exact ⟨hleft, hrest right List.mem_cons_self⟩
  · trivial

/-- A formula in the form of text, which may have no program:
`Meets (p.applyFormulaText text o) Panel.WellFormed fun _ => True`. -/
theorem Panel.WellFormed.applyFormulaText {p : Panel Float} (h : p.WellFormed) (text : String)
    (o : Overflow) : Meets (p.applyFormulaText text o) Panel.WellFormed fun _ => True := by
  unfold Panel.applyFormulaText
  split
  · rename_i program hprogram
    split
    · trivial
    · exact h.applyFormula program
  · trivial

/-- The panel of the episodes of a panel, which there may not be:
`Meets (p.alignEpisodesIn w zone) Panel.WellFormed fun _ => True`. -/
theorem Panel.wellFormed_alignEpisodesIn (p : Panel Float) (w : Episode.Window) (zone : Zone) :
    Meets (p.alignEpisodesIn w zone) Panel.WellFormed fun _ => True := by
  unfold alignEpisodesIn
  split
  · rename_i aligned haligned
    exact (wellFormed_alignEpisodes haligned).of_entities_eq rfl
  · trivial

/-- **Every step makes a well-formed panel of well-formed panels**:
`(step.converse platform inputs).Ensures Exchange.Increasing Panel.WellFormed`. -/
theorem Step.converse_wellFormed (h : ∀ p ∈ inputs, p.WellFormed) (step : Step) :
    (step.converse platform inputs).Ensures Exchange.Increasing Panel.WellFormed := by
  have hfirst : ∀ name, Meets (firstInput name inputs) Panel.WellFormed fun _ => True :=
    fun name => firstInput_wellFormed name h
  cases step with
  | resolveEntities sets => exact converseEntities_wellFormed sets h
  | fetchWeight field =>
    exact (Dialogue.Ensures.done (hfirst _)).bind fun p hp =>
      hp.converse (converseWeight_wellFormed field)
  | fetchFields fields =>
    exact (Dialogue.Ensures.done (hfirst _)).bind fun p hp =>
      hp.converse (converseFields_wellFormed fields)
  | timeWindow w => exact .done <| (hfirst _).bind fun p hp => hp.clip w
  | formula text =>
    exact .done <| (hfirst _).bind fun p hp => hp.applyFormulaText text platform.overflow
  | calendarAlign f => exact .done <| (hfirst _).bind fun p hp => hp.alignTo f
  | resample f => exact .done <| (hfirst _).bind fun p hp => hp.resampleTo f
  | rebalance f => exact .done <| (hfirst _).bind fun p hp => hp.rebalance f
  | eventAlign w => exact .done <| (hfirst _).bind fun p _ => p.wellFormed_alignEpisodesIn w _
  | aggregate r =>
    exact .done <| (hfirst _).bind fun p hp => (hp.aggregate r).of_entities_eq rfl
  | setAlgebra op =>
    exact .done <| (twoInputs_wellFormed _ h).bind fun both hboth =>
      Panel.wellFormed_setOperation hboth.1 hboth.2 op
  | regression kind window =>
    exact .done <| (twoInputs_wellFormed _ h).bind fun both hboth =>
      Panel.wellFormed_regress hboth.1 kind window both.2
  | transform kind window =>
    exact .done <| (hfirst _).bind fun p hp => hp.transform kind window
  | identity =>
    cases inputs with
    | nil => exact .done Panel.WellFormed.empty
    | cons p rest => exact .done (h p List.mem_cons_self)

end Steps

/-! ## (3) Queries -/

namespace Engine

variable {e : Engine} {root : Node} {title : Option String} {s : Stage}

/-- **A node whose children have well-formed panels has one.** A step that fails hands its first
input on: `(e.converse path n os).Ensures Exchange.Increasing fun o => o.panel.WellFormed`. -/
theorem converse_wellFormed (path : Path) (n : Node) {os : List Outcome}
    (h : ∀ o ∈ os, o.panel.WellFormed) :
    (e.converse path n os).Ensures Exchange.Increasing fun o => o.panel.WellFormed := by
  have hinputs : ∀ p ∈ os.map Outcome.panel, p.WellFormed := by
    intro p hp
    obtain ⟨o, ho, rfl⟩ := List.mem_map.1 hp
    exact h o ho
  unfold converse
  split
  · rename_i step notes hstep
    refine (step.converse_wellFormed hinputs).settle fun r hr => ?_
    unfold conclude
    split
    · exact Panel.WellFormed.of_entities_eq hr rfl
    · trivial
    · trivial
    · cases os with
      | nil => exact Panel.WellFormed.empty.of_entities_eq rfl
      | cons o rest => exact (h o List.mem_cons_self).of_entities_eq rfl
  · exact .done trivial

/-- **Every node of a query has a well-formed panel**, in whatever order the nodes are computed:
`o.panel.WellFormed`. -/
theorem Reaches.wellFormed (h : e.Reaches root Exchange.Increasing s) {path : Path} {o : Outcome}
    (ho : (path, o) ∈ s.completed) : o.panel.WellFormed := by
  obtain ⟨n, -, -, hn, -⟩ := h.computed path o ho
  refine h.outcomes (fun o _ _ => o.panel.WellFormed) (fun path n os own o hos hheld hown => ?_)
    path o n ho hn
  refine converse_wellFormed path n (fun o' ho' => ?_) own (.ok o) hheld hown
  obtain ⟨child, -, hchild⟩ := hos.exists_child ho'
  exact hchild

/-- **The result of every query is well-formed.** In whatever order the nodes are computed and
whatever the sources answer, as long as the series among the answers are in order, the result of
`Executes` is well-formed; so is that of `execute` with sources whose series are in order. -/
theorem execute_wellFormed (e : Engine) (root : Node) (title : Option String) {panel : Panel Float}
    {trace : Trace} :
    (∀ s, e.Executes root title s (.ok (panel, trace)) → (∀ x ∈ s.asked, x.Increasing) →
      panel.WellFormed) ∧
    (e.sources.Increasing → (e.execute root title).result = .ok (panel, trace) →
      panel.WellFormed) := by
  have hall : ∀ s, e.Executes root title s (.ok (panel, trace)) →
      (∀ x ∈ s.asked, x.Increasing) → panel.WellFormed := by
    intro s h hs
    obtain ⟨-, hreaches, o, ho, hresult⟩ := h.of_ok
    have hwell := (hreaches.restrict hs).wellFormed ho.mem_completed
    cases title with
    | none =>
      obtain ⟨rfl, -⟩ := Prod.mk.inj hresult
      exact hwell
    | some title =>
      obtain ⟨rfl, -⟩ := Prod.mk.inj hresult
      exact hwell.of_entities_eq rfl
  refine ⟨hall, fun hs hresult => ?_⟩
  -- the evaluation in order is one of these ways
  obtain ⟨s, hsequential, -, hexecutes⟩ := e.exists_executes_sequential root title
  rw [hresult] at hexecutes
  exact hall s hexecutes fun x hx => (hsequential.reaches.asked x hx).increasing hs

end Engine

/-! ### A library -/

/-- Where the series of a library are in order, so are those of its sources:
`(l.sources isCancelled).Increasing`. -/
theorem Library.increasing_sources {l : Library} (h : ∀ s ∈ l.series, s.2.Increasing)
    (isCancelled : Bool) : (l.sources isCancelled).Increasing := by
  intro key field f hf
  unfold sources at hf
  dsimp only at hf
  split at hf
  · cases hf
  cases isCancelled with
  | true => cases hf
  | false =>
    rw [if_neg Bool.false_ne_true] at hf
    dsimp only at hf
    unfold fetch at hf
    split at hf
    · rename_i s hs
      rw [← Except.ok.inj hf]
      obtain ⟨before, after, hseries, -⟩ := List.lookup_eq_some_iff.1 hs
      exact h ((key, _), s) (hseries ▸ List.mem_append_right _ List.mem_cons_self)
    · cases hf

/-- A library with the prices of one entity. -/
def Library.prices : Library :=
  { series := [(("a", "price"), ⟨.labelled "Price", [⟨0, 1⟩, ⟨1, 2⟩], false⟩)]
    sets := [("tech", [⟨"A", "a", false⟩])] }

/-- A query for the members of a set of entities. -/
def Node.tech : Node := ⟨.entities, [{ canonicalName := "Tech", kind := .entities }], []⟩

/-- A query for the prices of a set of entities. -/
def Node.prices : Node := ⟨.data, [{ canonicalName := "Price", kind := .data }], [.tech]⟩

/-- The prices of a library are the well-formed result of a query. -/
theorem Engine.execute_wellFormed_prices : ∃ panel trace s,
    (Engine.execute { sources := Library.prices.sources false } .prices none).result =
      .ok (panel, trace) ∧
    Engine.Executes { sources := Library.prices.sources false } .prices none s
      (.ok (panel, trace)) ∧
    (∀ x ∈ s.asked, x.Increasing) ∧ panel.entities.length = 1 ∧ panel.WellFormed := by
  have hs : (Library.prices.sources false).Increasing :=
    Library.increasing_sources (List.forall_mem_singleton.2 (by decide)) false
  have hlength : ((Engine.execute { sources := Library.prices.sources false } .prices
      none).result.toOption.map fun r => r.1.entities.length) = some 1 := by decide +kernel
  obtain ⟨s, hsequential, -, hexecutes⟩ := Engine.exists_executes_sequential
    { sources := Library.prices.sources false } .prices none
  have hasked : ∀ x ∈ s.asked, x.Increasing := fun x hx =>
    (hsequential.reaches.asked x hx).increasing hs
  cases hresult : (Engine.execute { sources := Library.prices.sources false } .prices
      none).result with
  | error cause =>
    rw [hresult] at hlength
    cases hlength
  | ok r =>
    rw [hresult] at hlength hexecutes
    exact ⟨r.1, r.2, s, rfl, hexecutes, hasked, Option.some.inj hlength,
      (Engine.execute_wellFormed _ .prices none).1 s hexecutes hasked⟩

end PanelQuery
