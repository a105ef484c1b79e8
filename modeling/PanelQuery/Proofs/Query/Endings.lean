import PanelQuery.Proofs.Panel.Cuts
import PanelQuery.Proofs.Query.Dialogues

/-! # What ends an evaluation

Of all that may go wrong with a step, two things are not left as a note on its node: a call that is
answered as cancelled, and a computation that is stopped. The first one depends on the calls alone,
the second one on the inputs alone.

* **`Dialogue.EndsOn`** — dialogues that end with an error just when some call has an answer of a
  kind;
* **`Step.Stops`, `Engine.Stops`** — the steps and nodes at which a computation is stopped;
* **`Step.converse_ends`** — a step is cancelled just when one of its calls is, and is stopped just
  when `Step.Stops` says so;
* **`Engine.converse_ends`** — the same of nodes, which end with no other error. -/

namespace PanelQuery

/-! ## (1) Dialogues that end on answers of a kind -/

/-- `(∃ y ∈ [x], kind y) ↔ kind x`: of one call, some have an answer of a kind when it has. -/
theorem Exchange.exists_mem_singleton {kind : Exchange → Prop} {x : Exchange} :
    (∃ y ∈ [x], kind y) ↔ kind x := by
  simp only [List.mem_singleton, exists_eq_left]

namespace Dialogue

variable {ε ε' β γ : Type} {cause : ε} {kind : Exchange → Prop}

/-- A dialogue that ends with `cause` just when one of its calls has an answer of a kind. -/
def EndsOn (cause : ε) (kind : Exchange → Prop) (d : Dialogue ε β) : Prop :=
  ∀ xs r, d.Held xs r → (r = .error cause ↔ ∃ x ∈ xs, kind x)

/-- Without calls there is no such end: `(done r).EndsOn cause kind`. -/
theorem EndsOn.done {r : Except ε β} (h : r ≠ .error cause) : (done r).EndsOn cause kind := by
  rintro xs r' ⟨⟩
  exact iff_of_false h fun ⟨x, hx, _⟩ => List.not_mem_nil hx

/-- A value without calls: `(Dialogue.done (.ok b)).EndsOn cause kind`. -/
theorem EndsOn.pure (b : β) : (Dialogue.done (.ok b)).EndsOn cause kind :=
  .done fun heq => nomatch heq

/-- One call for members:
`(Dialogue.members set fun answer => .done (f answer)).EndsOn cause kind`. -/
theorem EndsOn.members {set : Argument} {f : Except FetchError (List Identity) → Except ε β}
    (hf : ∀ answer, f answer = .error cause ↔ kind (.members set answer)) :
    (Dialogue.members set fun answer => .done (f answer)).EndsOn cause kind := by
  rintro xs r (_ | _ | @⟨_, _, answer, xs, _, ⟨⟩⟩)
  rw [hf, Exchange.exists_mem_singleton]

/-- One call for a series:
`(Dialogue.series key field fun answer => .done (f answer)).EndsOn cause kind`. -/
theorem EndsOn.series {key : String} {field : Argument} {f : Except FetchError Fetched → Except ε β}
    (hf : ∀ answer, f answer = .error cause ↔ kind (.series key field answer)) :
    (Dialogue.series key field fun answer => .done (f answer)).EndsOn cause kind := by
  rintro xs r (_ | @⟨_, _, _, answer, xs, _, ⟨⟩⟩ | _)
  rw [hf, Exchange.exists_mem_singleton]

/-- One such dialogue after another: `(d >>= f).EndsOn cause kind`. -/
theorem EndsOn.bind {d : Dialogue ε β} {f : β → Dialogue ε γ} (h : d.EndsOn cause kind)
    (hf : ∀ b, (f b).EndsOn cause kind) : (d >>= f).EndsOn cause kind := by
  intro xs r hheld
  obtain ⟨b, before, after, hfirst, hsecond, rfl⟩ | ⟨c, hfirst, rfl⟩ := hheld.of_bind
  · -- the first one has ended well, so none of its calls had such an answer
    have hbefore : ¬∃ x ∈ before, kind x := by
      rw [← h before _ hfirst]
      exact fun heq => nomatch heq
    rw [hf b after r hsecond]
    constructor
    · rintro ⟨x, hx, hkind⟩
      exact ⟨x, List.mem_append_right _ hx, hkind⟩
    · rintro ⟨x, hx, hkind⟩
      rcases List.mem_append.1 hx with hx | hx
      · exact absurd ⟨x, hx, hkind⟩ hbefore
      · exact ⟨x, hx, hkind⟩
  · rw [← h xs _ hfirst, Except.error.injEq, Except.error.injEq]

/-- One such dialogue for each element of a list, each going on from the one before:
`(bs.foldlM f c).EndsOn cause kind`. -/
theorem EndsOn.foldlM {f : γ → β → Dialogue ε γ} (hf : ∀ c b, (f c b).EndsOn cause kind)
    (c : γ) (bs : List β) : (bs.foldlM f c).EndsOn cause kind := by
  induction bs generalizing c with
  | nil => exact .pure _
  | cons b bs ih =>
    rw [List.foldlM_cons]
    exact (hf c b).bind fun c => ih c

/-- One such dialogue for each element of a list: `(bs.mapM' f).EndsOn cause kind`. -/
theorem EndsOn.mapM' {f : β → Dialogue ε γ} (hf : ∀ b, (f b).EndsOn cause kind)
    (bs : List β) : (bs.mapM' f).EndsOn cause kind := by
  induction bs with
  | nil => exact .pure _
  | cons b bs ih =>
    rw [List.mapM'_cons]
    exact (hf b).bind fun c => ih.bind fun cs => .pure _

end Dialogue

/-! ## (2) Steps that are stopped -/

/-- The errors of steps that end the whole evaluation. -/
def StepError.Fatal : StepError → Prop
  | cancelled => True
  | stopped => True
  | _ => False

/-- `Step.Stops platform inputs`: a step at which the computation is stopped. Event alignment is
stopped by an instant that cannot be named, and a formula by an index without 64 bits, in a build
that stops there. -/
def Step.Stops (platform : Platform) (inputs : List (Panel Float)) : Step → Prop
  | eventAlign w => ∃ p, inputs.head? = some p ∧ ¬p.EpisodesFit w platform.zone
  | formula text => platform.overflow = .stops ∧ ∃ p program,
      inputs.head? = some p ∧ Formula.compile text = .ok program ∧ p.stopsOn program = true
  | _ => False

section Computing

variable {platform : Platform} {inputs : List (Panel Float)} {cause : StepError}

/-- What a computation on the first input ends with: `(firstInput name inputs >>= f) = .error cause`
just when `∃ p, inputs.head? = some p ∧ f p = .error cause`. A missing input is not fatal. -/
theorem firstInput_bind_eq_error {β : Type} {name : String} {f : Panel Float → Except StepError β}
    (hcause : cause.Fatal) :
    (firstInput name inputs >>= f) = .error cause ↔
      ∃ p, inputs.head? = some p ∧ f p = .error cause := by
  cases inputs with
  | nil =>
    refine iff_of_false (fun heq => ?_) (fun ⟨_, hp, _⟩ => nomatch hp)
    obtain rfl := Except.error.inj heq
    exact hcause
  | cons p rest => simp [firstInput, bind, Except.bind]

/-- A computation on the first input that has a result ends with no fatal error:
`(firstInput name inputs >>= fun p => pure (f p)) ≠ .error cause`. -/
theorem firstInput_bind_ne {β : Type} {name : String} {f : Panel Float → β}
    (hcause : cause.Fatal) :
    (firstInput name inputs >>= fun p => pure (f p)) ≠ .error cause := by
  rw [Ne, firstInput_bind_eq_error hcause]
  exact fun ⟨_, _, heq⟩ => nomatch heq

/-- A computation on two inputs that has a result ends with no fatal error:
`(twoInputs name inputs >>= fun p => pure (f p)) ≠ .error cause`. -/
theorem twoInputs_bind_ne {β : Type} {name : String} {f : Panel Float × Panel Float → β}
    (hcause : cause.Fatal) : (twoInputs name inputs >>= fun p => pure (f p)) ≠ .error cause := by
  unfold twoInputs
  split
  · exact fun heq => nomatch heq
  · intro heq
    obtain rfl := Except.error.inj heq
    exact hcause

/-- `p.alignEpisodesIn w zone = .error cause ↔ cause = .stopped ∧ ¬p.EpisodesFit w zone`: event
alignment has no result just when some instant cannot be named. -/
theorem Panel.alignEpisodesIn_eq_error {p : Panel Float} {w : Episode.Window} {zone : Zone} :
    p.alignEpisodesIn w zone = .error cause ↔ cause = .stopped ∧ ¬p.EpisodesFit w zone := by
  have hfits := (p.alignEpisodes_yields w zone).exists_iff
  unfold alignEpisodesIn
  split
  next aligned haligned =>
    refine iff_of_false (fun heq => nomatch heq) fun h => h.2 ?_
    exact hfits.1 ⟨aligned, haligned⟩
  next hnone =>
    -- there is no panel, so some instant cannot be named
    have hnot : ¬p.EpisodesFit w zone := by
      rw [← hfits, hnone]
      exact fun ⟨_, heq⟩ => nomatch heq
    rw [and_iff_left hnot, Except.error.injEq, eq_comm]

/-- Of fatal errors a formula ends with an overflow only: `p.applyFormulaText text o = .error cause`
just when `cause = .stopped`, `o = .stops` and
`∃ program, Formula.compile text = .ok program ∧ p.stopsOn program = true`. -/
theorem Panel.applyFormulaText_eq_error {p : Panel Float} {text : String} {o : Overflow}
    (hcause : cause.Fatal) : p.applyFormulaText text o = .error cause ↔ cause = .stopped ∧
      o = .stops ∧ ∃ program, Formula.compile text = .ok program ∧ p.stopsOn program = true := by
  unfold applyFormulaText
  cases hprogram : Formula.compile text with
  | error cause' =>
    refine iff_of_false (fun heq => ?_) fun ⟨_, _, _, h, _⟩ => nomatch h
    obtain rfl := Except.error.inj heq
    exact hcause
  | ok program =>
    dsimp only
    simp only [Except.ok.injEq, exists_eq_left']
    by_cases hstops : o = .stops ∧ p.stopsOn program = true
    · rw [if_pos hstops, and_iff_left hstops, Except.error.injEq, eq_comm]
    · rw [if_neg hstops]
      exact iff_of_false (fun heq => nomatch heq) fun h => hstops h.2

/-- **A step that makes no calls** ends with no fatal error unless it is stopped:
`step.compute platform .cancelled inputs = .error cause` just when
`cause = .stopped ∧ step.Stops platform inputs`. -/
theorem Step.compute_eq_error {step : Step} (hcause : cause.Fatal)
    (hsets : ∀ sets, step ≠ .resolveEntities sets) (hweight : ∀ field, step ≠ .fetchWeight field)
    (hfields : ∀ fields, step ≠ .fetchFields fields) :
    step.compute platform .cancelled inputs = .error cause ↔
      cause = .stopped ∧ step.Stops platform inputs := by
  cases step with
  | resolveEntities sets => exact absurd rfl (hsets sets)
  | fetchWeight field => exact absurd rfl (hweight field)
  | fetchFields fields => exact absurd rfl (hfields fields)
  | eventAlign w =>
    unfold compute Stops
    rw [firstInput_bind_eq_error hcause]
    simp only [Panel.alignEpisodesIn_eq_error]
    tauto
  | formula text =>
    unfold compute Stops
    rw [firstInput_bind_eq_error hcause]
    simp only [Panel.applyFormulaText_eq_error hcause, ← exists_and_left]
    tauto
  | setAlgebra op => exact iff_of_false (twoInputs_bind_ne hcause) fun h => h.2
  | regression kind window => exact iff_of_false (twoInputs_bind_ne hcause) fun h => h.2
  | identity => exact iff_of_false (fun heq => nomatch heq) fun h => h.2
  | _ => exact iff_of_false (firstInput_bind_ne hcause) fun h => h.2

end Computing

/-! ## (3) Steps -/

section Steps

variable {cause : StepError}

/-- `CancelledAs cause x`: of a fatal error, the answer that the request was cancelled. -/
abbrev CancelledAs (cause : StepError) (x : Exchange) : Prop := cause = .cancelled ∧ x.Cancelled

/-- `f answer = .error cause ↔ cause = .cancelled ∧ answer = .error .cancelled`: what a step makes
of an answer, when only a cancelled one gives an error, that error. -/
theorem eq_error_iff {β γ : Type} {f : Except FetchError β → Except StepError γ}
    (hok : ∀ b, ∃ c, f (.ok b) = .ok c)
    (hnotFound : ∀ entity field, ∃ c, f (.error (.notFound entity field)) = .ok c)
    (hunavailable : ∀ reason, ∃ c, f (.error (.unavailable reason)) = .ok c)
    (hcancelled : f (.error .cancelled) = .error .cancelled) (answer : Except FetchError β) :
    f answer = .error cause ↔ cause = .cancelled ∧ answer = .error .cancelled := by
  have hfalse : ∀ {r : Except StepError γ}, (∃ c, r = .ok c) → r ≠ .error cause := by
    rintro _ ⟨c, rfl⟩ heq
    cases heq
  cases answer with
  | ok b => exact iff_of_false (hfalse (hok b)) fun h => nomatch h.2
  | error fault =>
    cases fault with
    | notFound entity field =>
      exact iff_of_false (hfalse (hnotFound entity field)) fun h => nomatch h.2
    | unavailable reason =>
      exact iff_of_false (hfalse (hunavailable reason)) fun h => nomatch h.2
    | cancelled => rw [hcancelled, Except.error.injEq, and_iff_left rfl, eq_comm]

/-- The members of a set: `(converseSet acc set).EndsOn cause (CancelledAs cause)`. -/
theorem converseSet_endsOn (acc : Roster Float × List String) (set : Argument) :
    (converseSet acc set).EndsOn cause (CancelledAs cause) :=
  .members <| eq_error_iff (fun _ => ⟨_, rfl⟩) (fun _ _ => ⟨_, rfl⟩) (fun _ => ⟨_, rfl⟩) rfl

/-- A field of an entity: `(converseField acc field).EndsOn cause (CancelledAs cause)`. -/
theorem converseField_endsOn (acc : Entity Float × List String) (field : Argument) :
    (converseField acc field).EndsOn cause (CancelledAs cause) :=
  .series <| eq_error_iff (fun _ => ⟨_, rfl⟩) (fun _ _ => ⟨_, rfl⟩) (fun _ => ⟨_, rfl⟩) rfl

/-- The weight of an entity: `(converseWeight field e).EndsOn cause (CancelledAs cause)`. -/
theorem converseWeight_endsOn (field : Argument) (e : Entity Float) :
    (converseWeight field e).EndsOn cause (CancelledAs cause) :=
  .series <| eq_error_iff (fun _ => ⟨_, rfl⟩) (fun _ _ => ⟨_, rfl⟩) (fun _ => ⟨_, rfl⟩) rfl

/-- A dialogue for each entity of the first input: `(Dialogue.done (firstInput name inputs) >>= fun
p => p.converse f).EndsOn cause (CancelledAs cause)`. -/
theorem firstInput_converse_endsOn (hcause : cause.Fatal) (name : String)
    (inputs : List (Panel Float))
    {f : Entity Float → Dialogue StepError (Entity Float × List String)}
    (hf : ∀ e, (f e).EndsOn cause (CancelledAs cause)) :
    (Dialogue.done (firstInput name inputs) >>= fun p => p.converse f).EndsOn cause
      (CancelledAs cause) := by
  have hinput : firstInput name inputs ≠ .error cause := by
    cases inputs with
    | nil =>
      intro heq
      obtain rfl := Except.error.inj heq
      exact hcause
    | cons p inputs => exact fun heq => nomatch heq
  exact (Dialogue.EndsOn.done hinput).bind fun p =>
    (Dialogue.EndsOn.mapM' hf p.entities).bind fun _ => .pure _

/-- **What steps end with**: a step is cancelled just when one of its calls is, and is stopped just
when `Step.Stops` says so. -/
theorem Step.converse_ends {platform : Platform} {inputs : List (Panel Float)} {step : Step}
    {xs : List Exchange} {r : Except StepError (Panel Float)} (hcause : cause.Fatal)
    (h : (step.converse platform inputs).Held xs r) :
    r = .error cause ↔ (cause = .cancelled ∧ ∃ x ∈ xs, x.Cancelled) ∨
      (cause = .stopped ∧ step.Stops platform inputs) := by
  -- a step that makes calls is not stopped
  have hcalls : (step.converse platform inputs).EndsOn cause (CancelledAs cause) →
      ¬step.Stops platform inputs → (r = .error cause ↔
        (cause = .cancelled ∧ ∃ x ∈ xs, x.Cancelled) ∨
          (cause = .stopped ∧ step.Stops platform inputs)) := by
    intro hends hnot
    rw [hends xs r h, or_iff_left fun hstops => hnot hstops.2]
    simp only [and_left_comm, exists_and_left]
  -- and one that makes none is not cancelled
  have hpure : (step.converse platform inputs = .done (step.compute platform .cancelled inputs)) →
      (∀ sets, step ≠ .resolveEntities sets) → (∀ field, step ≠ .fetchWeight field) →
      (∀ fields, step ≠ .fetchFields fields) → (r = .error cause ↔
        (cause = .cancelled ∧ ∃ x ∈ xs, x.Cancelled) ∨
          (cause = .stopped ∧ step.Stops platform inputs)) := by
    intro hdone hsets hweight hfields
    rw [hdone] at h
    cases h
    rw [compute_eq_error hcause hsets hweight hfields, or_iff_right]
    exact fun ⟨_, x, hx, _⟩ => List.not_mem_nil hx
  cases step with
  | resolveEntities sets =>
    refine hcalls ?_ id
    exact (Dialogue.EndsOn.foldlM converseSet_endsOn _ sets).bind fun acc => .pure _
  | fetchWeight field =>
    exact hcalls (firstInput_converse_endsOn hcause "Data" inputs (converseWeight_endsOn field)) id
  | fetchFields fields =>
    refine hcalls (firstInput_converse_endsOn hcause "Data" inputs fun e => ?_) id
    exact .foldlM converseField_endsOn (e, []) fields
  | _ =>
    exact hpure rfl (fun _ => Step.noConfusion) (fun _ => Step.noConfusion)
      fun _ => Step.noConfusion

end Steps

/-! ## (4) Nodes -/

namespace Engine

variable {e : Engine} {path : Path} {n : Node} {os : List Outcome} {xs : List Exchange}
  {r : Except QueryError Outcome}

/-- `Stops e n children`: a node at which the computation is stopped, given the outcomes of its
children. -/
def Stops (e : Engine) (n : Node) (children : List Outcome) : Prop :=
  ∃ step notes, e.stepOf n = .ok (step, notes) ∧
    step.Stops e.platform (children.map Outcome.panel)

/-- What a node comes to is an error just when its step ends with one that is fatal:
`conclude path n os step notes r = .error cause` just when
`(r = .error .cancelled ∧ cause = .cancelled) ∨ (r = .error .stopped ∧ cause = .stopped)`. -/
theorem conclude_eq_error {step : Step} {notes : List String} {r : Except StepError (Panel Float)}
    {cause : QueryError} : conclude path n os step notes r = .error cause ↔
      (r = .error .cancelled ∧ cause = .cancelled) ∨ (r = .error .stopped ∧ cause = .stopped) := by
  unfold conclude
  split
  · simp
  · simp [eq_comm]
  · simp [eq_comm]
  · rename_i cause' hcancelled hstopped
    refine iff_of_false (fun heq => nomatch heq) ?_
    rintro (⟨heq, -⟩ | ⟨heq, -⟩)
    · exact hcancelled (Except.error.inj heq)
    · exact hstopped (Except.error.inj heq)

/-- What a node ends with, given the outcomes of its children and its own calls. -/
structure EndsAs (e : Engine) (n : Node) (os : List Outcome) (xs : List Exchange)
    (r : Except QueryError Outcome) : Prop where
  /-- It is cancelled just when one of its calls is. -/
  cancelled : r = .error .cancelled ↔ ∃ x ∈ xs, x.Cancelled
  stopped : r = .error .stopped ↔ e.Stops n os
  /-- There is no other error. -/
  only : ∀ cause, r = .error cause → cause = .cancelled ∨ cause = .stopped

/-- **What a node that has a step ends with**: `e.EndsAs n os xs r`. -/
theorem converse_ends (hstep : ∃ prepared, e.stepOf n = .ok prepared)
    (h : (e.converse path n os).Held xs r) : e.EndsAs n os xs r := by
  obtain ⟨⟨step, notes⟩, hstep⟩ := hstep
  unfold converse at h
  rw [hstep] at h
  obtain ⟨result, hheld, rfl⟩ := h.of_settle
  have hstops : e.Stops n os ↔ step.Stops e.platform (os.map Outcome.panel) := by
    constructor
    · rintro ⟨step', notes', hstep', hstops⟩
      obtain ⟨rfl, -⟩ := Prod.mk.inj (Except.ok.inj (hstep.symm.trans hstep'))
      exact hstops
    · exact fun hstops => ⟨step, notes, hstep, hstops⟩
  have hcancelled : StepError.Fatal .cancelled := trivial
  have hstopped : StepError.Fatal .stopped := trivial
  constructor
  case cancelled =>
    rw [conclude_eq_error, Step.converse_ends hcancelled hheld, Step.converse_ends hstopped hheld]
    simp
  case stopped =>
    rw [conclude_eq_error, Step.converse_ends hcancelled hheld, Step.converse_ends hstopped hheld,
      hstops]
    simp
  case only =>
    intro cause hcause
    rcases conclude_eq_error.1 hcause with ⟨-, rfl⟩ | ⟨-, rfl⟩
    · exact .inl rfl
    · exact .inr rfl

end Engine

end PanelQuery
