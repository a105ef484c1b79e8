import PanelQuery.Proofs.Meets
import PanelQuery.Query.Evaluation

/-! # Dialogues with sources

Sources need not answer by the arguments of a call alone: between two equal calls a request may be
cancelled, or an outage may end. What a node does is told here as a dialogue, which makes one call
after the other and goes on from whatever the answer is.

* **`Exchange`, `Dialogue`, `Dialogue.Held`** — a call with its answer, what goes on from answers,
  and the calls and the result of one way to hold a dialogue;
* **`Dialogue.Ensures`** — what the result satisfies, in whatever way a dialogue is held;
* **`Step.converse`, `Engine.converse`** — the steps and the nodes of a query as dialogues;
* **`Engine.answered_converse`** — what they come to when a call alone decides its answer. -/

namespace PanelQuery

/-! ## (1) Dialogues -/

/-- A call with its answer. -/
inductive Exchange where
  | series (key : String) (field : Argument) (answer : Except FetchError Fetched)
  | members (set : Argument) (answer : Except FetchError (List Identity))

namespace Exchange

/-- The answer is that the request was cancelled. -/
def Cancelled : Exchange → Prop
  | series _ _ answer => answer = .error .cancelled
  | members _ answer => answer = .error .cancelled

/-- The answer is that of sources. -/
def AnsweredBy (sources : Sources) : Exchange → Prop
  | series key field answer => answer = sources.series key field
  | members set answer => answer = sources.members set

end Exchange

/-- What makes one call after the other and goes on from each answer, up to a result. -/
inductive Dialogue (ε β : Type) where
  | done (result : Except ε β)
  | series (key : String) (field : Argument) (next : Except FetchError Fetched → Dialogue ε β)
  | members (set : Argument) (next : Except FetchError (List Identity) → Dialogue ε β)

namespace Dialogue

variable {ε ε' β γ : Type}

/-- `bind d f`: one dialogue after another, unless the first one ends with an error. -/
def bind (d : Dialogue ε β) (f : β → Dialogue ε γ) : Dialogue ε γ :=
  match d with
  | done (.ok b) => f b
  | done (.error cause) => done (.error cause)
  | series key field next => series key field fun answer => (next answer).bind f
  | members set next => members set fun answer => (next answer).bind f

instance : Monad (Dialogue ε) where
  pure b := done (.ok b)
  bind := Dialogue.bind

/-- A dialogue whose result, of whatever kind, is turned into another. -/
def settle (f : Except ε β → Except ε' γ) : Dialogue ε β → Dialogue ε' γ
  | done result => done (f result)
  | series key field next => series key field fun answer => (next answer).settle f
  | members set next => members set fun answer => (next answer).settle f

/-- The result of a dialogue with sources that answer by the arguments of a call alone. -/
def answered (sources : Sources) : Dialogue ε β → Except ε β
  | done result => result
  | series key field next => (next (sources.series key field)).answered sources
  | members set next => (next (sources.members set)).answered sources

/-- A way to hold a dialogue: the calls with their answers, and the result. -/
inductive Held : Dialogue ε β → List Exchange → Except ε β → Prop
  | done (r : Except ε β) : Held (done r) [] r
  | series {key : String} {field : Argument} {next : Except FetchError Fetched → Dialogue ε β}
      {answer : Except FetchError Fetched} {xs : List Exchange} {r : Except ε β}
      (h : Held (next answer) xs r) :
      Held (series key field next) (.series key field answer :: xs) r
  | members {set : Argument} {next : Except FetchError (List Identity) → Dialogue ε β}
      {answer : Except FetchError (List Identity)} {xs : List Exchange} {r : Except ε β}
      (h : Held (next answer) xs r) :
      Held (members set next) (.members set answer :: xs) r

/-! ## (2) What is held -/

/-- One dialogue after another is held as the first and then the second, or as the first alone when
it ends with an error:
`(∃ b before after, d.Held before (.ok b) ∧ (f b).Held after r ∧ xs = before ++ after)` or
`∃ cause, d.Held xs (.error cause) ∧ r = .error cause`. -/
theorem Held.of_bind {d : Dialogue ε β} {f : β → Dialogue ε γ} {xs : List Exchange}
    {r : Except ε γ} (h : (d >>= f).Held xs r) :
    (∃ b before after, d.Held before (.ok b) ∧ (f b).Held after r ∧ xs = before ++ after) ∨
      ∃ cause, d.Held xs (.error cause) ∧ r = .error cause := by
  change (d.bind f).Held xs r at h
  induction d generalizing xs with
  | done result =>
    cases result with
    | ok b => exact .inl ⟨b, [], xs, .done _, h, rfl⟩
    | error cause =>
      cases h
      exact .inr ⟨cause, .done _, rfl⟩
  | series key field next ih =>
    cases h with
    | series h =>
      obtain ⟨b, before, after, hfirst, hsecond, rfl⟩ | ⟨cause, hfirst, hr⟩ := ih _ h
      · exact .inl ⟨b, _ :: before, after, .series hfirst, hsecond, rfl⟩
      · exact .inr ⟨cause, .series hfirst, hr⟩
  | members set next ih =>
    cases h with
    | members h =>
      obtain ⟨b, before, after, hfirst, hsecond, rfl⟩ | ⟨cause, hfirst, hr⟩ := ih _ h
      · exact .inl ⟨b, _ :: before, after, .members hfirst, hsecond, rfl⟩
      · exact .inr ⟨cause, .members hfirst, hr⟩

/-- A settled dialogue is held as the dialogue is: `∃ r', d.Held xs r' ∧ r = f r'`. -/
theorem Held.of_settle {d : Dialogue ε β} {f : Except ε β → Except ε' γ} {xs : List Exchange}
    {r : Except ε' γ} (h : (d.settle f).Held xs r) : ∃ r', d.Held xs r' ∧ r = f r' := by
  induction d generalizing xs with
  | done result =>
    cases h
    exact ⟨result, .done _, rfl⟩
  | series key field next ih =>
    cases h with
    | series h =>
      obtain ⟨r', hheld, hr⟩ := ih _ h
      exact ⟨r', .series hheld, hr⟩
  | members set next ih =>
    cases h with
    | members h =>
      obtain ⟨r', hheld, hr⟩ := ih _ h
      exact ⟨r', .members hheld, hr⟩

/-- **Sources that answer by the arguments of a call alone leave one way** to hold a dialogue:
`d.answered sources = r`. -/
theorem Held.answered {d : Dialogue ε β} {xs : List Exchange} {r : Except ε β} (h : d.Held xs r)
    {sources : Sources} (hxs : ∀ x ∈ xs, x.AnsweredBy sources) : d.answered sources = r := by
  induction h with
  | done r => rfl
  | series _ ih =>
    obtain ⟨hx, hrest⟩ := List.forall_mem_cons.1 hxs
    obtain rfl := hx
    exact ih hrest
  | members _ ih =>
    obtain ⟨hx, hrest⟩ := List.forall_mem_cons.1 hxs
    obtain rfl := hx
    exact ih hrest

/-- `Follows answers before`: calls whose answers are those that are given after the calls so
far. -/
def Follows (answers : List Exchange → Sources) (before : List Exchange) :
    List Exchange → Prop
  | [] => True
  | x :: xs => x.AnsweredBy (answers before) ∧ Follows answers (before ++ [x]) xs

/-- **A dialogue can be held with sources of any kind**, whose answers may depend on all calls
before: `∃ xs r, d.Held xs r ∧ Follows answers before xs`. -/
theorem exists_held (d : Dialogue ε β) (answers : List Exchange → Sources)
    (before : List Exchange) : ∃ xs r, d.Held xs r ∧ Follows answers before xs := by
  induction d generalizing before with
  | done result => exact ⟨[], result, .done _, trivial⟩
  | series key field next ih =>
    obtain ⟨xs, r, hheld, hfollows⟩ := ih ((answers before).series key field)
      (before ++ [.series key field ((answers before).series key field)])
    exact ⟨_, r, .series hheld, rfl, hfollows⟩
  | members set next ih =>
    obtain ⟨xs, r, hheld, hfollows⟩ := ih ((answers before).members set)
      (before ++ [.members set ((answers before).members set)])
    exact ⟨_, r, .members hheld, rfl, hfollows⟩

/-- Answers that do not depend on the calls before: `∀ x ∈ xs, x.AnsweredBy sources`. -/
theorem Follows.answeredBy {sources : Sources} {before xs : List Exchange}
    (h : Follows (fun _ => sources) before xs) : ∀ x ∈ xs, x.AnsweredBy sources := by
  induction xs generalizing before with
  | nil => exact List.forall_mem_nil _
  | cons x xs ih => exact List.forall_mem_cons.2 ⟨h.1, ih h.2⟩

/-- `r = r'`: the answers to its calls leave a dialogue no choice. -/
theorem Held.unique {d : Dialogue ε β} {xs : List Exchange} {r r' : Except ε β} (h : d.Held xs r)
    (h' : d.Held xs r') : r = r' := by
  induction h with
  | done r =>
    cases h'
    rfl
  | series _ ih =>
    cases h' with
    | series h' => exact ih h'
  | members _ ih =>
    cases h' with
    | members h' => exact ih h'

/-! ## (3) What dialogues ensure -/

/-- However a dialogue is held, with answers of a kind: where it has a result, that satisfies
`post`. -/
def Ensures (kind : Exchange → Prop) (post : β → Prop) (d : Dialogue ε β) : Prop :=
  ∀ xs r, d.Held xs r → (∀ x ∈ xs, kind x) → Meets r post fun _ => True

section Ensures

variable {kind : Exchange → Prop} {post : β → Prop} {goal : γ → Prop}

/-- Without calls: `(done r).Ensures kind post`. -/
theorem Ensures.done {r : Except ε β} (h : Meets r post fun _ => True) :
    (done r).Ensures kind post := by
  rintro xs r' ⟨⟩ -
  exact h

/-- One call for members:
`(Dialogue.members set fun answer => .done (f answer)).Ensures kind post`. -/
theorem Ensures.members {set : Argument} {f : Except FetchError (List Identity) → Except ε β}
    (hf : ∀ answer, kind (.members set answer) → Meets (f answer) post fun _ => True) :
    (Dialogue.members set fun answer => .done (f answer)).Ensures kind post := by
  rintro xs r (_ | _ | @⟨_, _, answer, xs, _, ⟨⟩⟩) hkind
  exact hf answer (hkind _ List.mem_cons_self)

/-- One call for a series:
`(Dialogue.series key field fun answer => .done (f answer)).Ensures kind post`. -/
theorem Ensures.series {key : String} {field : Argument}
    {f : Except FetchError Fetched → Except ε β}
    (hf : ∀ answer, kind (.series key field answer) → Meets (f answer) post fun _ => True) :
    (Dialogue.series key field fun answer => .done (f answer)).Ensures kind post := by
  rintro xs r (_ | @⟨_, _, _, answer, xs, _, ⟨⟩⟩ | _) hkind
  exact hf answer (hkind _ List.mem_cons_self)

/-- **One dialogue after another**: the second goes on from what the first ensures.
`(d >>= f).Ensures kind goal`. -/
theorem Ensures.bind {d : Dialogue ε β} {f : β → Dialogue ε γ} (h : d.Ensures kind post)
    (hf : ∀ b, post b → (f b).Ensures kind goal) : (d >>= f).Ensures kind goal := by
  intro xs r hheld hkind
  obtain ⟨b, before, after, hfirst, hsecond, rfl⟩ | ⟨c, hfirst, rfl⟩ := hheld.of_bind
  · obtain ⟨hbefore, hafter⟩ := List.forall_mem_append.1 hkind
    exact hf b (h before _ hfirst hbefore) after r hsecond hafter
  · trivial

/-- One dialogue for each element of a list, each going on from the one before and keeping an
invariant: `(bs.foldlM f c).Ensures kind goal`. -/
theorem Ensures.foldlM {f : γ → β → Dialogue ε γ}
    (hf : ∀ c b, goal c → (f c b).Ensures kind goal) {c : γ} (hc : goal c) (bs : List β) :
    (bs.foldlM f c).Ensures kind goal := by
  induction bs generalizing c with
  | nil => exact .done hc
  | cons b bs ih =>
    rw [List.foldlM_cons]
    exact (hf c b hc).bind fun c hc => ih hc

/-- `(bs.mapM' f).Ensures kind (List.Forall₂ rel bs)`: one dialogue for each element of a list, the
results are related to the elements as each single one is. -/
theorem Ensures.mapM' {f : β → Dialogue ε γ} {rel : β → γ → Prop}
    (hf : ∀ b, (f b).Ensures kind (rel b)) (bs : List β) :
    (bs.mapM' f).Ensures kind (List.Forall₂ rel bs) := by
  induction bs with
  | nil => exact .done .nil
  | cons b bs ih =>
    rw [List.mapM'_cons]
    exact (hf b).bind fun c hc => ih.bind fun cs hcs => .done (.cons hc hcs)

/-- A settled dialogue, whose result may be an error: `(d.settle f).Ensures kind goal`. -/
theorem Ensures.settle {d : Dialogue ε β} {f : Except ε β → Except ε' γ}
    (h : d.Ensures kind post)
    (hf : ∀ r, (Meets r post fun _ => True) → Meets (f r) goal fun _ => True) :
    (d.settle f).Ensures kind goal := by
  intro xs r hheld hkind
  obtain ⟨r', hfirst, rfl⟩ := hheld.of_settle
  exact hf r' (h xs r' hfirst hkind)

/-- The condition may be weakened: `d.Ensures kind post'`. -/
theorem Ensures.mono {d : Dialogue ε β} {post' : β → Prop} (h : d.Ensures kind post)
    (himp : ∀ b, post b → post' b) : d.Ensures kind post' := fun xs r hheld hkind =>
  (h xs r hheld hkind).mono himp fun _ => id

end Ensures

/-! ## (4) Dialogues with sources that answer by the arguments alone -/

section Answered

variable {sources : Sources}

/-- One dialogue after another:
`(d >>= f).answered sources = (d.answered sources >>= fun b => (f b).answered sources)`. -/
@[simp] theorem answered_bind (d : Dialogue ε β) (f : β → Dialogue ε γ) :
    (d >>= f).answered sources = (d.answered sources >>= fun b => (f b).answered sources) := by
  change (d.bind f).answered sources = _
  induction d with
  | done result =>
    cases result with
    | ok b => rfl
    | error cause => rfl
  | series key field next ih => exact ih _
  | members set next ih => exact ih _

/-- `(d.settle f).answered sources = f (d.answered sources)`: a settled dialogue. -/
@[simp] theorem answered_settle (d : Dialogue ε β) (f : Except ε β → Except ε' γ) :
    (d.settle f).answered sources = f (d.answered sources) := by
  induction d with
  | done result => rfl
  | series key field next ih => exact ih _
  | members set next ih => exact ih _

/-- `(bs.foldlM f c).answered sources = bs.foldlM (fun c b => (f c b).answered sources) c`: one
dialogue for each element of a list, each going on from the one before. -/
theorem answered_foldlM (f : γ → β → Dialogue ε γ) (c : γ) (bs : List β) :
    (bs.foldlM f c).answered sources = bs.foldlM (fun c b => (f c b).answered sources) c := by
  induction bs generalizing c with
  | nil => rfl
  | cons b bs ih =>
    rw [List.foldlM_cons, List.foldlM_cons, answered_bind]
    exact congrArg _ (funext fun c => ih c)

/-- `(bs.mapM' f).answered sources = bs.mapM fun b => (f b).answered sources`: one dialogue for each
element of a list. -/
theorem answered_mapM' (f : β → Dialogue ε γ) (bs : List β) :
    (bs.mapM' f).answered sources = bs.mapM fun b => (f b).answered sources := by
  rw [← List.mapM'_eq_mapM]
  induction bs with
  | nil => rfl
  | cons b bs ih =>
    rw [List.mapM'_cons, List.mapM'_cons, answered_bind]
    refine congrArg _ (funext fun c => ?_)
    rw [answered_bind, ih]
    rfl

end Answered

end Dialogue

/-! ## (5) Steps -/

/-- A series for whatever call. -/
def Sources.sayingSeries (answer : Except FetchError Fetched) : Sources :=
  { Sources.cancelled with series := fun _ _ => answer }

/-- Members for whatever call. -/
def Sources.sayingMembers (answer : Except FetchError (List Identity)) : Sources :=
  { Sources.cancelled with members := fun _ => answer }

/-- `converseSet acc set`: the members of one more set are asked for. -/
def converseSet (acc : Roster Float × List String) (set : Argument) :
    Dialogue StepError (Roster Float × List String) :=
  .members set fun answer => .done (resolveSet (.sayingMembers answer) acc set)

/-- `converseField acc field`: one more field of an entity is asked for. -/
def converseField (acc : Entity Float × List String) (field : Argument) :
    Dialogue StepError (Entity Float × List String) :=
  .series acc.1.identity.key field fun answer =>
    .done (fetchField (.sayingSeries answer) acc field)

/-- `converseWeight field e`: the weight of an entity is asked for. -/
def converseWeight (field : Argument) (e : Entity Float) :
    Dialogue StepError (Entity Float × List String) :=
  .series e.identity.key field fun answer =>
    .done (fetchEntityWeight (.sayingSeries answer) field e)

/-- `converseEntities sets inputs`: the members of sets are asked for, one set after the other. -/
def converseEntities (sets : List Argument) (inputs : List (Panel Float)) :
    Dialogue StepError (Panel Float) := do
  let present := (Roster.empty .key).addAll (inputs.flatMap Panel.entities) none
  let (roster, problems) ← sets.foldlM converseSet (present, [])
  return { entities := roster.entities, errors := inputs.flatMap Panel.errors ++ problems }

/-- `Panel.converse p f`: there is a dialogue for each entity of a panel, one after the other. -/
def Panel.converse (p : Panel Float)
    (f : Entity Float → Dialogue StepError (Entity Float × List String)) :
    Dialogue StepError (Panel Float) := do
  let results ← p.entities.mapM' f
  return { p with
    entities := results.map Prod.fst
    errors := p.errors ++ results.flatMap Prod.snd }

/-- `Step.converse platform inputs`: a step as a dialogue. Most of them make no calls. -/
def Step.converse (platform : Platform) (inputs : List (Panel Float)) :
    Step → Dialogue StepError (Panel Float)
  | resolveEntities sets => converseEntities sets inputs
  | fetchWeight field => do (← .done (firstInput "Data" inputs)).converse (converseWeight field)
  | fetchFields fields => do
      (← .done (firstInput "Data" inputs)).converse fun e => fields.foldlM converseField (e, [])
  | step => .done (step.compute platform .cancelled inputs)

/-- **A step comes to what it is with sources that answer by the arguments of a call alone**:
`(step.converse platform inputs).answered sources = step.compute platform sources inputs`. -/
theorem Step.answered_converse (platform : Platform) (sources : Sources)
    (inputs : List (Panel Float)) (step : Step) :
    (step.converse platform inputs).answered sources = step.compute platform sources inputs := by
  cases step with
  | resolveEntities sets =>
    show (converseEntities sets inputs).answered sources = PanelQuery.resolveEntities ..
    rw [converseEntities, Dialogue.answered_bind, Dialogue.answered_foldlM]
    rfl
  | fetchWeight field =>
    rw [converse, Dialogue.answered_bind, compute]
    refine congrArg _ (funext fun p => ?_)
    rw [Panel.converse, Dialogue.answered_bind, Dialogue.answered_mapM']
    rfl
  | fetchFields fields =>
    rw [converse, Dialogue.answered_bind, compute]
    refine congrArg _ (funext fun p => ?_)
    rw [Panel.converse, Dialogue.answered_bind, Dialogue.answered_mapM']
    simp only [Dialogue.answered_foldlM]
    rfl
  | _ => rfl

/-! ## (6) Nodes -/

namespace Engine

/-- `finish path n children step notes`: the outcome of a node whose step has made a panel, or
failed and left a note on that. -/
def finish (path : Path) (n : Node) (children : List Outcome) (step : Step) (notes : List String) :
    Panel Float × List String → Outcome
  | (panel, failure) =>
      let inherited := (children.map Outcome.panel).flatMap Panel.errors
      let new := added inherited (panel.errors ++ notes ++ failure)
      let title := n.title (children.map Outcome.title)
      let report : NodeReport :=
        { path, kind := n.kind, title, step := step.name, state := .done
          children := n.children.length, entities := panel.entities.length, errors := new }
      { panel := { panel with title, errors := inherited ++ new }
        title
        trace := children.flatMap Outcome.trace ++ [report] }

/-- `conclude path n children step notes`: the outcome of a node, given what its step has come
to. -/
def conclude (path : Path) (n : Node) (children : List Outcome) (step : Step)
    (notes : List String) : Except StepError (Panel Float) → Except QueryError Outcome
  | .ok panel => .ok (finish path n children step notes (panel, []))
  | .error .cancelled => .error .cancelled
  | .error .stopped => .error .stopped
  | .error cause =>
      .ok (finish path n children step notes
        ((children.map Outcome.panel).headD .empty, [n.phrase ++ ": " ++ cause.message]))

/-- `converse e path n children`: a node whose children are complete, as a dialogue. -/
def converse (e : Engine) (path : Path) (n : Node) (children : List Outcome) :
    Dialogue QueryError Outcome :=
  match e.stepOf n with
  | .ok (step, notes) =>
      (step.converse e.platform (children.map Outcome.panel)).settle
        (conclude path n children step notes)
  | .error cause => .done (.error cause)

variable {e : Engine} {path : Path} {n : Node} {os : List Outcome}

/-- **A node comes to what it is with sources that answer by the arguments of a call alone**:
`(e.converse path n os).answered e.sources = e.complete path n os`. -/
theorem answered_converse :
    (e.converse path n os).answered e.sources = e.complete path n os := by
  unfold converse complete
  cases e.stepOf n with
  | error cause => rfl
  | ok prepared =>
    obtain ⟨step, notes⟩ := prepared
    dsimp only
    rw [Dialogue.answered_settle, Step.answered_converse]
    show _ = Except.bind (e.attempt n step (os.map Outcome.panel)) _
    unfold attempt
    cases step.compute e.platform e.sources (os.map Outcome.panel) with
    | ok panel => rfl
    | error cause => cases cause <;> rfl

end Engine

end PanelQuery
