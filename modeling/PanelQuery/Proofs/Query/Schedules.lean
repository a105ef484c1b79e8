import PanelQuery.Proofs.Number.Fractions
import PanelQuery.Proofs.Query.Activities
import PanelQuery.Proofs.Query.Failures
import PanelQuery.Proofs.Query.Rendering

/-! # Schedules

In whatever order the nodes of a query are computed, and in whatever order the messages on them are
sent, it comes to the same, as long as sources answer by the arguments of a call alone and no
request is cancelled. If the computation is stopped at some node, then it is so in every order.

* **`Engine.Reaches.agrees`** — every complete node has its one outcome;
* **`Engine.Reaches.failed_eq_nil`** — no node fails on any schedule, if the root has an outcome;
* **`Stage.Sound.concluded`** — all nodes are counted once, and the last message is on the root;
* **`Engine.ComesTo`, `Engine.Halts`** — what holds of all schedules of a query, when it has an
  outcome and when it is stopped;
* **`Engine.run_withParallel`** — `Settings.parallel` changes nothing but the schedule;
* **`Engine.execute_schedules`** — all stages and all sessions of a query;
* **`Engine.not_schedules_farWindow`** — a query that is stopped. -/

namespace PanelQuery

/-! ## (1) One outcome for each node -/

namespace Engine

variable {e : Engine} {root n : Node} {s : Stage} {path : Path} {o : Outcome} {os : List Outcome}

/-- `(e.runAll path k ns).result = .ok os`: children that have each its own outcome have
outcomes. -/
theorem runAll_of_atPlaces {k : Nat} {ns : List Node}
    (h : Outcome.AtPlaces (fun o path n => (e.run path n).result = .ok o) path os (ns.zipIdx k)) :
    (e.runAll path k ns).result = .ok os := by
  induction ns generalizing k os with
  | nil =>
    cases h
    rw [runAll]
  | cons child rest ih =>
    cases h with
    | cons ho hos =>
      rw [runAll_of_ok rest ho]
      dsimp only
      rw [ih hos]
      rfl

/-- `(e.run path n).result = .ok o`: a node with an outcome is a node of the query. -/
theorem result_of_outcomeAt? (hn : root.at? path = some n) (h : e.outcomeAt? root path = some o) :
    (e.run path n).result = .ok o := by
  rw [outcomeAt?, hn, Option.bind_some] at h
  cases hresult : (e.run path n).result with
  | ok o' =>
    rw [hresult] at h
    exact congrArg _ (Option.some.inj h)
  | error cause =>
    rw [hresult] at h
    cases h

/-- `(e.runAll path 0 n.children).result = .ok os`: the outcomes that a node is computed on are
those of its children in order. -/
theorem runAll_of_ready (hready : s.Ready root path n os)
    (hchildren : ∀ p o, s.HandsOn p o → e.outcomeAt? root p = some o) :
    (e.runAll path 0 n.children).result = .ok os := by
  refine runAll_of_atPlaces (hready.children.mono fun child hchild o ho => ?_)
  exact result_of_outcomeAt?
    ((Node.at?_concat hready.at? _).trans (List.mem_zipIdx_iff_getElem?.1 hchild))
    (hchildren _ _ ho)

/-- **Whatever the schedule, every complete node has its one outcome**, where sources answer by the
arguments of a call alone: `∀ p o, (p, o) ∈ s.completed → e.outcomeAt? root p = some o`. -/
theorem Reaches.agrees (h : e.Reaches root (Exchange.AnsweredBy e.sources) s) :
    ∀ p o, (p, o) ∈ s.completed → e.outcomeAt? root p = some o := by
  induction h with
  | refl => exact fun p o hmem => absurd hmem List.not_mem_nil
  | tail _ hmove ih =>
    cases hmove with
    | complete hready hheld hallowed =>
      intro p o hmem
      rcases List.mem_append.1 hmem with hmem | hmem
      · exact ih p o hmem
      · -- the node is computed on the outcomes of its children, which are the ones in order as well
        obtain ⟨rfl, rfl⟩ := Prod.mk.inj (List.mem_singleton.1 hmem)
        have hos := runAll_of_ready hready fun p o ho => ih p o ho.mem_completed
        have ho := answered_converse.symm.trans (hheld.answered hallowed)
        exact outcomeAt?_eq_some hready.at? (run_eq_ok.2 ⟨_, hos, ho⟩)
    | fail hready hheld hallowed => exact ih
    | send hk hnew => exact ih

/-! ## (2) Nodes that fail on no schedule -/

/-- **A node that may be computed has an outcome**, if the root has one in order:
`∃ o', e.complete path n os = .ok o'`. -/
theorem Reaches.exists_complete (h : e.Reaches root (Exchange.AnsweredBy e.sources) s)
    (ho : (e.run [] root).result = .ok o) (hready : s.Ready root path n os) :
    ∃ o', e.complete path n os = .ok o' := by
  obtain ⟨o', ho'⟩ := run_at? ho hready.at?
  rw [List.nil_append] at ho'
  obtain ⟨os', hos', hcomplete⟩ := run_eq_ok.1 ho'
  have hos := runAll_of_ready hready fun p o ho => h.agrees p o ho.mem_completed
  obtain rfl := Except.ok.inj (hos.symm.trans hos')
  exact ⟨o', hcomplete⟩

/-- **If the root has an outcome in order, no node fails** on any schedule: `s.failed = []`. -/
theorem Reaches.failed_eq_nil (h : e.Reaches root (Exchange.AnsweredBy e.sources) s)
    (ho : (e.run [] root).result = .ok o) : s.failed = [] := by
  induction h with
  | refl => rfl
  | tail hbefore hmove ih =>
    cases hmove with
    | complete hready hheld hallowed => exact ih
    | fail hready hheld hallowed =>
      obtain ⟨o', ho'⟩ := Reaches.exists_complete hbefore ho hready
      rw [← answered_converse, hheld.answered hallowed] at ho'
      cases ho'
    | send hk hnew => exact ih

/-- **Otherwise no schedule has an outcome**: `¬∃ o, s.HandsOn [] o`. -/
theorem Reaches.not_handsOn (h : e.Reaches root (Exchange.AnsweredBy e.sources) s)
    {cause : QueryError} (hcause : (e.run [] root).result = .error cause) :
    ¬∃ o, s.HandsOn [] o := by
  rintro ⟨o, ho⟩
  have hok := result_of_outcomeAt? root.at?_nil (h.agrees [] o ho.mem_completed)
  cases hok.symm.trans hcause

end Engine

/-! ## (3) The last stage -/

/-- What there is once the root has handed an outcome on. -/
structure Stage.Concluded (s : Stage) (root : Node) (o : Outcome) : Prop where
  /-- Every node is counted once. -/
  counted : s.paths.Perm root.postOrder
  /-- The messages tell each part of the whole once. -/
  fractions : ((s.messages root.count).map Progress.fraction).Perm
    ((List.range root.count).map (Stage.fraction root.count))
  /-- The last message is on the root, and tells the last part. -/
  last : (s.messages root.count).getLast? =
    some ⟨o.title, Stage.fraction root.count (root.count - 1)⟩
  /-- This is the whole, as long as the count of the nodes fits in a word. -/
  whole : root.count < UInt64.size → Stage.fraction root.count (root.count - 1) = 1

/-- `Stage.fraction total (total - 1) = 1`: the last part is the whole. -/
theorem Stage.fraction_last {total : Nat} (hpos : 0 < total) (h : total < UInt64.size) :
    Stage.fraction total (total - 1) = 1 := by
  rw [fraction, Nat.sub_add_cancel hpos, Nat.max_eq_left hpos]
  exact Scalar.ofNat_div_self hpos h

/-- **Once the root has handed its outcome on, every node is counted, and the last message is on the
root**: `s.Concluded root o`. -/
theorem Stage.Sound.concluded {s : Stage} {root : Node} {o : Outcome} (h : s.Sound root)
    (hroot : s.HandsOn [] o) : s.Concluded root o := by
  obtain ⟨hpaths, hsent, -, k, hcount, hget, hlast⟩ := h.counted hroot
  have hk : k = root.count - 1 := by omega
  constructor
  case counted => exact hpaths
  case fractions =>
    rw [map_fraction_messages h.sent_lt]
    exact hsent.map _
  case last =>
    rw [← hk]
    exact getLast?_messages hlast hget _
  case whole => exact fraction_last (by omega)

/-! ## (4) Stages and sessions -/

namespace Engine

/-- A stage of the evaluation of a query that comes to an outcome. -/
structure Conforms (e : Engine) (root : Node) (o : Outcome) (s : Stage) : Prop where
  /-- No node fails. -/
  failed : s.failed = []
  /-- Every complete node has its one outcome. -/
  agrees : ∀ p o', (p, o') ∈ s.completed → e.outcomeAt? root p = some o'
  /-- Whichever node may be computed can be the next one that is complete. -/
  next : ∀ path n os, s.Ready root path n os → ∃ o own,
    e.Move root (Exchange.AnsweredBy e.sources) s
      { s with completed := s.completed ++ [(path, o)], asked := s.asked ++ own }
  /-- There are more moves until the root hands its outcome on. -/
  goesOn : (∃ o', s.HandsOn [] o') ∨ ∃ s', e.Move root (Exchange.AnsweredBy e.sources) s s'
  /-- And it does so after at most two moves for each node. -/
  ends : s.size ≤ 2 * root.count
  /-- What the root hands on is the one outcome, and with that everything is done. -/
  concluded : ∀ o', s.HandsOn [] o' → o' = o ∧ s.Concluded root o

/-- What holds of all schedules of a query that come to an outcome. -/
structure ComesTo (e : Engine) (root : Node) (title : Option String) (o : Outcome) : Prop where
  /-- The evaluation in order has the panel and the trace of the outcome. -/
  result : (e.execute root title).result = .ok (titledAs title o)
  /-- It is one of the schedules, with the same messages. -/
  sequential : ∃ s, e.Sequential root s ∧ s.HandsOn [] o ∧
    s.messages root.count = (e.execute root title).progress
  stages : ∀ s, e.Reaches root (Exchange.AnsweredBy e.sources) s → e.Conforms root o s
  /-- Whatever goes on, with buffers that are shared or copied, is at such a stage. It comes to an
  end and then returns the outcome, with a buffer as empty as at first. -/
  sessions : ∀ k s a, e.Session root (Exchange.AnsweredBy e.sources) k s a →
    k ≤ 5 * root.count ∧ e.Reaches root (Exchange.AnsweredBy e.sources) s ∧ a.Fits root s [] ∧
      ((a = .returned o [] ∧ s.HandsOn [] o) ∨
        ∃ s' a', e.Advances (Exchange.AnsweredBy e.sources) s a s' a')

/-- A stage of the evaluation of a query that is stopped. -/
structure Ceases (e : Engine) (root : Node) (s : Stage) : Prop where
  /-- Each node that has failed was stopped on what its children have handed on. -/
  failed : ∀ f ∈ s.failed, f.2 = .stopped ∧ s.StopsAt e root f.1
  /-- The root hands no outcome on. -/
  noOutcome : ¬∃ o, s.HandsOn [] o
  /-- There are more moves until some node is stopped. -/
  goesOn : (∃ path, s.StopsAt e root path) ∨
    ∃ s', e.Move root (Exchange.AnsweredBy e.sources) s s'
  ends : s.size ≤ 2 * root.count

/-- What holds of all schedules of a query that is stopped. -/
structure Halts (e : Engine) (root : Node) (title : Option String) : Prop where
  result : (e.execute root title).result = .error .stopped
  sequential : ∃ s, e.Sequential root s ∧ (∃ path, s.StopsAt e root path) ∧
    s.messages root.count = (e.execute root title).progress
  stages : ∀ s, e.Reaches root (Exchange.AnsweredBy e.sources) s → e.Ceases root s
  /-- Whatever goes on comes to an end and is stopped. -/
  sessions : ∀ k s a, e.Session root (Exchange.AnsweredBy e.sources) k s a →
    k ≤ 5 * root.count ∧ e.Reaches root (Exchange.AnsweredBy e.sources) s ∧ a.Fits root s [] ∧
      (a = .failed .stopped [] ∨ ∃ s' a', e.Advances (Exchange.AnsweredBy e.sources) s a s' a')

variable {e : Engine} {root : Node} {title : Option String} {s : Stage} {o : Outcome}

/-- **Every stage conforms**, if the root has an outcome in order: `e.Conforms root o s`. -/
theorem Reaches.conforms (h : e.Reaches root (Exchange.AnsweredBy e.sources) s)
    (ho : (e.run [] root).result = .ok o) : e.Conforms root o s := by
  have hfailed := h.failed_eq_nil ho
  constructor
  case failed => exact hfailed
  case agrees => exact h.agrees
  case next =>
    intro path n os hready
    -- its calls are answered as in the evaluation in order, so it completes as there
    obtain ⟨o', ho'⟩ := h.exists_complete ho hready
    obtain ⟨own, r, hheld, hfollows⟩ := (e.converse path n os).exists_held (fun _ => e.sources) []
    obtain rfl : r = .ok o' :=
      (hheld.answered hfollows.answeredBy).symm.trans (answered_converse.trans ho')
    exact ⟨o', own, .complete hready hheld hfollows.answeredBy⟩
  case goesOn =>
    by_cases hroot : ∃ o', s.HandsOn [] o'
    · exact .inl hroot
    · obtain ⟨s', own, hmove, -⟩ := e.exists_move (fun _ => e.sources) hfailed
        (fun own hfollows => hfollows.answeredBy) root.at?_nil hroot
      exact .inr ⟨s', hmove⟩
  case ends => exact h.sound.size_le
  case concluded =>
    intro o' hroot
    have heq := result_of_outcomeAt? root.at?_nil (h.agrees [] o' hroot.mem_completed)
    obtain rfl := Except.ok.inj (heq.symm.trans ho)
    exact ⟨rfl, h.sound.concluded hroot⟩

/-- **Every stage ceases**, if the root has no outcome in order, though no request is cancelled:
`e.Ceases root s`. -/
theorem Reaches.ceases (h : e.Reaches root (Exchange.AnsweredBy e.sources) s)
    (hvalid : root.violations e.table e.settings.maxDepth = []) (hnever : e.sources.NeverCancel)
    {cause : QueryError} (hcause : (e.run [] root).result = .error cause) : e.Ceases root s := by
  have hstopped : ∀ f ∈ s.failed, f.2 = .stopped ∧ s.StopsAt e root f.1 := by
    intro f hf
    -- nodes fail by cancelled calls, of which there are none, or because they are stopped
    refine (h.failures hvalid f hf).resolve_left fun ⟨_, x, hx, hc⟩ => ?_
    exact (h.asked x hx).not_cancelled hnever hc
  have hroot := h.not_handsOn hcause
  constructor
  case failed => exact hstopped
  case noOutcome => exact hroot
  case goesOn =>
    by_cases hfailed : s.failed = []
    · obtain ⟨s', own, hmove, -⟩ := e.exists_move (fun _ => e.sources) hfailed
        (fun own hfollows => hfollows.answeredBy) root.at?_nil hroot
      exact .inr ⟨s', hmove⟩
    · obtain ⟨f, hf⟩ := List.exists_mem_of_ne_nil _ hfailed
      exact .inl ⟨f.1, (hstopped f hf).2⟩
  case ends => exact h.sound.size_le

/-- **A valid query whose root has an outcome in order comes to it** on every schedule:
`e.ComesTo root title o`. -/
theorem comesTo_of_ok (e : Engine) (hvalid : root.violations e.table e.settings.maxDepth = [])
    (ho : (e.run [] root).result = .ok o) (title : Option String) : e.ComesTo root title o := by
  constructor
  case result =>
    rw [execute_of_valid hvalid, ho]
    rfl
  case sequential =>
    obtain ⟨s, hs, hreturns, hmessages⟩ := exists_sequential e root
    rw [ho] at hreturns
    rw [execute_of_valid hvalid]
    cases hreturns with
    | ok hroot => exact ⟨s, hs, hroot, hmessages _⟩
  case stages => exact fun s h => h.conforms ho
  case sessions =>
    intro k s a h
    obtain ⟨hreaches, hfits⟩ := h.reaches
    refine ⟨h.length_le, hreaches, hfits, ?_⟩
    obtain ⟨o', rfl⟩ | ⟨cause, rfl⟩ | ⟨s', a', own, hstep, -⟩ :=
      exists_advances e (fun _ => e.sources) (fun own hfollows => hfollows.answeredBy) hfits
    · have hroot := h.of_returned.1
      obtain ⟨rfl, -⟩ := (hreaches.conforms ho).concluded o' hroot
      exact .inl ⟨rfl, hroot⟩
    · obtain _ | hf := h.of_failed.1
      rw [hreaches.failed_eq_nil ho] at hf
      exact absurd hf List.not_mem_nil
    · exact .inr ⟨s', a', hstep⟩

/-- **A valid query whose root has no outcome in order is stopped** on every schedule, if no request
is cancelled: `e.Halts root title`. -/
theorem halts_of_error (e : Engine) (hvalid : root.violations e.table e.settings.maxDepth = [])
    (hnever : e.sources.NeverCancel) {cause : QueryError}
    (hcause : (e.run [] root).result = .error cause) (title : Option String) :
    e.Halts root title := by
  obtain ⟨s, hs, hreturns, hmessages⟩ := exists_sequential e root
  rw [hcause] at hreturns
  cases hreturns with
  | error hf =>
    obtain ⟨hstopped, hstopsAt⟩ := (hs.reaches.ceases hvalid hnever hcause).failed _ hf
    obtain rfl : cause = .stopped := hstopped
    constructor
    case result =>
      rw [execute_of_valid hvalid, hcause]
      rfl
    case sequential =>
      rw [execute_of_valid hvalid]
      exact ⟨s, hs, ⟨_, hstopsAt⟩, hmessages _⟩
    case stages => exact fun s h => h.ceases hvalid hnever hcause
    case sessions =>
      intro k s a h
      obtain ⟨hreaches, hfits⟩ := h.reaches
      have hceases := hreaches.ceases hvalid hnever hcause
      refine ⟨h.length_le, hreaches, hfits, ?_⟩
      obtain ⟨o, rfl⟩ | ⟨cause, rfl⟩ | ⟨s', a', own, hstep, -⟩ :=
        exists_advances e (fun _ => e.sources) (fun own hfollows => hfollows.answeredBy) hfits
      · exact absurd ⟨o, h.of_returned.1⟩ hceases.noOutcome
      · obtain _ | hf := h.of_failed.1
        obtain rfl : cause = .stopped := (hceases.failed _ hf).1
        exact .inl rfl
      · exact .inr ⟨s', a', hstep⟩

end Engine

/-! ## (5) In turn or at the same time -/

/-- `Settings.parallel` is no part of the default window. -/
theorem prepareWindow_parallel (s : Settings) (parallel : Bool) (first : Option Argument) :
    prepareWindow { s with parallel } first = prepareWindow s first := by
  unfold prepareWindow Settings.defaultWindow
  dsimp only

/-- `kind.prepare n { s with parallel } = kind.prepare n s`: nor is it of any step. -/
theorem StepKind.prepare_parallel (kind : StepKind) (n : Node) (s : Settings) (parallel : Bool) :
    kind.prepare n { s with parallel } = kind.prepare n s := by
  cases kind with
  | timeWindow =>
    unfold prepare
    dsimp only
    rw [prepareWindow_parallel]
  | classify c => cases c <;> rfl
  | regression kind => cases kind <;> rfl
  | transform kind => cases kind <;> rfl
  | _ => rfl

namespace Engine

/-- `withParallel e parallel`: the same engine, with children that may be evaluated at the same time
or not. -/
def withParallel (e : Engine) (parallel : Bool) : Engine :=
  { e with settings := { e.settings with parallel } }

/-- `(e.withParallel parallel).stepOf n = e.stepOf n`: the steps of nodes do not depend on it. -/
theorem stepOf_withParallel (e : Engine) (parallel : Bool) (n : Node) :
    (e.withParallel parallel).stepOf n = e.stepOf n := by
  unfold stepOf withParallel
  dsimp only
  cases e.table.resolve? n with
  | none => rfl
  | some kind =>
    dsimp only
    rw [kind.prepare_parallel]

/-- `(e.withParallel parallel).complete path n os = e.complete path n os`: what is done at a node
does not depend on it either. -/
theorem complete_withParallel (e : Engine) (parallel : Bool) (path : Path) (n : Node)
    (os : List Outcome) : (e.withParallel parallel).complete path n os = e.complete path n os := by
  unfold complete
  rw [stepOf_withParallel]
  rfl

mutual

/-- **`Settings.parallel` changes nothing but the schedule**: in order, both come to the same. -/
theorem run_withParallel (e : Engine) (parallel : Bool) (path : Path) (n : Node) :
    (e.withParallel parallel).run path n = e.run path n := by
  cases n with
  | mk kind arguments children =>
    rw [run, run, runAll_withParallel e parallel path 0 children]
    simp only [complete_withParallel]

/-- `(e.withParallel parallel).runAll path k ns = e.runAll path k ns`: children in turn. -/
theorem runAll_withParallel (e : Engine) (parallel : Bool) (path : Path) (k : Nat)
    (ns : List Node) : (e.withParallel parallel).runAll path k ns = e.runAll path k ns := by
  cases ns with
  | nil => rw [runAll, runAll]
  | cons child rest =>
    rw [runAll, runAll, run_withParallel e parallel (path ++ [k]) child,
      runAll_withParallel e parallel path (k + 1) rest]

end

/-! ## (6) All schedules -/

/-- **All schedules of a query come to the same.** Where sources answer by the arguments of a call
alone and no request is cancelled, a valid query that is stopped on no schedule has an outcome.
Whatever is computed when, whatever message is sent when, and whether children share a buffer or
have copies, the root hands this outcome on, all nodes are counted, each part of the whole is told
once, and last of all the whole, under the title of the root. The evaluation in order is one of the
schedules. A query that is stopped on some schedule is stopped on all of them. -/
theorem execute_schedules (e : Engine) (root : Node) (title : Option String)
    (hvalid : root.violations e.table e.settings.maxDepth = [])
    (hnever : e.sources.NeverCancel) :
    ((∀ s path, e.Reaches root (Exchange.AnsweredBy e.sources) s → ¬s.StopsAt e root path) →
      ∃ o, ∀ parallel, (e.withParallel parallel).ComesTo root title o) ∧
    ((∃ s path, e.Reaches root (Exchange.AnsweredBy e.sources) s ∧ s.StopsAt e root path) →
      ∀ parallel, (e.withParallel parallel).Halts root title) := by
  have hsame : ∀ parallel, ((e.withParallel parallel).run [] root).result =
      (e.run [] root).result := fun parallel =>
    congrArg Run.result (e.run_withParallel parallel [] root)
  constructor
  · intro hstops
    cases hresult : (e.run [] root).result with
    | ok o =>
      exact ⟨o, fun parallel => (e.withParallel parallel).comesTo_of_ok hvalid
        ((hsame parallel).trans hresult) title⟩
    | error cause =>
      obtain ⟨s, hs, ⟨path, hpath⟩, -⟩ := (e.halts_of_error hvalid hnever hresult title).sequential
      exact absurd hpath (hstops s path hs.reaches)
  · rintro ⟨s, path, hreaches, hmem, -⟩ parallel
    cases hresult : (e.run [] root).result with
    | ok o =>
      rw [Stage.failures, hreaches.failed_eq_nil hresult] at hmem
      exact absurd hmem List.not_mem_nil
    | error cause =>
      exact (e.withParallel parallel).halts_of_error hvalid hnever
        ((hsame parallel).trans hresult) title

end Engine

/-- An engine on the prices of a library, in which children may be evaluated at the same time. -/
def Library.forkingEngine : Engine :=
  { sources := Library.prices.sources false, settings := { parallel := true } }

/-- Whatever the schedule, and with or without buffers that are shared, a query with two branches has
the outcome that it has in order. It may be that the second branch is complete before anything is
done in the first one. -/
theorem Engine.execute_schedules_joined :
    Node.joined.violations StepTable.standard Library.forkingEngine.settings.maxDepth = [] ∧
    (Library.prices.sources false).NeverCancel ∧
    (∀ s path, Library.forkingEngine.Reaches .joined
      (Exchange.AnsweredBy (Library.prices.sources false)) s →
        ¬s.StopsAt Library.forkingEngine .joined path) ∧
    (∃ o, ∀ parallel, (Library.forkingEngine.withParallel parallel).ComesTo .joined none o) ∧
    ∃ k s a, Library.forkingEngine.Session .joined
      (Exchange.AnsweredBy (Library.prices.sources false)) k s a ∧ s.paths = [[1]] := by
  have hvalid : Node.joined.violations StepTable.standard
      Library.forkingEngine.settings.maxDepth = [] := by
    decide +kernel
  have hnever : (Library.prices.sources false).NeverCancel :=
    Library.neverCancel_sources (List.forall_mem_nil _)
  have hcomes : ((Library.forkingEngine.run [] .joined).result.toOption.isSome = true) ∧
      (Library.forkingEngine.complete [1] .tech []).toOption.isSome = true := by
    decide +kernel
  obtain ⟨o, ho⟩ := exists_ok_of_isSome hcomes.1
  obtain ⟨o', ho'⟩ := exists_ok_of_isSome hcomes.2
  have hnot : ∀ s path, Library.forkingEngine.Reaches .joined
      (Exchange.AnsweredBy (Library.prices.sources false)) s →
        ¬s.StopsAt Library.forkingEngine .joined path := by
    rintro s path hreaches ⟨hmem, -⟩
    rw [Stage.failures, Engine.Reaches.failed_eq_nil hreaches ho] at hmem
    exact absurd hmem List.not_mem_nil
  refine ⟨hvalid, hnever, hnot, ?_, ?_⟩
  · exact (Engine.execute_schedules Library.forkingEngine .joined none hvalid hnever).1 hnot
  · obtain ⟨own, r, hheld, hfollows⟩ :=
      (Library.forkingEngine.converse [1] .tech []).exists_held
        (fun _ => Library.prices.sources false) []
    have hanswered := hfollows.answeredBy
    obtain rfl : r = .ok o' :=
      (hheld.answered hanswered).symm.trans (Engine.answered_converse.trans ho')
    -- both branches are called, and only the second one goes on
    have hforked : Library.forkingEngine.Session .joined
        (Exchange.AnsweredBy (Library.prices.sources false)) 1 {}
        (.forked .joined [] ([.called .brokenFormula [0]] ++ .called .tech [1] :: [])) :=
      .step .start .begin
    exact ⟨3, _, _, (hforked.step (.forked .begin)).step (.forked (.complete hheld hanswered)), rfl⟩

/-- **A query that is stopped on every schedule.** It is valid, sources answer by the arguments of a
call alone, and no request is cancelled. But there is neither a panel nor a trace. -/
theorem Engine.not_schedules_farWindow :
    Node.farWindow.violations StepTable.standard ({} : Settings).maxDepth = [] ∧
    (Library.weights.sources false).NeverCancel ∧
    (Engine.execute { sources := Library.weights.sources false } .farWindow none).result =
      .error .stopped ∧
    ∀ s, Engine.Reaches { sources := Library.weights.sources false } .farWindow
      (Exchange.AnsweredBy (Library.weights.sources false)) s → ¬∃ o, s.HandsOn [] o := by
  have hvalid : Node.farWindow.violations StepTable.standard ({} : Settings).maxDepth = [] := by
    decide +kernel
  refine ⟨hvalid, Library.neverCancel_sources (List.forall_mem_nil _), Engine.execute_farWindow,
    fun s hreaches => ?_⟩
  have hresult := Engine.execute_farWindow
  rw [Engine.execute_of_valid hvalid] at hresult
  cases hrun : (Engine.run { sources := Library.weights.sources false } [] .farWindow).result with
  | ok o =>
    rw [hrun] at hresult
    cases hresult
  | error cause => exact hreaches.not_handsOn hrun

end PanelQuery
