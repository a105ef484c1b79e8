import PanelQuery.Proofs.Formula.Compilation
import PanelQuery.Proofs.Formula.Constancy
import PanelQuery.Proofs.Panel.Operations

/-! # Results of formulas

What a formula leaves of a panel: the same entities in the same order, each with its weights and
with new fields, or without fields and with one message why.

* **`Program.KeepsLedger`, `runAt_keepsLedger`** — runs, in which each value is computed with all
  values before it;
* **`positions_of_reads_output`** — the positions of a program that reads these values;
* **`Header.foldl_combine`, `Agreed`** — the policy of several series;
* **`Shape`, `outputs_meets_shape`** — the fields that a formula makes;
* **`Entity.Outcome`, `Panel.applyFormula_outcomes`** — entities and panels. -/

namespace PanelQuery

open Formula

namespace Formula

variable {p : Program}

/-! ## (1) Runs and their ledgers -/

/-- `resultPoints positions results`: the points of results at positions. -/
def resultPoints (positions : List (Nat × Instant)) (results : Ledger) : Points Float :=
  (positions.zip results).flatMap fun (position, result) => pointsAt position.2 result

/-- How a run ends that has gone on from a ledger and has left results: with results for all
positions, and a point for each that is a value; or at the first position without result, with an
error that is no matter of this position. -/
def Program.EndsWith (p : Program) (x : Inputs) (positions : List (Nat × Instant))
    (ledger results : Ledger) : Except EvalError (Points Float) → Prop
  | .ok points =>
      results.length = positions.length ∧ points = resultPoints positions results
  | .error cause => cause.isPointLocal = false ∧
      ∃ position, positions[results.length]? = some position ∧
        p.evaluate (x.context position.1 (ledger ++ results)) = .error cause

/-- **A run with its ledger.** There are results from the first position on, and the result of each
position is what the program yields there when the output so far is just the ledger that the run has
gone on from and the results before. -/
def Program.KeepsLedger (p : Program) (x : Inputs) (ledger : Ledger)
    (positions : List (Nat × Instant)) (outcome : Except EvalError (Points Float)) : Prop :=
  ∃ results : Ledger,
    (∀ n position result, positions[n]? = some position → results[n]? = some result →
      pointValue p (x.context position.1 (ledger ++ results.take n)) = .ok result) ∧
    p.EndsWith x positions ledger results outcome

/-- `r = .error cause ∧ cause.isPointLocal = false`: what is no result is an error that is no matter
of the position. -/
theorem settle_eq_error {r : Except EvalError Float} {cause : EvalError}
    (h : settle r = .error cause) : r = .error cause ∧ cause.isPointLocal = false := by
  cases r with
  | ok v => cases h
  | error e =>
    unfold settle at h
    dsimp only at h
    split at h
    · cases h
    · rename_i hlocal
      obtain rfl := Except.error.inj h
      exact ⟨rfl, Bool.of_not_eq_true hlocal⟩

/-- **Every run keeps its ledger**:
`p.KeepsLedger x ledger positions (runAt p x ledger positions)`. -/
theorem runAt_keepsLedger (x : Inputs) (positions : List (Nat × Instant)) (ledger : Ledger) :
    p.KeepsLedger x ledger positions (runAt p x ledger positions) := by
  -- on the positions; the result of the first one goes to the end of the ledger
  induction positions generalizing ledger with
  | nil =>
    rw [runAt]
    exact ⟨[], fun n position result h => (by cases h), rfl, rfl⟩
  | cons first rest ih =>
    rw [runAt_cons]
    cases hvalue : pointValue p (x.context first.1 ledger) with
    | error cause =>
      obtain ⟨heval, hlocal⟩ := settle_eq_error hvalue
      refine ⟨[], fun n position result _ h => (by cases h), hlocal, first, rfl, ?_⟩
      rw [List.append_nil]
      exact heval
    | ok value =>
      obtain ⟨results, hresults, hends⟩ := ih (ledger ++ [value])
      refine ⟨value :: results, fun n position result hposition hresult => ?_, ?_⟩
      · cases n with
        | zero =>
          obtain rfl : first = position := Option.some.inj hposition
          obtain rfl : value = result := Option.some.inj hresult
          rw [List.take_zero, List.append_nil]
          exact hvalue
        | succ n =>
          have hn := hresults n position result hposition hresult
          rw [List.append_assoc] at hn
          exact hn
      · show p.EndsWith x _ ledger _ ((runAt p x (ledger ++ [value]) rest).map _)
        revert hends
        cases runAt p x (ledger ++ [value]) rest with
        | ok points =>
          rintro ⟨hlength, rfl⟩
          exact ⟨congrArg Nat.succ hlength, rfl⟩
        | error cause =>
          rintro ⟨hlocal, position, hposition, heval⟩
          rw [List.append_assoc] at heval
          exact ⟨hlocal, position, hposition, heval⟩

/-- **The runs of a formula keep their ledgers**, from an empty one on. -/
theorem runOver_keepsLedger (p : Program) (e : Entity Float) (fields : List (Series Float))
    (driver : Series Float) (isBroadcast : Bool) :
    p.KeepsLedger (inputsOver (.of p) e fields driver isBroadcast) []
      (positions (.of p) (alignedInputs (.of p) driver fields).1.points)
      (runOver p (.of p) e fields driver isBroadcast) := by
  rw [runOver_eq]
  exact runAt_keepsLedger _ _ _

/-- **A program that reads the output so far** is computed at all positions, one after the other,
and never at the last one alone:
`(positions (.of p) driver).map Prod.fst = List.range driver.length`. -/
theorem positions_of_reads_output (h : p.Reads .output) (driver : Points Float) :
    (positions (.of p) driver).map Prod.fst = List.range driver.length := by
  have hvary : (Report.of p).isTimeVarying = true := by
    rw [Report.isTimeVarying, Report.usesOutput_iff.2 h, Bool.or_true, Bool.true_or]
  rw [positions_of_isTimeVarying hvary, positionsFrom, List.map_map]
  show driver.times.zipIdx.map Prod.snd = _
  rw [List.zipIdx_map_snd, List.range_eq_range', Points.times, List.length_map]

end Formula

/-! ## (2) Policies of several series -/

/-- The policy that series agree on: the one that they all have, and none where two differ. -/
structure Agreed (policies : List Policy) (q : Policy) : Prop where
  same : ∀ r, policies ≠ [] → (∀ r' ∈ policies, r' = r) → q = r
  differ : (∃ r ∈ policies, ∃ r' ∈ policies, r ≠ r') → q = .drop

/-- **Headers combined one after the other** have the policy of the first one if all others have it,
and else none: `policy (rest.foldl (fun h s => h.combine s.header) first)` is
`if ∀ s ∈ rest, policy s.header = policy first then policy first else .drop`. -/
theorem Header.foldl_combine (policy : Header → Policy)
    (hpolicy : ∀ a b, policy (a.combine b) = (policy a).agree (policy b)) (first : Header)
    (rest : List (Series Float)) :
    policy (rest.foldl (fun h s => h.combine s.header) first) =
      if ∀ s ∈ rest, policy s.header = policy first then policy first else .drop := by
  induction rest generalizing first with
  | nil => exact (if_pos (List.forall_mem_nil _)).symm
  | cons s rest ih =>
    rw [List.foldl_cons, ih, hpolicy, Policy.agree]
    by_cases hs : policy first = policy s.header
    · rw [if_pos hs]
      refine if_congr ?_ rfl rfl
      rw [List.forall_mem_cons]
      exact (and_iff_right hs.symm).symm
    · -- once two differ, there is no policy any more
      rw [if_neg hs, ite_self, if_neg fun hall => hs (hall s List.mem_cons_self).symm]

/-- The policy of combined headers is the one that is agreed on: `Agreed ((s :: rest).map fun t =>
policy t.header) (policy (rest.foldl (fun h t => h.combine t.header) s.header))`. -/
theorem Header.agreed_foldl_combine (policy : Header → Policy)
    (hpolicy : ∀ a b, policy (a.combine b) = (policy a).agree (policy b)) (s : Series Float)
    (rest : List (Series Float)) :
    Agreed ((s :: rest).map fun t => policy t.header)
      (policy (rest.foldl (fun h t => h.combine t.header) s.header)) := by
  rw [foldl_combine policy hpolicy]
  constructor
  · intro r _ hall
    have hall := List.forall_mem_map.1 hall
    obtain ⟨hs, hrest⟩ := List.forall_mem_cons.1 hall
    rw [if_pos fun t ht => (hrest t ht).trans hs.symm, hs]
  · rintro ⟨r, hr, r', hr', hne⟩
    refine if_neg fun hall => hne ?_
    have hsame : ∀ t ∈ s :: rest, policy t.header = policy s.header :=
      List.forall_mem_cons.2 ⟨rfl, hall⟩
    obtain ⟨t, ht, rfl⟩ := List.mem_map.1 hr
    obtain ⟨t', ht', rfl⟩ := List.mem_map.1 hr'
    rw [hsame t ht, hsame t' ht']

/-! ## (3) Fields -/

namespace Formula

variable {p : Program} {e : Entity Float}

/-- The field that a formula makes over another one when it is broadcast: with the other one's
description, as a transformed one, and the points of the run. -/
def MadeOver (p : Program) (e : Entity Float) (s t : Series Float) : Prop :=
  t.header = { s.header with transformed := true } ∧
    ∃ ps, runOver p (.of p) e e.fields s true = .ok ps ∧ t.points = .ofWrites ps

/-- **The fields that a formula makes of an entity.** One that is broadcast makes as many as there
are, each over its own field. Any other makes at most one, which is labelled with the text of the
formula and has the policies that the fields that it reads agree on. -/
structure Shape (p : Program) (e : Entity Float) (fields : List (Series Float)) : Prop where
  broadcast : p.Reads .broadcast → List.Forall₂ (MadeOver p e) e.fields fields
  single : ¬p.Reads .broadcast → fields.length ≤ 1
  header : ¬p.Reads .broadcast → ∀ t ∈ fields,
    t.header.label = p.source ∧ t.header.transformed = true ∧
      Agreed ((fieldsRead (.of p) e.fields).map fun s => s.header.upsample) t.header.upsample ∧
      Agreed ((fieldsRead (.of p) e.fields).map fun s => s.header.downsample) t.header.downsample

/-- What an entity fails with, which is no matter of a position: that it does not have a field that
is read, or the error of the formula at some position of a run over it. -/
def Program.FailsOn (p : Program) (e : Entity Float) (cause : EvalError) : Prop :=
  cause.isPointLocal = false ∧
    ((∃ n, p.Reads (.field n) ∧ e.fields.length ≤ n ∧ cause = .missingField (n + 1)) ∨
      ∃ driver isBroadcast position ledger, p.evaluate
        ((inputsOver (.of p) e e.fields driver isBroadcast).context position ledger) = .error cause)

/-- A run, or what has made it fail: `Meets (runOver p (.of p) e e.fields driver isBroadcast) (fun
ps => runOver p (.of p) e e.fields driver isBroadcast = .ok ps) (p.FailsOn e)`. -/
theorem runOver_meets (driver : Series Float) (isBroadcast : Bool) :
    Meets (runOver p (.of p) e e.fields driver isBroadcast)
      (fun ps => runOver p (.of p) e e.fields driver isBroadcast = .ok ps) (p.FailsOn e) := by
  have hrun := runOver_keepsLedger p e e.fields driver isBroadcast
  revert hrun
  cases runOver p (.of p) e e.fields driver isBroadcast with
  | ok ps => exact fun _ => rfl
  | error cause => exact fun ⟨results, _, hlocal, position, _, heval⟩ =>
      ⟨hlocal, .inr ⟨driver, isBroadcast, position.1, results, heval⟩⟩

/-- The description of the one output of a formula that is not broadcast:
`(outputHeader source first read).label = source`,
`(outputHeader source first read).transformed = true`,
`Agreed (read.map fun s => s.header.upsample) (outputHeader source first read).upsample` and
`Agreed (read.map fun s => s.header.downsample) (outputHeader source first read).downsample`. -/
theorem outputHeader_spec (source : String) (first : Series Float) (read : List (Series Float)) :
    (outputHeader source first read).label = source ∧
      (outputHeader source first read).transformed = true ∧
      Agreed (read.map fun s => s.header.upsample) (outputHeader source first read).upsample ∧
      Agreed (read.map fun s => s.header.downsample)
        (outputHeader source first read).downsample := by
  refine ⟨rfl, rfl, ?_⟩
  cases read with
  | nil =>
    -- there is nothing to agree on
    have hnone : ∀ q, Agreed [] q := fun q =>
      ⟨fun _ hne => absurd rfl hne, fun ⟨_, hr, _⟩ => absurd hr List.not_mem_nil⟩
    exact ⟨hnone _, hnone _⟩
  | cons s rest =>
    exact ⟨Header.agreed_foldl_combine Header.upsample (fun _ _ => rfl) s rest,
      Header.agreed_foldl_combine Header.downsample (fun _ _ => rfl) s rest⟩

/-- **The outputs of an entity have their shape**, or it fails:
`Meets (outputs p (.of p) e) (Shape p e) (p.FailsOn e)`. -/
theorem outputs_meets_shape : Meets (outputs p (.of p) e) (Shape p e) (p.FailsOn e) := by
  by_cases hmissing : ∃ n ∈ (Report.of p).fields, e.fields.length ≤ n
  · obtain ⟨n, hn, hle⟩ := hmissing
    obtain ⟨greatest, hgreatest, hmissing, houtputs⟩ := outputs_of_missing hn hle
    rw [houtputs]
    exact ⟨rfl, .inl ⟨greatest, Report.mem_fields_iff.1 hgreatest, hmissing, rfl⟩⟩
  rw [outputs_of_there fun n hn => Nat.not_le.1 fun hle => hmissing ⟨n, hn, hle⟩]
  unfold outputs.make
  by_cases hbroadcast : p.Reads .broadcast
  · -- a run over each field
    rw [if_pos (Report.usesBroadcast_iff.2 hbroadcast)]
    have hmade : ∀ s : Series Float, Meets (do
        let ps ← runOver p (.of p) e e.fields s true
        return Series.ofWrites { s.header with transformed := true } ps)
        (MadeOver p e s) (p.FailsOn e) :=
      fun s => (runOver_meets s true).bind fun ps hps => ⟨rfl, ps, hps, rfl⟩
    refine (Meets.mapM hmade e.fields).mono (fun fields hfields => ?_) fun _ h => h
    exact ⟨fun _ => hfields, fun hno => absurd hbroadcast hno, fun hno => absurd hbroadcast hno⟩
  · -- at most one run
    rw [if_neg (mt Report.usesBroadcast_iff.1 hbroadcast)]
    split
    · exact ⟨fun h => absurd h hbroadcast, fun _ => Nat.zero_le 1, fun _ => List.forall_mem_nil _⟩
    · rename_i first hfirst
      refine (runOver_meets first false).bind fun ps hps => ?_
      refine ⟨fun h => absurd h hbroadcast, fun _ => Nat.le_refl 1, fun _ => ?_⟩
      exact List.forall_mem_singleton.2 (outputHeader_spec p.source first _)

end Formula

/-! ## (4) Entities and panels -/

/-- An entity with the identity, the category and the weights of another one. -/
structure Entity.Keeps (e e' : Entity Float) : Prop where
  identity : e'.identity = e.identity
  category : e'.category = e.category
  weights : e'.weights = e.weights

/-- **What a formula leaves of an entity**, and the message that it leaves. -/
inductive Entity.Outcome (p : Program) (e : Entity Float) : Entity Float × Option String → Prop
  /-- An entity that fails is left without fields, and says why. -/
  | failed {e' : Entity Float} {cause : EvalError} :
      outputs p (.of p) e = .error cause → p.FailsOn e cause → e.Keeps e' → e'.fields = [] →
      Outcome p e (e', some ("Formula '" ++ p.source ++ "' failed for " ++ e.identity.name ++ ": "
        ++ cause.message))
  /-- Any other has the fields that the formula makes, and says nothing. -/
  | made {e' : Entity Float} :
      outputs p (.of p) e = .ok e'.fields → Shape p e e'.fields → e.Keeps e' →
      Outcome p e (e', none)

section Entities

variable {p : Program}

/-- `e.Keeps (e.replaceFields fields) ∧ (e.replaceFields fields).fields = fields`: fields that are
replaced by some that are no weights are these afterwards. -/
theorem Entity.keeps_replaceFields (e : Entity Float) {fields : List (Series Float)}
    (h : ∀ s ∈ fields, s.isWeight = false) :
    e.Keeps (e.replaceFields fields) ∧ (e.replaceFields fields).fields = fields := by
  have hnone : fields.filter Series.isWeight = [] :=
    List.filter_eq_nil_iff.2 fun s hs => by rw [h s hs]; exact Bool.false_ne_true
  have hall : fields.filter (fun s => !s.isWeight) = fields :=
    List.filter_eq_self.2 fun s hs => by rw [h s hs]; rfl
  have hweights : e.weights.filter Series.isWeight = e.weights :=
    List.filter_eq_self.2 fun s hs => (List.mem_filter.1 hs).2
  have hfields : e.weights.filter (fun s => !s.isWeight) = [] :=
    List.filter_eq_nil_iff.2 fun s hs => by rw [(List.mem_filter.1 hs).2]; exact Bool.false_ne_true
  refine ⟨⟨rfl, rfl, ?_⟩, ?_⟩
  · show (e.weights ++ fields).filter Series.isWeight = _
    rw [List.filter_append, hweights, hnone, List.append_nil]
  · show (e.weights ++ fields).filter (fun s => !s.isWeight) = _
    rw [List.filter_append, hfields, hall, List.nil_append]

/-- **A formula on an entity** has one of the two outcomes:
`e.Outcome p (e.applyFormula p (.of p))`. -/
theorem Entity.applyFormula_outcome (p : Program) (e : Entity Float) :
    e.Outcome p (e.applyFormula p (.of p)) := by
  unfold applyFormula
  cases houtputs : outputs p (.of p) e with
  | ok fields =>
    have hweight : ∀ s ∈ fields, s.isWeight = false := fun s hs =>
      ((meets_outputs p (.of p) e).of_ok houtputs s hs).2
    obtain ⟨hkeeps, hfields⟩ := e.keeps_replaceFields hweight
    refine .made ?_ ?_ hkeeps
    · rw [houtputs, hfields]
    · rw [hfields]
      exact outputs_meets_shape.of_ok houtputs
  | error cause =>
    obtain ⟨hkeeps, hfields⟩ := e.keeps_replaceFields (List.forall_mem_nil _)
    exact .failed houtputs (outputs_meets_shape.of_error houtputs) hkeeps hfields

/-- **A formula on a panel.** The entities keep their order, their identities, categories and
weights, and each is left with what the formula makes of it alone: with the fields it makes, or
without fields and with exactly one message. Nothing else changes. Each run of the formula keeps a
ledger, and where it reads the output so far, it goes through all positions, so that at each of them
the ledger has exactly as many entries, the results of the positions before. -/
theorem Panel.applyFormula_outcomes {source : String} (h : compile source = .ok p) :
    p.source = source ∧
    (∀ panel : Panel Float, ∃ results : List (Entity Float × Option String),
      List.Forall₂ (fun e result => result = e.applyFormula p (.of p) ∧ e.Outcome p result)
        panel.entities results ∧
      panel.applyFormula p = { panel with
        entities := results.map Prod.fst
        errors := panel.errors ++ results.filterMap Prod.snd }) ∧
    ∀ e fields driver isBroadcast,
      p.KeepsLedger (inputsOver (.of p) e fields driver isBroadcast) []
        (positions (.of p) (alignedInputs (.of p) driver fields).1.points)
        (runOver p (.of p) e fields driver isBroadcast) ∧
      (p.Reads .output →
        (positions (.of p) (alignedInputs (.of p) driver fields).1.points).map Prod.fst =
          List.range (alignedInputs (.of p) driver fields).1.points.length) := by
  refine ⟨?_, fun panel => ⟨panel.entities.map fun e => e.applyFormula p (.of p), ?_, rfl⟩,
    fun e fields driver isBroadcast => ⟨runOver_keepsLedger p e fields driver isBroadcast,
      fun houtput => positions_of_reads_output houtput _⟩⟩
  · obtain ⟨ts, tree, -, -, rfl⟩ := compile_eq_ok_iff.1 h
    rfl
  · rw [List.forall₂_map_right_iff, List.forall₂_same]
    exact fun e _ => ⟨rfl, e.applyFormula_outcome p⟩

/-- `compile "val2" = .ok (.ofExpr "val2" (.point (.field 1) .current))`: the second field as a
formula. -/
theorem compile_second :
    compile "val2" = .ok (.ofExpr "val2" (.point (.field 1) .current)) := by
  have hname : Reference.ofName? (Text.asciiLower "val2") = some (.field 1) := by decide +kernel
  have hsecond : Derives false .power .closed [⟨.word "val2", 0, 4⟩]
      (.value .number (.point (.field 1) .current)) := .base (.point rfl hname .none rfl)
  exact compile_eq_ok_iff.2 ⟨_, _, by cbv, ⟨_, _, .operand (.operand (.affirmed (.alone (.operand
    (.operand (.unsigned hsecond)))))), .same _⟩, rfl⟩

/-- An entity with one field. -/
def priceOnly : Entity Float :=
  { identity := ⟨"A", "a", false⟩, series := [⟨.labelled "Price", [⟨0, 1⟩], false⟩] }

/-- An entity with two fields. -/
def priceAndYield : Entity Float :=
  { identity := ⟨"B", "b", false⟩
    series := [⟨.labelled "Price", [⟨0, 1⟩], false⟩, ⟨.labelled "Yield", [⟨1, 5⟩], false⟩] }

/-- The first entity has no second field, and says so; the other one has. -/
theorem Panel.applyFormula_outcomes_second : ∃ p, compile "val2" = .ok p ∧
    ∃ e e', Panel.applyFormula { entities := [priceOnly, priceAndYield] } p =
      { entities := [e, e']
        errors := ["Formula 'val2' failed for A: Series val2 is not available"] } ∧
      e.fields = [] ∧ e'.fields.map Series.label = ["val2"] := by
  have hmissing : outputs (.ofExpr "val2" (.point (.field 1) .current))
      (.of (.ofExpr "val2" (.point (.field 1) .current))) priceOnly = .error (.missingField 2) := by
    cbv
  have hthere : outputs (.ofExpr "val2" (.point (.field 1) .current))
      (.of (.ofExpr "val2" (.point (.field 1) .current))) priceAndYield =
      .ok [.ofWrites { Header.labelled "val2" with transformed := true } [⟨1, 5⟩]] := by
    cbv
  obtain ⟨-, houtcomes, -⟩ := applyFormula_outcomes compile_second
  obtain ⟨results, hresults, happly⟩ := houtcomes { entities := [priceOnly, priceAndYield] }
  cases hresults with
  | cons hfirst hrest =>
  cases hrest with
  | cons hsecond hnil =>
  cases hnil
  obtain ⟨-, hfirst⟩ := hfirst
  obtain ⟨-, hsecond⟩ := hsecond
  cases hfirst with
  | made houtputs => cases hmissing.symm.trans houtputs
  | @failed e _ houtputs _ _ hnone =>
  obtain rfl := Except.error.inj (hmissing.symm.trans houtputs)
  cases hsecond with
  | failed houtputs => cases hthere.symm.trans houtputs
  | @made e' houtputs =>
  refine ⟨_, compile_second, e, e', happly.trans ?_, hnone, ?_⟩
  · have hmessage : "Formula '" ++ "val2" ++ "' failed for " ++ "A" ++ ": "
        ++ (EvalError.missingField 2).message =
        "Formula 'val2' failed for A: Series val2 is not available" := by
      decide +kernel
    exact congrArg (fun m => Panel.mk _ "" [m] .line) hmessage
  · rw [← Except.ok.inj (hthere.symm.trans houtputs)]
    rfl

end Entities

end PanelQuery
