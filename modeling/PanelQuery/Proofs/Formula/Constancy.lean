import PanelQuery.Proofs.Formula.Causality

/-! # Formulas that do not vary

The report of a program tells from its operations alone whether its value can differ between
positions. Where it says no, the value is the same at every position, whatever the output so far is,
and so one point has all that there is to know about the output.

* **`Program.Steady`, `Report.isTimeVarying_eq_false_iff`** — what the report looks for: the
  position, the output so far, and indices that count from the position;
* **`Program.Steady.loadsAgree`** — without these, all loads agree at any two positions;
* **`runAt_of_pointValue_eq`** — a run whose value is the same everywhere;
* **`evaluate_of_not_isTimeVarying`** — a program that does not vary, and its output. -/

namespace PanelQuery.Formula

variable {p : Program}

/-! ## (1) Indices -/

/-- **A position that does not count from the current one** is the same at all of them:
`code.eval o length n = code.eval o length m`. -/
theorem IndexCode.eval_of_not_current {code : IndexCode} (h : .current ∉ code) (o : Overflow)
    (length n m : Nat) : code.eval o length n = code.eval o length m := by
  -- the two stacks stay the same, operation by operation
  have hfold : ∀ stack : List Int,
      code.foldlM (fun stack op => op.step o length n stack) stack =
        code.foldlM (fun stack op => op.step o length m stack) stack := by
    induction code with
    | nil => exact fun _ => rfl
    | cons op code ih =>
      rw [List.mem_cons, not_or] at h
      have hstep : ∀ stack, op.step o length n stack = op.step o length m stack := by
        intro stack
        cases op with
        | current => exact absurd rfl h.1
        | first | last | constant k => rfl
        | add | sub => rcases stack with _ | ⟨b, _ | ⟨a, stack⟩⟩ <;> rfl
      intro stack
      rw [List.foldlM_cons, List.foldlM_cons, hstep]
      exact congrArg (op.step o length m stack >>= ·) (funext fun stack => ih h.2 stack)
  rw [eval, eval, hfold]

/-- `spec.point? o n = spec.point? o m ∧ spec.ends o n = spec.ends o m`: where an index does not
depend on the position, neither do the one position and the two ends that it asks for. -/
theorem IndexSpec.eq_of_not_usesCurrent {spec : IndexSpec} (h : spec.usesCurrent = false)
    (o : Overflow) (n m : Nat) :
    spec.point? o n = spec.point? o m ∧ spec.ends o n = spec.ends o m := by
  cases spec with
  | point code =>
    have hcode : ∀ length, code.eval o length n = code.eval o length m := fun length =>
      IndexCode.eval_of_not_current (by simpa [usesCurrent] using h) o length n m
    refine ⟨funext hcode, funext fun length => ?_⟩
    rw [ends, ends, hcode]
  | range low high =>
    obtain ⟨hlow, hhigh⟩ : .current ∉ low ∧ .current ∉ high := by
      simpa [usesCurrent] using h
    refine ⟨rfl, funext fun length => ?_⟩
    rw [ends, ends, IndexCode.eval_of_not_current hlow o length n m,
      IndexCode.eval_of_not_current hhigh o length n m]

/-! ## (2) Steady programs -/

/-- A program that asks for nothing that changes from position to position. -/
structure Program.Steady (p : Program) : Prop where
  /-- It does not read the position. -/
  position : .loadPosition ∉ p.ops
  /-- It does not read the output so far. -/
  output : ¬p.Reads .output
  /-- No index that it uses counts from the position. -/
  index : ∀ op ∈ p.ops, ∀ slot spec, op.slot? = some slot → p.indices[slot]? = some spec →
    spec.usesCurrent = false

/-- **What a report says** when it says that the value does not vary:
`(Report.of p).isTimeVarying = false ↔ p.Steady`. -/
theorem Report.isTimeVarying_eq_false_iff : (Report.of p).isTimeVarying = false ↔ p.Steady := by
  have hposition : (Report.of p).usesPosition = false ↔ .loadPosition ∉ p.ops := by
    refine List.any_eq_false.trans ⟨fun h hmem => h _ hmem rfl, fun h op hop hload => ?_⟩
    split at hload
    · exact h hop
    · cases hload
  have houtput : (Report.of p).usesOutput = false ↔ ¬p.Reads .output := by
    rw [← Bool.not_eq_true]
    exact not_congr usesOutput_iff
  have hindex : (Report.of p).indexesCurrent = false ↔ ∀ op ∈ p.ops, ∀ slot spec,
      op.slot? = some slot → p.indices[slot]? = some spec → spec.usesCurrent = false := by
    refine List.any_eq_false.trans (forall₂_congr fun op _ => ⟨fun h slot spec hslot hspec => ?_,
      fun h => ?_⟩)
    · rw [hslot, Option.bind_some, hspec] at h
      exact Bool.eq_false_iff.2 h
    · split
      · rename_i spec hspec
        obtain ⟨slot, hslot, hspec⟩ := Option.bind_eq_some_iff.1 hspec
        exact Bool.eq_false_iff.1 (h slot spec hslot hspec)
      · exact Bool.false_ne_true
  rw [isTimeVarying, Bool.or_eq_false_iff, Bool.or_eq_false_iff, hposition, houtput, hindex]
  exact ⟨fun h => ⟨h.2, h.1.2, h.1.1⟩, fun h => ⟨⟨h.index, h.output⟩, h.position⟩⟩

section Loads

variable {x : Inputs} {reference : Reference} {n m : Nat} {ledger ledger' : Ledger}

/-- The value of a series that is not the output has nothing to do with position and output:
`(x.context n ledger).pointAt reference resolve` is
`(x.context m ledger').pointAt reference resolve`. -/
theorem pointAt_context (hreference : reference ≠ .output) (resolve : Nat → Except EvalError Int) :
    (x.context n ledger).pointAt reference resolve =
      (x.context m ledger').pointAt reference resolve := by
  cases reference with
  | output => exact absurd rfl hreference
  | broadcast | field k => rfl

/-- Nor have its stretches: `(x.context n ledger).cutBetween reference resolve` is
`(x.context m ledger').cutBetween reference resolve`. -/
theorem cutBetween_context (hreference : reference ≠ .output)
    (resolve : Nat → Except EvalError (Int × Int)) :
    (x.context n ledger).cutBetween reference resolve =
      (x.context m ledger').cutBetween reference resolve := by
  cases reference with
  | output => exact absurd rfl hreference
  | broadcast | field k => rfl

/-- **All loads of a steady program agree** at any two positions, with any outputs so far:
`Context.LoadsAgree p Eq (x.context n ledger) (x.context m ledger')`. -/
theorem Program.Steady.loadsAgree (h : p.Steady) (x : Inputs) (n m : Nat)
    (ledger ledger' : Ledger) :
    Context.LoadsAgree p Eq (x.context n ledger) (x.context m ledger') := by
  have hreads : ∀ op ∈ p.ops, ∀ reference, op.reference? = some reference → reference ≠ .output :=
    fun op hop reference href hout => h.output ⟨op, hop, hout ▸ href⟩
  refine ⟨fun hop => absurd hop h.position, fun reference slot spec hop hslot => ?_,
    fun reference slot spec hop hslot => ?_, fun slot spec hop hslot => ?_⟩
  · have hspec := IndexSpec.eq_of_not_usesCurrent (h.index _ hop slot spec rfl hslot) x.overflow n m
    exact .of_eq (fun _ => rfl) (hspec.1 ▸ pointAt_context (hreads _ hop reference rfl) _)
  · have hspec := IndexSpec.eq_of_not_usesCurrent (h.index _ hop slot spec rfl hslot) x.overflow n m
    exact .of_eq (fun _ => rfl) (hspec.2 ▸ cutBetween_context (hreads _ hop reference rfl) _)
  · -- a category is looked up by the dates of the driver
    have hspec := IndexSpec.eq_of_not_usesCurrent (h.index _ hop slot spec rfl hslot) x.overflow n m
    exact .of_eq (fun _ => rfl) (congrArg (x.context n ledger).categoryAt hspec.1)

/-- **A steady program has one value**, or one error, at all positions:
`p.evaluate (x.context n ledger) = p.evaluate (x.context m ledger')`. -/
theorem Program.Steady.evaluate (h : p.Steady) (x : Inputs) (n m : Nat)
    (ledger ledger' : Ledger) :
    p.evaluate (x.context n ledger) = p.evaluate (x.context m ledger') :=
  (p.evaluate_agree (fun _ => rfl) (h.loadsAgree x n m ledger ledger')).eq

end Loads

/-! ## (3) Runs -/

/-- Points of an output on other dates: each of them on every date. -/
def spread (times : List Instant) (out : Points Float) : Points Float :=
  times.flatMap fun t => out.map fun q => ⟨t, q.value⟩

/-- `spread times (pointsAt time value) = times.flatMap fun t => pointsAt t value`: the points of
one position, spread over dates. -/
theorem spread_pointsAt (times : List Instant) (time : Instant) (value : Option Float) :
    spread times (pointsAt time value) = times.flatMap fun t => pointsAt t value := by
  unfold spread
  cases value <;> rfl

section Runs

variable {x : Inputs}

/-- A run that has the same value at each position: `runAt p x ledger positions` is
`.ok ((positions.map Prod.snd).flatMap fun t => pointsAt t value)`. -/
theorem runAt_of_pointValue_eq {value : Option Float}
    (h : ∀ n ledger, pointValue p (x.context n ledger) = .ok value) (ledger : Ledger)
    (positions : List (Nat × Instant)) :
    runAt p x ledger positions =
      .ok ((positions.map Prod.snd).flatMap fun t => pointsAt t value) := by
  induction positions generalizing ledger with
  | nil => rw [runAt]; rfl
  | cons position positions ih =>
    rw [runAt_cons, h]
    show (runAt p x (ledger ++ [value]) positions).map _ = _
    rw [ih]
    rfl

/-- `runAt p x ledger positions = .error e`: a run that fails at each position fails at the
first. -/
theorem runAt_of_pointValue_eq_error {e : EvalError}
    (h : ∀ n ledger, pointValue p (x.context n ledger) = .error e) (ledger : Ledger)
    {positions : List (Nat × Instant)} (hne : positions ≠ []) :
    runAt p x ledger positions = .error e := by
  obtain ⟨position, rest, rfl⟩ := List.exists_cons_of_ne_nil hne
  rw [runAt_cons, h]
  rfl

/-- The positions of dates and one more: `positionsFrom start (times ++ [last])` is
`positionsFrom start times ++ [(start + times.length, last)]`. -/
theorem positionsFrom_concat (start : Nat) (times : List Instant) (last : Instant) :
    positionsFrom start (times ++ [last]) =
      positionsFrom start times ++ [(start + times.length, last)] :=
  positionsFrom_append start times [last]

/-- An output that does not vary is computed at the last position: `positions r driver` is
`(positionsFrom 0 driver.times).drop ((positionsFrom 0 driver.times).length - 1)`. -/
theorem positions_of_not_isTimeVarying {r : Report} (h : r.isTimeVarying = false)
    (driver : Points Float) : positions r driver =
      (positionsFrom 0 driver.times).drop ((positionsFrom 0 driver.times).length - 1) := by
  unfold positions
  exact if_neg (by rw [h]; exact Bool.false_ne_true)

/-- **Nothing is lost where a value that is the same everywhere is computed at the last position
alone**: `runAt p x [] (positionsFrom 0 x.driver.times)` is
`(runAt p x [] (positions (.of p) x.driver)).map (spread x.driver.times)`. -/
theorem Program.Steady.runAt_eq_spread (h : p.Steady) (x : Inputs) :
    runAt p x [] (positionsFrom 0 x.driver.times) =
      (runAt p x [] (positions (.of p) x.driver)).map (spread x.driver.times) := by
  rw [positions_of_not_isTimeVarying (Report.isTimeVarying_eq_false_iff.2 h)]
  cases hlast : x.driver.times.getLast? with
  | none =>
    -- there is no date at all
    rw [List.getLast?_eq_none_iff.1 hlast]
    show runAt p x [] [] = (runAt p x [] []).map (spread [])
    rw [runAt]
    rfl
  | some last =>
    obtain ⟨before, htimes⟩ := List.getLast?_eq_some_iff.1 hlast
    rw [htimes, positionsFrom_concat, List.length_append, List.length_singleton,
      Nat.add_sub_cancel, List.drop_left]
    -- the value of the first position is that of all others
    have hsame : ∀ n ledger, pointValue p (x.context n ledger) = pointValue p (x.context 0 []) :=
      fun n ledger => congrArg settle (h.evaluate x n 0 ledger [])
    cases hvalue : pointValue p (x.context 0 []) with
    | ok value =>
      rw [runAt_of_pointValue_eq fun n ledger => (hsame n ledger).trans hvalue,
        runAt_of_pointValue_eq fun n ledger => (hsame n ledger).trans hvalue,
        ← positionsFrom_concat, map_snd_positionsFrom, List.map_singleton,
        List.flatMap_singleton]
      exact congrArg Except.ok (spread_pointsAt _ _ value).symm
    | error e =>
      rw [runAt_of_pointValue_eq_error (fun n ledger => (hsame n ledger).trans hvalue) [] (by simp),
        runAt_of_pointValue_eq_error (fun n ledger => (hsame n ledger).trans hvalue) [] (by simp)]
      rfl

end Runs

/-- **A formula that does not vary**, by its report, has the same value or the same error at any two
positions, with any two outputs so far:
`(∀ n m ledger ledger', p.evaluate (x.context n ledger) = p.evaluate (x.context m ledger'))` and
`runAt p x [] (positionsFrom 0 x.driver.times)` is
`(runAt p x [] (positions (.of p) x.driver)).map (spread x.driver.times)`. So the output that it has
over all dates is what it has at the last of them, on each of them. -/
theorem evaluate_of_not_isTimeVarying (h : (Report.of p).isTimeVarying = false) (x : Inputs) :
    (∀ n m ledger ledger',
      p.evaluate (x.context n ledger) = p.evaluate (x.context m ledger')) ∧
      runAt p x [] (positionsFrom 0 x.driver.times) =
        (runAt p x [] (positions (.of p) x.driver)).map (spread x.driver.times) := by
  have hsteady := Report.isTimeVarying_eq_false_iff.1 h
  exact ⟨hsteady.evaluate x, hsteady.runAt_eq_spread x⟩

/-- The sum of all values over the first one, `sum(val) / val[begin]`. -/
def Program.total : Program :=
  .ofExpr "sum(val) / val[begin]" (.arith .div (.fold .sum ⟨.broadcast, .range .first .last⟩)
    (.point .broadcast .first))

/-- Three prices that a formula is broadcast over. -/
def Inputs.threePrices : Inputs :=
  { fields := []
    broadcast := some [⟨0, 2⟩, ⟨1, 3⟩, ⟨2, 5⟩]
    driver := [⟨0, 2⟩, ⟨1, 3⟩, ⟨2, 5⟩]
    category := none }

/-- The sum is the same on the first day and, after some output, on the third; and it stands on
every day when it is computed on the last. -/
theorem evaluate_of_not_isTimeVarying_total :
    compile "sum(val) / val[begin]" = .ok .total ∧ (Report.of .total).isTimeVarying = false ∧
    Program.total.evaluate (Inputs.threePrices.context 0 []) =
      Program.total.evaluate (Inputs.threePrices.context 2 [some 5, none]) ∧
    runAt .total .threePrices [] (positionsFrom 0 [0, 1, 2]) =
      .ok [⟨0, 5⟩, ⟨1, 5⟩, ⟨2, 5⟩] := by
  have h : (Report.of .total).isTimeVarying = false := by decide +kernel
  obtain ⟨hvalue, hrun⟩ := evaluate_of_not_isTimeVarying h .threePrices
  have hlast : runAt .total .threePrices [] (positions (.of .total) Inputs.threePrices.driver) =
      .ok [⟨2, 5⟩] := by decide +kernel
  rw [hlast] at hrun
  exact ⟨by cbv, h, hvalue 0 2 [] [some 5, none], hrun⟩

end PanelQuery.Formula
