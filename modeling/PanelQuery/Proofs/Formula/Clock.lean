import PanelQuery.Proofs.Formula.Compilation
import PanelQuery.Proofs.Formula.Constancy
import PanelQuery.Proofs.Formula.Fragments

/-! # Formulas on one clock

A formula that combines the current values of several fields is computed on the dates of the first
of them, from the date on up to which all have begun, and it does not matter that positions are
counted in series that have been moved: on each date it has the value that it has on the last
observations of the fields up to that date.

* **`Expr.isPointwise`** — formulas of current values;
* **`Expr.eval_eq_of_current`** — they depend on these values only, and fail for local reasons;
* **`Context.asOf`** — what is known on a date;
* **`runAt_agrees`** — a run that computes a function of the date;
* **`outputs_onOneClock`** — aligned series, and the output of such a formula. -/

namespace PanelQuery.Formula

/-! ## (1) Formulas of current values -/

/-- Whether an expression is made of constants, operators, conditionals and the current values of
fields. -/
def Expr.isPointwise {τ : Ty} : Expr τ → Bool
  | .number _ | .truth _ | .text _ | .point (.field _) .current => true
  | .point .. | .position | .category _ | .fold .. | .pairFold .. => false
  | .negate a | .complement a | .toBoolean a | .toNumber a => a.isPointwise
  | .arith _ a b | .compare _ a b | .sameText _ a b | .both a b | .either a b =>
      a.isPointwise && b.isPointwise
  | .choose condition yes no => condition.isPointwise && yes.isPointwise && no.isPointwise

/-- `Context.current ctx reference`: the current value of a series. -/
def Context.current (ctx : Context) (reference : Reference) : Except EvalError Float :=
  ctx.pointAt reference fun _ => .ok ctx.position

section Pointwise

variable {τ : Ty} {e : Expr τ}

/-- `a = true ∧ b = true`: two operands are of current values when both are. -/
theorem Expr.isPointwise_and {a b : Bool} (h : (a && b) = true) : a = true ∧ b = true :=
  Bool.and_eq_true_iff.1 h

/-- A series that is read is a field at the current position:
`∃ n, reference = .field n ∧ b = .current`. -/
theorem Expr.exists_field_of_point {reference : Reference} {b : Bound}
    (h : (Expr.point reference b).isPointwise) : ∃ n, reference = .field n ∧ b = .current := by
  cases reference with
  | field n =>
    cases b with
    | current => exact ⟨n, rfl, rfl⟩
    | first | last | constant | add | sub => cases h
  | broadcast | output => cases h

/-- Fields are the only series that such an expression reads: `∃ n, reference = .field n`. -/
theorem Expr.exists_field_of_isPointwise (h : e.isPointwise) {reference : Reference}
    (href : reference ∈ e.references) : ∃ n, reference = .field n := by
  induction e with
  | number | truth | text | position | category => cases href
  | point r b =>
    obtain ⟨n, rfl, rfl⟩ := exists_field_of_point h
    exact ⟨n, List.mem_singleton.1 href⟩
  | negate a ih | complement a ih | toBoolean a ih | toNumber a ih => exact ih h href
  | arith op a b iha ihb | compare op a b iha ihb | sameText op a b iha ihb =>
    obtain ⟨ha, hb⟩ := isPointwise_and h
    exact (List.mem_append.1 href).elim (iha ha) (ihb hb)
  | both a b iha ihb | either a b iha ihb =>
    obtain ⟨ha, hb⟩ := isPointwise_and h
    exact (List.mem_append.1 href).elim (iha ha) (ihb hb)
  | fold | pairFold => cases h
  | choose condition yes no ihc ihy ihn =>
    obtain ⟨h, hno⟩ := isPointwise_and h
    obtain ⟨hcondition, hyes⟩ := isPointwise_and h
    rcases List.mem_append.1 href with href | href
    · exact (List.mem_append.1 href).elim (ihc hcondition) (ihy hyes)
    · exact ihn hno href

/-- All indices of such an expression are the current position:
`∀ spec ∈ e.fragment.specs, spec = .point [.current]`. -/
theorem Expr.specs_of_isPointwise (h : e.isPointwise) :
    ∀ spec ∈ e.fragment.specs, spec = .point [.current] := by
  have happend : ∀ f g : Fragment, (∀ spec ∈ f.specs, spec = .point [.current]) →
      (∀ spec ∈ g.specs, spec = .point [.current]) →
      ∀ spec ∈ (f ++ g).specs, spec = .point [.current] :=
    fun f g hf hg => List.forall_mem_append.2 ⟨hf, hg⟩
  have hop : ∀ o : Op, ∀ spec ∈ (Fragment.op o).specs, spec = .point [.current] :=
    fun o => List.forall_mem_nil _
  induction e with
  | number | truth | text => exact List.forall_mem_nil _
  | position | category | fold | pairFold => cases h
  | point r b =>
    obtain ⟨n, rfl, rfl⟩ := exists_field_of_point h
    exact List.forall_mem_singleton.2 rfl
  | negate a ih | complement a ih | toBoolean a ih | toNumber a ih =>
    exact happend _ _ (ih h) (hop _)
  | arith op a b iha ihb | compare op a b iha ihb | sameText op a b iha ihb =>
    obtain ⟨ha, hb⟩ := isPointwise_and h
    exact happend _ _ (happend _ _ (iha ha) (ihb hb)) (hop _)
  | both a b iha ihb | either a b iha ihb =>
    obtain ⟨ha, hb⟩ := isPointwise_and h
    exact happend _ _ (happend _ _ (iha ha) (ihb hb)) (hop _)
  | choose condition yes no ihc ihy ihn =>
    obtain ⟨h, hno⟩ := isPointwise_and h
    obtain ⟨hcondition, hyes⟩ := isPointwise_and h
    exact List.forall_mem_append.2 ⟨List.forall_mem_append.2 ⟨ihc hcondition, ihy hyes⟩, ihn hno⟩

/-- **An expression of current values depends on them only**: `e.eval ctx = e.eval ctx'`. -/
theorem Expr.eval_eq_of_current (h : e.isPointwise) {ctx ctx' : Context}
    (hsame : ∀ reference ∈ e.references, ctx.current reference = ctx'.current reference) :
    e.eval ctx = e.eval ctx' := by
  induction e with
  | number | truth | text => rfl
  | position | category | fold | pairFold => cases h
  | point r b =>
    obtain ⟨n, rfl, rfl⟩ := exists_field_of_point h
    exact hsame _ (List.mem_singleton.2 rfl)
  | negate a ih | complement a ih | toBoolean a ih | toNumber a ih =>
    rw [eval, eval, ih h hsame]
  | arith op a b iha ihb | compare op a b iha ihb | sameText op a b iha ihb =>
    obtain ⟨ha, hb⟩ := isPointwise_and h
    obtain ⟨hsamea, hsameb⟩ := List.forall_mem_append.1 hsame
    rw [eval, eval, iha ha hsamea, ihb hb hsameb]
  | both a b iha ihb | either a b iha ihb =>
    obtain ⟨ha, hb⟩ := isPointwise_and h
    obtain ⟨hsamea, hsameb⟩ := List.forall_mem_append.1 hsame
    rw [eval, eval, iha ha hsamea, ihb hb hsameb]
  | choose condition yes no ihc ihy ihn =>
    obtain ⟨h, hno⟩ := isPointwise_and h
    obtain ⟨hcondition, hyes⟩ := isPointwise_and h
    obtain ⟨hsame, hsamen⟩ := List.forall_mem_append.1 hsame
    obtain ⟨hsamec, hsamey⟩ := List.forall_mem_append.1 hsame
    rw [eval, eval, ihc hcondition hsamec, ihy hyes hsamey, ihn hno hsamen]

/-- `Meets (op.apply a b) (fun _ => True) fun cause => cause.isPointLocal = true`: an operator fails
at a position only. -/
theorem ArithOp.apply_isPointLocal (op : ArithOp) (a b : Float) :
    Meets (op.apply a b) (fun _ => True) fun cause => cause.isPointLocal = true := by
  cases op with
  | add | sub | mul | pow => trivial
  | div | mod =>
    dsimp only [apply]
    split
    · rfl
    · trivial

/-- **Where all current values are there, only the position can be at fault**:
`Meets (e.eval ctx) (fun _ => True) fun cause => cause.isPointLocal = true`. -/
theorem Expr.eval_meets_of_current (h : e.isPointwise) {ctx : Context}
    (hthere : ∀ reference ∈ e.references, ∃ x, ctx.current reference = .ok x) :
    Meets (e.eval ctx) (fun _ => True) fun cause => cause.isPointLocal = true := by
  induction e with
  | number | truth | text => trivial
  | position | category | fold | pairFold => cases h
  | point r b =>
    obtain ⟨n, rfl, rfl⟩ := exists_field_of_point h
    obtain ⟨x, hx⟩ := hthere _ (List.mem_singleton.2 rfl)
    show Meets (ctx.current (.field n)) _ _
    rw [hx]
    trivial
  | negate a ih | complement a ih | toBoolean a ih | toNumber a ih =>
    rw [eval]
    exact (ih h hthere).bind fun _ _ => trivial
  | arith op a b iha ihb =>
    obtain ⟨ha, hb⟩ := isPointwise_and h
    obtain ⟨htherea, hthereb⟩ := List.forall_mem_append.1 hthere
    rw [eval]
    exact (iha ha htherea).bind fun x _ => (ihb hb hthereb).bind fun y _ =>
      op.apply_isPointLocal x y
  | compare op a b iha ihb | sameText op a b iha ihb =>
    obtain ⟨ha, hb⟩ := isPointwise_and h
    obtain ⟨htherea, hthereb⟩ := List.forall_mem_append.1 hthere
    rw [eval]
    exact (iha ha htherea).bind fun _ _ => (ihb hb hthereb).bind fun _ _ => trivial
  | both a b iha ihb | either a b iha ihb =>
    obtain ⟨ha, hb⟩ := isPointwise_and h
    obtain ⟨htherea, hthereb⟩ := List.forall_mem_append.1 hthere
    rw [eval]
    exact (iha ha htherea).bind fun _ _ => (ihb hb hthereb).bind fun _ _ => trivial
  | choose condition yes no ihc ihy ihn =>
    obtain ⟨h, hno⟩ := isPointwise_and h
    obtain ⟨hcondition, hyes⟩ := isPointwise_and h
    obtain ⟨hthere, htheren⟩ := List.forall_mem_append.1 hthere
    obtain ⟨htherec, htherey⟩ := List.forall_mem_append.1 hthere
    rw [eval]
    refine (ihc hcondition htherec).bind fun test _ => ?_
    cases test with
    | true => exact ihy hyes htherey
    | false => exact ihn hno htheren

end Pointwise

/-! ## (2) What is known on a date -/

/-- What is known of fields on a date: the last observation of each up to then. -/
def Context.asOf (fields : List (Series Float)) (d : Instant) : Context where
  fields := fields.map fun s => (s.points.asOf? d).toList
  broadcast := none
  driver := []
  category := none
  position := 0
  ledger := []

/-- `ctx.current (.field n) = .ok ps[ctx.position].value`: the current value of a field that reaches
to the position. -/
theorem Context.current_field {ctx : Context} {n : Nat} {ps : Points Float}
    (hps : ctx.fields[n]? = some ps) (hlt : ctx.position < List.length ps) :
    ctx.current (.field n) = .ok ps[ctx.position].value := by
  have hpoints : ctx.points (.field n) = .ok ps := by
    rw [Context.points, hps]
  have hlength := CutOff.length_of_points (by simp) hpoints
  have hvalue := CutOff.valueAt_of_points (by simp) hpoints hlt
  have hchecked : checked ctx.position (List.length ps) = .ok ctx.position := by
    unfold checked
    rw [if_neg (by omega), Int.toNat_natCast]
  show (ctx.length (.field n) >>= fun length => _) = _
  rw [hlength]
  show (checked ctx.position (List.length ps) >>= fun n => _) = _
  rw [hchecked]
  exact hvalue

/-- `(Context.asOf fields d).current (.field n) = .ok v`: on a date, the current value of a field is
what it carries forward to the date. -/
theorem Context.current_asOf {fields : List (Series Float)} {n : Nat} {s : Series Float}
    (hs : fields[n]? = some s) {d : Instant} {v : Float} (hv : s.points.carried? d = some v) :
    (Context.asOf fields d).current (.field n) = .ok v := by
  obtain ⟨p, hp, rfl⟩ := Option.map_eq_some_iff.1 hv
  have hfield : (Context.asOf fields d).fields[n]? = some [p] := by
    show (fields.map _)[n]? = _
    rw [List.getElem?_map, hs, Option.map_some, hp]
    rfl
  exact current_field hfield (Nat.zero_lt_one)

/-! ## (3) Runs -/

/-- **A run that computes a function of the date**, at each position whatever the output so far is,
has the values of this function on its dates, unless a stack overflows: `Agrees (runAt p x ledger
(positionsFrom start times)) (.ok (Points.onDates times fun d => (f d).toOption))`. Dates on which
the function fails are left out. -/
theorem runAt_agrees {p : Program} {x : Inputs} {f : Instant → Except EvalError Float}
    {times : List Instant} (start : Nat)
    (hvalue : ∀ k d, times[k]? = some d → ∀ ledger,
      Agrees (p.evaluate (x.context (start + k) ledger)) (f d))
    (hlocal : ∀ d ∈ times, ∀ cause, f d = .error cause → cause.isPointLocal = true)
    (ledger : Ledger) : Agrees (runAt p x ledger (positionsFrom start times))
      (.ok (Points.onDates times fun d => (f d).toOption)) := by
  induction times generalizing start ledger with
  | nil => exact .inl (by show runAt p x ledger [] = _; rw [runAt]; rfl)
  | cons time times ih =>
    obtain ⟨hfirst, hothers⟩ := List.forall_mem_cons.1 hlocal
    rw [positionsFrom_cons, runAt_cons, Points.onDates_cons]
    have hlater := fun ledger => ih (start + 1) (fun k d hd ledger => by
      rw [Nat.add_assoc, Nat.add_comm 1]
      exact hvalue (k + 1) d hd ledger) hothers ledger
    rcases hvalue 0 time rfl ledger with hok | hoverflow
    · rw [Nat.add_zero] at hok
      rw [pointValue, hok]
      cases hf : f time with
      | ok v =>
        show Agrees ((runAt p x _ _).map _) _
        exact (hlater _).bind fun _ => .refl _
      | error cause =>
        have hsettle : settle (.error cause) = .ok none := if_pos (hfirst cause hf)
        rw [hsettle]
        show Agrees ((runAt p x _ _).map _) _
        exact (hlater _).bind fun _ => .refl _
    · rw [Nat.add_zero] at hoverflow
      rw [pointValue, hoverflow]
      exact .inr rfl

/-! ## (4) Outputs -/

/-- `Expr.fieldsRead e fields`: the fields of an entity that an expression reads. -/
def Expr.fieldsRead {τ : Ty} (e : Expr τ) (fields : List (Series Float)) : List (Series Float) :=
  e.references.filterMap fun
    | .field n => fields[n]?
    | _ => none

/-- **A formula of the current values of several fields**, all of which are there and in order, of
which the first one by its place is `first`. -/
structure Expr.Combines (e : Expr .number) (fields : List (Series Float)) (first : Series Float) :
    Prop where
  pointwise : e.isPointwise = true
  increasing : ∀ s ∈ fields, s.Increasing
  there : ∀ n, .field n ∈ e.references → n < fields.length
  several : ∃ lowest n, .field lowest ∈ e.references ∧ .field n ∈ e.references ∧ lowest ≠ n ∧
    (∀ m, .field m ∈ e.references → lowest ≤ m) ∧ fields[lowest]? = some first

section Outputs

variable {source : String} {e : Expr .number}

/-- `n ∈ (Report.of (.ofExpr source e)).fields ↔ .field n ∈ e.references`: the fields that a report
names are those of the expression. -/
theorem mem_fields_ofExpr {n : Nat} :
    n ∈ (Report.of (.ofExpr source e)).fields ↔ .field n ∈ e.references :=
  Report.mem_fields_iff.trans Program.reads_ofExpr

/-- `s ∈ fieldsRead (.of (.ofExpr source e)) fields ↔ s ∈ e.fieldsRead fields`: the series that a
report names are those of the expression. -/
theorem mem_fieldsRead_ofExpr {fields : List (Series Float)} {s : Series Float} :
    s ∈ fieldsRead (.of (.ofExpr source e)) fields ↔ s ∈ e.fieldsRead fields := by
  unfold fieldsRead Expr.fieldsRead
  rw [List.mem_filterMap, List.mem_filterMap]
  constructor
  · rintro ⟨n, hn, hs⟩
    exact ⟨.field n, mem_fields_ofExpr.1 hn, hs⟩
  · rintro ⟨reference, href, hs⟩
    cases reference with
    | field n => exact ⟨n, mem_fields_ofExpr.2 href, hs⟩
    | broadcast | output => cases hs

/-- `¬(Report.of (.ofExpr source e)).usesBroadcast = true`: a formula of current values is not
broadcast. -/
theorem not_usesBroadcast_ofExpr (h : e.isPointwise) :
    ¬(Report.of (.ofExpr source e)).usesBroadcast = true := by
  intro hbroadcast
  have hread := Program.reads_ofExpr.1 (Report.usesBroadcast_iff.1 hbroadcast)
  obtain ⟨n, hn⟩ := e.exists_field_of_isPointwise h hread
  cases hn

/-- `(Report.of (.ofExpr source e)).isTimeVarying = true`: a formula of current values can differ
between positions, if there is one value at least. -/
theorem isTimeVarying_ofExpr (h : e.isPointwise) {reference : Reference}
    (href : reference ∈ e.references) : (Report.of (.ofExpr source e)).isTimeVarying = true := by
  by_contra hnot
  have hsteady := Report.isTimeVarying_eq_false_iff.1 (Bool.of_not_eq_true hnot)
  have hreads : (Program.ofExpr source e).Reads reference := Program.reads_ofExpr.2 href
  obtain ⟨op, hop, hop'⟩ := hreads
  obtain ⟨slot, hslot⟩ : ∃ slot, op.slot? = some slot := by
    cases op with
    | load _ slot | loadStretch _ slot => exact ⟨slot, rfl⟩
    | _ => cases hop'
  -- the load has an index, which is the current position
  have hlt := (Program.checked_ofExpr source e).index_lt op hop slot hslot
  have hspec := List.getElem?_eq_getElem hlt
  have hcurrent : (Program.ofExpr source e).indices[slot] = .point [.current] := by
    have hmem : (Program.ofExpr source e).indices[slot] ∈ e.fragment.specs := by
      have hindices : (Program.ofExpr source e).indices = e.fragment.specs := by
        rw [Program.ofExpr_eq]
        rfl
      exact hindices ▸ List.getElem_mem hlt
    exact e.specs_of_isPointwise h _ hmem
  have hsame := hsteady.index op hop slot _ hslot hspec
  rw [hcurrent] at hsame
  cases hsame

variable {fields : List (Series Float)} {first : Series Float}

namespace Expr.Combines

/-- `fields[(Report.of (.ofExpr source e)).lowestField?.getD 0]? = some first`: the driver of the
output is the first field that is read. -/
theorem driver (h : e.Combines fields first) (source : String) :
    fields[(Report.of (.ofExpr source e)).lowestField?.getD 0]? = some first := by
  obtain ⟨lowest, n, hlowest, -, -, hleast, hfirst⟩ := h.several
  rw [Report.lowestField?_eq_some (mem_fields_ofExpr.2 hlowest) fun m hm =>
    hleast m (mem_fields_ofExpr.1 hm)]
  exact hfirst

/-- `(Report.of (.ofExpr source e)).needsAlignment = true`: the fields that are read are aligned. -/
theorem needsAlignment (h : e.Combines fields first) (source : String) :
    (Report.of (.ofExpr source e)).needsAlignment = true := by
  obtain ⟨lowest, n, hlowest, hn, hne, -, -⟩ := h.several
  have hlowest : lowest ∈ (Report.of (.ofExpr source e)).fields := mem_fields_ofExpr.2 hlowest
  have hn : n ∈ (Report.of (.ofExpr source e)).fields := mem_fields_ofExpr.2 hn
  refine decide_eq_true (Nat.lt_of_not_le fun hle => ?_)
  -- two different fields do not fit into a list of one
  obtain ⟨m, hm⟩ := List.length_eq_one_iff.1
    (Nat.le_antisymm hle (List.length_pos_of_mem hlowest))
  rw [hm] at hlowest hn
  exact hne ((List.mem_singleton.1 hlowest).trans (List.mem_singleton.1 hn).symm)

/-- The driver is in order: `first.Increasing`. -/
theorem increasing_driver (h : e.Combines fields first) : first.Increasing :=
  h.increasing first (List.mem_of_getElem? (h.driver ""))

/-- **The dates of the run are the clock of the fields**:
`datesRead (.of (.ofExpr source e)) first fields = Series.clock first (e.fieldsRead fields)`. -/
theorem datesRead_eq_clock (h : e.Combines fields first) (source : String) :
    datesRead (.of (.ofExpr source e)) first fields =
      Series.clock first (e.fieldsRead fields) := by
  have hread : ∀ s ∈ first :: Formula.fieldsRead (.of (.ofExpr source e)) fields, s.Increasing :=
    List.forall_mem_cons.2 ⟨h.increasing_driver, fun s hs =>
      h.increasing s (mem_of_mem_fieldsRead hs)⟩
  rw [datesRead, Series.commonDates_eq_clock hread]
  refine Series.clock_congr (fun s => ?_) first
  rw [List.mem_cons, mem_fieldsRead_ofExpr]
  refine ⟨fun hs => hs.elim (fun heq => ?_) id, .inr⟩
  -- the driver is one of the fields that are read
  obtain ⟨lowest, n, hlowest, -, -, -, hfirst⟩ := h.several
  rw [heq]
  exact List.mem_filterMap.2 ⟨.field lowest, hlowest, hfirst⟩

/-- The clock is in order: `(Series.clock first (e.fieldsRead fields)).Pairwise (· < ·)`. -/
theorem clock_pairwise (h : e.Combines fields first) :
    (Series.clock first (e.fieldsRead fields)).Pairwise (· < ·) :=
  h.datesRead_eq_clock "" ▸ Series.commonDates_pairwise h.increasing_driver _

/-- On each date of the clock, every series that is read is a field with a value:
`∃ n s v, reference = .field n ∧ fields[n]? = some s ∧ s.points.carried? d = some v`. -/
theorem exists_carried? (h : e.Combines fields first) {d : Instant}
    (hd : d ∈ Series.clock first (e.fieldsRead fields)) {reference : Reference}
    (href : reference ∈ e.references) : ∃ n s v, reference = .field n ∧ fields[n]? = some s ∧
      s.points.carried? d = some v := by
  obtain ⟨n, rfl⟩ := e.exists_field_of_isPointwise h.pointwise href
  obtain ⟨s, hs⟩ : ∃ s, fields[n]? = some s := ⟨_, List.getElem?_eq_getElem (h.there n href)⟩
  have hread : s ∈ Formula.fieldsRead (.of (.ofExpr "" e)) fields :=
    List.mem_filterMap.2 ⟨n, mem_fields_ofExpr.2 href, hs⟩
  rw [← h.datesRead_eq_clock ""] at hd
  have hsome := Series.isSome_carried?_of_mem_commonDates h.increasing_driver
    (List.mem_cons_of_mem first hread) hd
  obtain ⟨v, hv⟩ := Option.isSome_iff_exists.1 hsome
  exact ⟨n, s, v, rfl, hs, hv⟩

/-- **On each date of the clock, only the date can be at fault**: `cause.isPointLocal = true`. -/
theorem isPointLocal (h : e.Combines fields first) {d : Instant}
    (hd : d ∈ Series.clock first (e.fieldsRead fields)) {cause : EvalError}
    (hcause : e.eval (.asOf fields d) = .error cause) : cause.isPointLocal = true := by
  refine (e.eval_meets_of_current h.pointwise fun reference href => ?_).of_error hcause
  obtain ⟨n, s, v, rfl, hs, hv⟩ := h.exists_carried? hd href
  exact ⟨v, Context.current_asOf hs hv⟩

/-- **At each position of the run**, the formula has the value that it has on the date of the
position. -/
theorem evaluate_agrees (h : e.Combines fields first) (source : String) (entity : Entity Float)
    {k : Nat} {d : Instant} (hk : (Series.clock first (e.fieldsRead fields))[k]? = some d)
    (ledger : Ledger) :
    Agrees ((Program.ofExpr source e).evaluate
      ((inputsOver (.of (.ofExpr source e)) entity fields first false).context k ledger))
      (e.eval (.asOf fields d)) := by
  refine (Program.evaluate_ofExpr source e _).trans (.inl ?_)
  refine e.eval_eq_of_current h.pointwise fun reference href => ?_
  obtain ⟨n, s, v, rfl, hs, hv⟩ := h.exists_carried? (List.mem_of_getElem? hk) href
  rw [Context.current_asOf hs hv]
  -- the field has been moved to the dates of the clock, and so has its value in the same place
  have hclock := h.clock_pairwise
  have hmoved : (alignedInputs (.of (.ofExpr source e)) first fields).2[n]? =
      some (s.carriedTo (Series.clock first (e.fieldsRead fields))) := by
    rw [← h.datesRead_eq_clock source]
    exact alignedInputs_field (h.needsAlignment source)
      (fun m hm => h.there m (mem_fields_ofExpr.1 hm)) (mem_fields_ofExpr.2 href) hs
  have hpoint : (s.carriedTo (Series.clock first (e.fieldsRead fields))).points[k]? =
      some ⟨d, v⟩ := by
    rw [Series.points_carriedTo hclock]
    refine Points.getElem?_onDates (fun d' hd' => ?_) hk hv
    obtain ⟨n', s', v', heq, hs', hv'⟩ := h.exists_carried? hd' href
    obtain rfl : n = n' := Reference.field.inj heq
    obtain rfl : s = s' := Option.some.inj (hs.symm.trans hs')
    rw [hv']
    rfl
  obtain ⟨hlt, hvalue⟩ := List.getElem?_eq_some_iff.1 hpoint
  have hfield : ((inputsOver (.of (.ofExpr source e)) entity fields first false).context k
      ledger).fields[n]? =
        some (s.carriedTo (Series.clock first (e.fieldsRead fields))).points := by
    show ((alignedInputs _ first fields).2.map Series.points)[n]? = _
    rw [List.getElem?_map, hmoved, Option.map_some]
  refine (Context.current_field hfield hlt).trans (congrArg Except.ok ?_)
  show ((s.carriedTo _).points[k]).value = v
  rw [hvalue]

end Expr.Combines

/-- **The output of a formula of current values**, on each date of its clock. -/
theorem outputs_of_combines {entity : Entity Float} (h : e.Combines entity.fields first)
    (hoverflow : outputs (.ofExpr source e) (.of (.ofExpr source e)) entity ≠
      .error .stackOverflow) :
    ∃ s, outputs (.ofExpr source e) (.of (.ofExpr source e)) entity = .ok [s] ∧
      s.points = Points.onDates (Series.clock first (e.fieldsRead entity.fields)) fun d =>
        (e.eval (.asOf entity.fields d)).toOption := by
  obtain ⟨lowest, -, hlowest, -⟩ := h.several
  rw [outputs_of_there fun n hn => h.there n (mem_fields_ofExpr.1 hn),
    make_of_not_usesBroadcast (not_usesBroadcast_ofExpr h.pointwise) (h.driver source), runOver_eq,
    positions_of_isTimeVarying (isTimeVarying_ofExpr h.pointwise hlowest)] at hoverflow ⊢
  have htimes : (alignedInputs (.of (.ofExpr source e)) first entity.fields).1.points.times =
      Series.clock first (e.fieldsRead entity.fields) := by
    rw [alignedInputs_of_needsAlignment (h.needsAlignment source), ← h.datesRead_eq_clock source]
    exact Series.times_carriedTo h.increasing_driver List.mem_cons_self
  rw [htimes] at hoverflow ⊢
  have hrun := runAt_agrees 0 (fun k d hk ledger => by
    rw [Nat.zero_add]
    exact h.evaluate_agrees source entity hk ledger)
    (fun d hd cause => h.isPointLocal hd) []
  rcases hrun with hok | hfull
  · rw [hok]
    refine ⟨_, rfl, ?_⟩
    exact Points.ofWrites_of_increasing (Points.increasing_onDates h.clock_pairwise _)
  · rw [hfull] at hoverflow
    exact absurd rfl hoverflow

/-- **Several fields on one clock.** Aligned series, of which all are in order, are as many as the
given ones, and follow them on the dates of the first one from the first date on up to which each
has an observation: each keeps its description and has, on every such date, its last value up to
then. So a formula that combines the current values of several fields has, on each date of their
clock, the value that it has on what is known on the date, and is left out where this fails, which
it does for local reasons only. -/
theorem outputs_onOneClock :
    (∀ (driver : Series Float) (others : List (Series Float)),
      (∀ s ∈ driver :: others, s.Increasing) →
      List.Forall₂ (Series.Follows (Series.clock driver (driver :: others))) (driver :: others)
        (Series.alignCommon (driver :: others))) ∧
    ∀ (source : String) (e : Expr .number) (entity : Entity Float) (first : Series Float),
      parse source = .ok e → e.Combines entity.fields first →
      ∃ p, compile source = .ok p ∧ (outputs p (.of p) entity ≠ .error .stackOverflow →
        ∃ s, outputs p (.of p) entity = .ok [s] ∧
          s.points = Points.onDates (Series.clock first (e.fieldsRead entity.fields)) (fun d =>
            (e.eval (.asOf entity.fields d)).toOption) ∧
          ∀ d ∈ Series.clock first (e.fieldsRead entity.fields), ∀ cause,
            e.eval (.asOf entity.fields d) = .error cause → cause.isPointLocal = true) := by
  refine ⟨fun driver others h => Series.follows_alignCommon h,
    fun source e entity first hparse h => ⟨.ofExpr source e, ?_, fun hoverflow => ?_⟩⟩
  · rw [compile_eq, hparse]
    rfl
  · obtain ⟨s, hs, hpoints⟩ := outputs_of_combines h hoverflow
    exact ⟨s, hs, hpoints, fun d hd cause hcause => h.isPointLocal hd hcause⟩

/-- The quotient of two fields, `val1 / val2`. -/
def Expr.quotient : Expr .number := .arith .div (.point (.field 0) .current)
  (.point (.field 1) .current)

/-- A price on every second day. -/
def evenPrice : Series Float :=
  ⟨.labelled "Price", [⟨0, 1⟩, ⟨2, 6⟩, ⟨4, 8⟩, ⟨6, 9⟩], false⟩

/-- An entity with a price and a number of shares, which begins later and is zero for a while. -/
def lateStart : Entity Float :=
  { identity := ⟨"A", "a", false⟩
    series := [evenPrice, ⟨.labelled "Shares", [⟨1, 2⟩, ⟨3, 0⟩, ⟨5, 3⟩], false⟩] }

/-- `parse "val1 / val2" = .ok .quotient`: the quotient of two fields as a formula. -/
theorem parse_quotient : parse "val1 / val2" = .ok .quotient := by
  have hfield : ∀ (raw : String) (n start stop : Nat),
      Reference.ofName? (Text.asciiLower raw) = some (.field n) →
      Derives false .signed .closed [⟨.word raw, start, stop⟩]
        (.value .number (.point (.field n) .current)) :=
    fun raw n start stop hname => .unsigned (.base (.point rfl hname .none rfl))
  have hprice := hfield "val1" 0 0 4 (by decide +kernel)
  have hshares := hfield "val2" 1 7 11 (by decide +kernel)
  have hdivides : Chain.product.operator? (⟨.slash, 5, 6⟩ : Lexeme).token = some (.arith .div) :=
    rfl
  have hquotient := Derives.chain (.operand hprice) rfl hdivides hshares (.same _) (.same _)
  exact parse_eq_ok_iff.2 ⟨_, by cbv, _, _,
    .operand (.operand (.affirmed (.alone (.operand hquotient)))), .same _⟩

/-- The quotient has values on the second and the fourth date of the first field: on the first date
nothing is known of the second field, and on the third it is zero. -/
theorem outputs_onOneClock_quotient : ∃ p, compile "val1 / val2" = .ok p ∧
    ∃ s, outputs p (.of p) lateStart = .ok [s] ∧ s.points = [⟨2, 3⟩, ⟨6, 3⟩] := by
  have hthere : ∀ n, .field n ∈ Expr.quotient.references → n < lateStart.fields.length := by
    intro n hn
    rcases List.mem_cons.1 hn with hn | hn
    · rw [Reference.field.inj hn]
      decide
    · rw [Reference.field.inj (List.mem_singleton.1 hn)]
      decide
  have hcombines : Expr.quotient.Combines lateStart.fields evenPrice :=
    ⟨rfl, by decide +kernel, hthere, 0, 1, by decide, by decide, by decide,
      fun m _ => Nat.zero_le m, rfl⟩
  obtain ⟨p, hp, hout⟩ := outputs_onOneClock.2 _ _ lateStart _ parse_quotient hcombines
  obtain rfl : .ofExpr "val1 / val2" .quotient = p := by
    rw [compile_eq, parse_quotient] at hp
    exact Except.ok.inj hp
  -- the run does not fail
  have hrun : runOver (.ofExpr "val1 / val2" .quotient) (.of (.ofExpr "val1 / val2" .quotient))
      lateStart lateStart.fields evenPrice false = .ok [⟨2, 3⟩, ⟨6, 3⟩] := by
    have hinputs : inputsOver (.of (.ofExpr "val1 / val2" .quotient)) lateStart lateStart.fields
        evenPrice false = ⟨[[⟨2, 6⟩, ⟨4, 8⟩, ⟨6, 9⟩], [⟨2, 2⟩, ⟨4, 0⟩, ⟨6, 3⟩]], none,
          [⟨2, 6⟩, ⟨4, 8⟩, ⟨6, 9⟩], none, .wraps⟩ := by
      cbv
    have hpositions : positions (.of (.ofExpr "val1 / val2" .quotient)) (alignedInputs
        (.of (.ofExpr "val1 / val2" .quotient)) evenPrice lateStart.fields).1.points =
        [(0, 2), (1, 4), (2, 6)] := by
      cbv
    rw [runOver_eq, hinputs, hpositions]
    decide +kernel
  obtain ⟨s, hs, hpoints, -⟩ := hout (by
    rw [outputs_of_there fun n hn => hthere n (mem_fields_ofExpr.1 hn),
      make_of_not_usesBroadcast (not_usesBroadcast_ofExpr rfl) (hcombines.driver _), hrun]
    exact fun h => by cases h)
  refine ⟨_, hp, s, hs, hpoints.trans ?_⟩
  decide +kernel

end Outputs

end PanelQuery.Formula
