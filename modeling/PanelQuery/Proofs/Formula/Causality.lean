import Mathlib
import PanelQuery.Proofs.Formula.Inputs

/-! # Formulas do not look ahead

A formula whose indices look back makes of what is known at a time just what it makes of everything,
up to that time. Two runs are compared, one over all dates and one over the dates up to a cut: at
each of these dates they see the same output so far and the same series up to the date.

* **`runAt_eq_of_cut`** — the two runs, position by position;
* **`runOver_cutAt`** — the output over one driver;
* **`outputs_cutAt`** — all outputs of an entity. -/

namespace PanelQuery.Formula

variable {p : Program}

/-! ## (1) Runs -/

section Runs

variable {x x' : Inputs}

/-- The points of one position: one, or none where the position is left out. -/
def pointsAt (time : Instant) (value : Option Float) : Points Float :=
  (value.map fun v => ⟨time, v⟩).toList

/-- A run takes one position after the other. -/
theorem runAt_cons (ledger : Ledger) (position : Nat) (time : Instant)
    (rest : List (Nat × Instant)) : runAt p x ledger ((position, time) :: rest) =
      pointValue p (x.context position ledger) >>= fun value =>
        (runAt p x (ledger ++ [value]) rest).map (pointsAt time value ++ ·) := by
  rw [runAt]
  refine congrArg (pointValue p (x.context position ledger) >>= ·) (funext fun value => ?_)
  cases runAt p x (ledger ++ [value]) rest with
  | error e => rfl
  | ok later =>
    cases value with
    | none => rfl
    | some v => rfl

/-- What a successful run has done at its first position: there are `value` and `later` with
`pointValue p (x.context position ledger) = .ok value`,
`runAt p x (ledger ++ [value]) rest = .ok later` and `out = pointsAt time value ++ later`. -/
theorem runAt_cons_eq_ok {ledger : Ledger} {position : Nat} {time : Instant}
    {rest : List (Nat × Instant)} {out : Points Float}
    (h : runAt p x ledger ((position, time) :: rest) = .ok out) :
    ∃ value later, pointValue p (x.context position ledger) = .ok value ∧
      runAt p x (ledger ++ [value]) rest = .ok later ∧ out = pointsAt time value ++ later := by
  rw [runAt_cons] at h
  obtain ⟨value, hvalue, hrest⟩ := bind_eq_ok.1 h
  obtain ⟨later, hlater, rfl⟩ := map_eq_ok.1 hrest
  exact ⟨value, later, hvalue, hlater, rfl⟩

/-- **The dates of the output are dates of the positions**, in the same order:
`out.times.Sublist (positions.map Prod.snd)`. -/
theorem times_runAt {ledger : Ledger} {positions : List (Nat × Instant)} {out : Points Float}
    (h : runAt p x ledger positions = .ok out) :
    out.times.Sublist (positions.map Prod.snd) := by
  induction positions generalizing ledger out with
  | nil =>
    rw [runAt] at h
    rw [← Except.ok.inj h]
    exact .slnil
  | cons position positions ih =>
    obtain ⟨value, later, -, hlater, rfl⟩ := runAt_cons_eq_ok h
    cases value with
    | none => exact (ih hlater).cons _
    | some v => exact (ih hlater).cons_cons _

/-- **A run over positions and then others** is one run after the other: there are `first`, `second`
and `ledger'` with `runAt p x ledger before = .ok first`, `runAt p x ledger' after = .ok second` and
`out = first ++ second`. -/
theorem runAt_append {ledger : Ledger} {before after : List (Nat × Instant)} {out : Points Float}
    (h : runAt p x ledger (before ++ after) = .ok out) : ∃ first second ledger',
      runAt p x ledger before = .ok first ∧ runAt p x ledger' after = .ok second ∧
        out = first ++ second := by
  -- the output so far is what the second run goes on from
  induction before generalizing ledger out with
  | nil => exact ⟨[], out, ledger, by rw [runAt], h, rfl⟩
  | cons position before ih =>
    obtain ⟨value, later, hvalue, hlater, rfl⟩ := runAt_cons_eq_ok h
    obtain ⟨first, second, ledger', hfirst, hsecond, rfl⟩ := ih hlater
    refine ⟨pointsAt position.2 value ++ first, second, ledger', ?_, hsecond,
      (List.append_assoc _ _ _).symm⟩
    rw [runAt_cons, hvalue]
    show (runAt p x (ledger ++ [value]) before).map _ = _
    rw [hfirst]
    rfl

/-- `positionsFrom start times`: positions with their dates, from some position on. -/
def positionsFrom (start : Nat) (times : List Instant) : List (Nat × Instant) :=
  (times.zipIdx start).map Prod.swap

/-- A first position and those after it:
`positionsFrom start (time :: times) = (start, time) :: positionsFrom (start + 1) times`. -/
theorem positionsFrom_cons (start : Nat) (time : Instant) (times : List Instant) :
    positionsFrom start (time :: times) = (start, time) :: positionsFrom (start + 1) times := by
  unfold positionsFrom
  rw [List.zipIdx_cons, List.map_cons]
  rfl

/-- Positions of dates and then others: `positionsFrom start (before ++ after)` is
`positionsFrom start before ++ positionsFrom (start + before.length) after`. -/
theorem positionsFrom_append (start : Nat) (before after : List Instant) :
    positionsFrom start (before ++ after) =
      positionsFrom start before ++ positionsFrom (start + before.length) after := by
  unfold positionsFrom
  rw [List.zipIdx_append, List.map_append]

/-- `positions r driver = positionsFrom 0 driver.times`: the positions of an output that can differ
between them are all positions. -/
theorem positions_of_isTimeVarying {r : Report} (h : r.isTimeVarying = true)
    (driver : Points Float) : positions r driver = positionsFrom 0 driver.times := by
  unfold positions
  rw [if_pos h]
  rfl

/-- `(positionsFrom start times).map Prod.snd = times`: the dates of positions. -/
theorem map_snd_positionsFrom (start : Nat) (times : List Instant) :
    (positionsFrom start times).map Prod.snd = times := by
  unfold positionsFrom
  rw [List.map_map]
  exact List.zipIdx_map_fst start times

/-- The points of an output stand at dates of the positions: `q.time ∈ times`. -/
theorem time_mem_of_runAt {ledger : Ledger} {start : Nat} {times : List Instant}
    {out : Points Float} (h : runAt p x ledger (positionsFrom start times) = .ok out)
    {q : Point Float} (hq : q ∈ out) : q.time ∈ times := by
  have hmem := (times_runAt h).subset (List.mem_map_of_mem hq)
  rw [map_snd_positionsFrom] at hmem
  exact hmem

/-- **Two runs that have the same value at each position** have the same output:
`runAt p x ledger (positionsFrom ledger.length times)` is
`runAt p x' ledger (positionsFrom ledger.length times)`. The position is always the length of the
output so far. -/
theorem runAt_eq_of_pointValue_eq {count : Nat}
    (h : ∀ ledger : Ledger, ledger.length < count →
      pointValue p (x.context ledger.length ledger) =
        pointValue p (x'.context ledger.length ledger))
    (ledger : Ledger) (times : List Instant) (hcount : ledger.length + times.length ≤ count) :
    runAt p x ledger (positionsFrom ledger.length times) =
      runAt p x' ledger (positionsFrom ledger.length times) := by
  -- both runs have the same output so far, which is as long as the position
  induction times generalizing ledger with
  | nil =>
    show runAt p x ledger [] = runAt p x' ledger []
    rw [runAt, runAt]
  | cons time times ih =>
    rw [List.length_cons] at hcount
    rw [positionsFrom_cons, runAt_cons, runAt_cons, h ledger (by omega)]
    refine congrArg (pointValue p (x'.context ledger.length ledger) >>= ·) (funext fun value => ?_)
    have hlength : (ledger ++ [value]).length = ledger.length + 1 := by
      rw [List.length_append, List.length_singleton]
    have hrest := ih (ledger ++ [value]) (by omega)
    rw [hlength] at hrest
    rw [hrest]

end Runs

/-! ## (2) Cut inputs -/

/-- `Inputs.points x reference`: the points of a series that a run reads. -/
def Inputs.points (x : Inputs) (reference : Reference) : Except EvalError (Points Float) :=
  (x.context 0 []).points reference

/-- Inputs of which the second ones are a beginning of the first ones, and share the dates of a
driver, as far as a program reads them. -/
structure Inputs.CutOff (p : Program) (x x' : Inputs) : Prop where
  category : x'.category = x.category
  overflow : x'.overflow = x.overflow
  driver : x'.driver <+: x.driver
  series : ∀ reference, p.Reads reference → ∃ ps ps', x.points reference = .ok ps ∧
    x'.points reference = .ok ps' ∧ ps' <+: ps ∧ ps'.length = x'.driver.length

/-- **Two runs have the same output on the dates that both have**:
`runAt p x [] (positionsFrom 0 times) = runAt p x' [] (positionsFrom 0 times)`. -/
theorem runAt_eq_of_cut {x x' : Inputs} (hback : p.looksBack) (h : Inputs.CutOff p x x')
    {times : List Instant} (htimes : times.length ≤ x'.driver.length) :
    runAt p x [] (positionsFrom 0 times) = runAt p x' [] (positionsFrom 0 times) := by
  refine runAt_eq_of_pointValue_eq (fun ledger hledger => ?_) [] times (by simpa using htimes)
  -- what is read at this position is known before the cut
  refine pointValue_eq_of_cutOff hback ⟨rfl, h.overflow, rfl, h.category, rfl, h.driver, hledger,
    fun reference hread => ?_⟩
  obtain ⟨ps, ps', hps, hps', hbegins, hlength⟩ := h.series reference hread
  exact ⟨ps, ps', hps, hps', hbegins, hlength ▸ hledger⟩

/-! ## (3) Outputs -/

/-- `inputsOver r e fields driver isBroadcast`: what the run over a driver reads. -/
def inputsOver (r : Report) (e : Entity Float) (fields : List (Series Float))
    (driver : Series Float) (isBroadcast : Bool) : Inputs :=
  { fields := (alignedInputs r driver fields).2.map Series.points
    broadcast := if isBroadcast then some (alignedInputs r driver fields).1.points else none
    driver := (alignedInputs r driver fields).1.points
    category := if e.category.isEmpty then none else some e.category }

/-- The output over a driver is that of one run: `runOver p r e fields driver isBroadcast = runAt p
(inputsOver r e fields driver isBroadcast) [] (positions r (alignedInputs r driver
fields).1.points)`. -/
theorem runOver_eq (p : Program) (r : Report) (e : Entity Float) (fields : List (Series Float))
    (driver : Series Float) (isBroadcast : Bool) : runOver p r e fields driver isBroadcast =
      runAt p (inputsOver r e fields driver isBroadcast) []
        (positions r (alignedInputs r driver fields).1.points) :=
  rfl

/-- What is asked of a driver: the fields that are read are there, and are the driver itself unless
they are aligned with it; and a program that reads `val` is broadcast over it. -/
structure Drives (p : Program) (fields : List (Series Float)) (driver : Series Float)
    (isBroadcast : Bool) : Prop where
  range : ∀ n ∈ (Report.of p).fields, n < fields.length
  one : (Report.of p).needsAlignment = false →
    ∀ n ∈ (Report.of p).fields, fields[n]? = some driver
  broadcast : p.Reads .broadcast → isBroadcast = true

section Outputs

variable {e : Entity Float} {fields : List (Series Float)} {driver : Series Float}
  {isBroadcast : Bool}

/-- **The inputs of a cut entity are cut off**, and share the dates of the cut driver. -/
theorem cutOff_inputsOver (hdriver : driver.Increasing) (hfields : ∀ s ∈ fields, s.Increasing)
    (h : Drives p fields driver isBroadcast) (d : Instant) :
    Inputs.CutOff p (inputsOver (.of p) e fields driver isBroadcast)
      (inputsOver (.of p) (e.cutAt d) (fields.map (Series.cutAt d)) (driver.cutAt d)
        isBroadcast) := by
  have hD : (alignedInputs (.of p) driver fields).1.Increasing := increasing_alignedInputs hdriver
  unfold inputsOver
  rw [alignedInputs_cutAt hdriver hfields d]
  have hclock : ∀ n ∈ (Report.of p).fields,
      ∃ s, (alignedInputs (.of p) driver fields).2[n]? = some s ∧
        s.points.times = (alignedInputs (.of p) driver fields).1.points.times :=
    fun n hn => alignedInputs_times hdriver h.range h.one hn
  revert hclock hD
  generalize alignedInputs (.of p) driver fields = inputs
  obtain ⟨D, F⟩ := inputs
  intro hD hclock
  have hbegins : (D.cutAt d).points <+: D.points := hD.cutAt_beginning d
  refine ⟨rfl, rfl, hbegins, fun reference hread => ?_⟩
  cases reference with
  | output => exact ⟨D.points, (D.cutAt d).points, rfl, rfl, hbegins, rfl⟩
  | broadcast =>
    rw [h.broadcast hread]
    exact ⟨D.points, (D.cutAt d).points, rfl, rfl, hbegins, rfl⟩
  | field n =>
    obtain ⟨s, hs, htimes⟩ := hclock n (Report.mem_fields hread)
    have hsD : s.Increasing := Points.increasing_iff_times.2
      (htimes ▸ Points.increasing_iff_times.1 hD)
    refine ⟨s.points, (s.cutAt d).points, ?_, ?_, hsD.cutAt_beginning d, ?_⟩
    · simp only [Inputs.points, Inputs.context, Context.points, List.getElem?_map, hs,
        Option.map_some]
    · simp only [Inputs.points, Inputs.context, Context.points, List.getElem?_map, hs,
        Option.map_some]
    · exact Series.length_cutAt htimes d

/-- **The output over a cut driver is the cut output**: `out.Increasing` and
`runOver p (.of p) (e.cutAt d) (fields.map (Series.cutAt d)) (driver.cutAt d) isBroadcast` is
`.ok (out.filter fun q => decide (q.time ≤ d))`. -/
theorem runOver_cutAt (hback : p.looksBack) (hvary : (Report.of p).isTimeVarying)
    (hdriver : driver.Increasing) (hfields : ∀ s ∈ fields, s.Increasing)
    (h : Drives p fields driver isBroadcast) {out : Points Float}
    (hout : runOver p (.of p) e fields driver isBroadcast = .ok out) (d : Instant) :
    out.Increasing ∧ runOver p (.of p) (e.cutAt d) (fields.map (Series.cutAt d)) (driver.cutAt d)
      isBroadcast = .ok (out.filter fun q => decide (q.time ≤ d)) := by
  have hD : (alignedInputs (.of p) driver fields).1.Increasing := increasing_alignedInputs hdriver
  rw [runOver_eq, positions_of_isTimeVarying hvary] at hout ⊢
  have htimes := times_runAt hout
  rw [map_snd_positionsFrom] at htimes
  refine ⟨Points.increasing_iff_times.2 ((Points.increasing_iff_times.1 hD).sublist htimes), ?_⟩
  -- the positions of the cut run come first, and the dates of all others after the cut
  have hsplit := hD.filter_le_append d
  rw [← hsplit] at hout
  rw [Points.times, List.map_append, positionsFrom_append] at hout
  obtain ⟨first, second, ledger, hfirst, hsecond, rfl⟩ := runAt_append hout
  have hcut := cutOff_inputsOver (e := e) hdriver hfields h d
  have hlength : ((alignedInputs (.of p) driver fields).1.cutAt d).points.times.length ≤
      (inputsOver (.of p) (e.cutAt d) (fields.map (Series.cutAt d)) (driver.cutAt d)
        isBroadcast).driver.length := by
    show _ ≤ (alignedInputs _ _ _).1.points.length
    rw [alignedInputs_cutAt hdriver hfields d, Points.times, List.length_map]
  rw [alignedInputs_cutAt hdriver hfields d, ← runAt_eq_of_cut hback hcut hlength]
  refine hfirst.trans (congrArg Except.ok ?_)
  -- all of the first points are kept, and none of the others
  have hkept : ∀ q ∈ first, decide (q.time ≤ d) = true := by
    intro q hq
    obtain ⟨q', hq', heq⟩ := List.mem_map.1 (time_mem_of_runAt hfirst hq)
    rw [← heq]
    exact (List.mem_filter.1 hq').2
  have hdropped : ∀ q ∈ second, ¬decide (q.time ≤ d) = true := by
    intro q hq hle
    obtain ⟨q', hq', heq⟩ := List.mem_map.1 (time_mem_of_runAt hsecond hq)
    have hlt := hD.lt_of_mem_dropWhile hq'
    rw [heq] at hlt
    exact Int.not_le.2 hlt (of_decide_eq_true hle)
  rw [List.filter_append, List.filter_eq_self.2 hkept, List.filter_eq_nil_iff.2 hdropped,
    List.append_nil]

/-- `(bs.map g).mapM f' = .ok (cs.map k)`: a computation for each element, and another one for each
changed element. -/
theorem mapM_map_of_ok {ε β γ : Type} {f f' : β → Except ε γ} {g : β → β} {k : γ → γ}
    {bs : List β} {cs : List γ}
    (h : ∀ b ∈ bs, ∀ c, f b = .ok c → f' (g b) = .ok (k c)) (hbs : bs.mapM f = .ok cs) :
    (bs.map g).mapM f' = .ok (cs.map k) := by
  induction bs generalizing cs with
  | nil =>
    obtain rfl : [] = cs := Except.ok.inj hbs
    rfl
  | cons b bs ih =>
    obtain ⟨hb, hrest⟩ := List.forall_mem_cons.1 h
    rw [List.mapM_cons] at hbs
    obtain ⟨c, hc, hbs⟩ := bind_eq_ok.1 hbs
    obtain ⟨cs', hcs', hcs⟩ := bind_eq_ok.1 hbs
    obtain rfl : c :: cs' = cs := Except.ok.inj hcs
    rw [List.map_cons, List.mapM_cons, hb c hc, ih hrest hcs']
    rfl

/-- The header of an output does not depend on the points:
`outputHeader source (first.cutAt d) (read.map (Series.cutAt d))` is
`outputHeader source first read`. -/
theorem outputHeader_cutAt (source : String) (first : Series Float) (read : List (Series Float))
    (d : Instant) : outputHeader source (first.cutAt d) (read.map (Series.cutAt d)) =
      outputHeader source first read := by
  cases read with
  | nil => rfl
  | cons s rest =>
    unfold outputHeader
    rw [List.map_cons]
    dsimp only
    rw [List.foldl_map]
    rfl

/-- A driver over which a formula is broadcast: `Drives p fields driver true`. -/
theorem Drives.broadcasting (hbroadcast : (Report.of p).usesBroadcast = true)
    (hval : ¬((Report.of p).usesBroadcast = true ∧ (Report.of p).fields.length = 1))
    (hrange : ∀ n ∈ (Report.of p).fields, n < fields.length) : Drives p fields driver true := by
  refine ⟨hrange, fun halign n hn => ?_, fun _ => rfl⟩
  -- not even one field is read
  have hlt : ¬2 ≤ (Report.of p).fields.length := of_decide_eq_false halign
  have hone : (Report.of p).fields.length ≠ 1 := fun h => hval ⟨hbroadcast, h⟩
  have hpos := List.length_pos_of_mem hn
  omega

/-- The driver of a formula that is not broadcast, which is the first field that it reads:
`Drives p fields driver false`. -/
theorem Drives.lowest (hbroadcast : ¬(Report.of p).usesBroadcast = true)
    (hrange : ∀ n ∈ (Report.of p).fields, n < fields.length)
    (hdriver : fields[(Report.of p).lowestField?.getD 0]? = some driver) :
    Drives p fields driver false := by
  refine ⟨hrange, fun halign n hn => ?_, fun hread => ?_⟩
  · -- there is no other field
    have hlt : ¬2 ≤ (Report.of p).fields.length := of_decide_eq_false halign
    obtain ⟨m, hm⟩ := List.length_eq_one_iff.1
      (show (Report.of p).fields.length = 1 by have := List.length_pos_of_mem hn; omega)
    rw [hm] at hn
    rw [Report.lowestField?, hm] at hdriver
    rw [List.mem_singleton.1 hn]
    exact hdriver
  · exact absurd (Report.usesBroadcast_iff.2 hread) hbroadcast

/-- The outputs of an entity whose fields are there:
`outputs.make p (.of p) (e.cutAt d) .wraps (fields.map (Series.cutAt d))` is
`.ok (out.map (Series.cutAt d))`. -/
theorem make_cutAt (hback : p.looksBack) (hvary : (Report.of p).isTimeVarying)
    (hval : ¬((Report.of p).usesBroadcast = true ∧ (Report.of p).fields.length = 1))
    (hfields : ∀ s ∈ fields, s.Increasing)
    (hrange : ∀ n ∈ (Report.of p).fields, n < fields.length) {out : List (Series Float)}
    (hout : outputs.make p (.of p) e .wraps fields = .ok out) (d : Instant) :
    outputs.make p (.of p) (e.cutAt d) .wraps (fields.map (Series.cutAt d)) =
      .ok (out.map (Series.cutAt d)) := by
  unfold outputs.make at hout ⊢
  by_cases hbroadcast : (Report.of p).usesBroadcast = true
  · -- one output for each field
    rw [if_pos hbroadcast] at hout ⊢
    refine mapM_map_of_ok (fun s hs t ht => ?_) hout
    obtain ⟨ps, hps, ht⟩ := bind_eq_ok.1 ht
    obtain rfl := Except.ok.inj ht
    -- each field drives a run of its own
    obtain ⟨hps', hcut⟩ := runOver_cutAt hback hvary (hfields s hs) hfields
      (.broadcasting hbroadcast hval hrange) hps d
    rw [hcut, Series.cutAt_ofWrites hps']
    rfl
  · -- one output over the first field that is read
    rw [if_neg hbroadcast] at hout ⊢
    rw [List.getElem?_map]
    cases hfirst : fields[(Report.of p).lowestField?.getD 0]? with
    | none =>
      rw [hfirst] at hout
      obtain rfl : [] = out := Except.ok.inj hout
      rfl
    | some first =>
      have hdriver : first.Increasing := hfields first (List.mem_of_getElem? hfirst)
      rw [hfirst] at hout
      dsimp only [Option.map_some] at hout ⊢
      obtain ⟨ps, hps, hout⟩ := bind_eq_ok.1 hout
      obtain rfl := Except.ok.inj hout
      obtain ⟨hps', hcut⟩ := runOver_cutAt hback hvary hdriver hfields
        (.lowest hbroadcast hrange hfirst) hps d
      have hheader := outputHeader_cutAt p.source first (fieldsRead (.of p) fields) d
      rw [← fieldsRead_cutAt] at hheader
      rw [hcut, List.map_singleton, Series.cutAt_ofWrites hps']
      exact congrArg (fun h => Except.ok [Series.ofWrites h _]) hheader

/-- **Formulas do not look ahead.** Take a formula whose indices all look back, whose value can
differ between positions, and that does not combine `val` with just one `valN`. Where it has outputs
for an entity, it has as many for the entity cut at any time, and they are the outputs cut at that
time. -/
theorem outputs_cutAt (hback : p.looksBack) (hvary : (Report.of p).isTimeVarying)
    (hval : ¬((Report.of p).usesBroadcast = true ∧ (Report.of p).fields.length = 1))
    (he : ∀ s ∈ e.fields, s.Increasing) {out : List (Series Float)}
    (hout : outputs p (.of p) e = .ok out) (d : Instant) :
    outputs p (.of p) (e.cutAt d) = .ok (out.map (Series.cutAt d)) := by
  unfold outputs at hout ⊢
  rw [Entity.fields_cutAt]
  cases hlast : (Report.of p).fields.getLast? with
  | none =>
    rw [hlast] at hout
    have hnone : ∀ n ∈ (Report.of p).fields, n < e.fields.length := by
      rw [List.getLast?_eq_none_iff.1 hlast]
      exact List.forall_mem_nil _
    exact make_cutAt hback hvary hval he hnone hout d
  | some greatest =>
    rw [hlast] at hout
    dsimp only at hout ⊢
    rw [List.length_map]
    by_cases hle : e.fields.length ≤ greatest
    · rw [if_pos hle] at hout
      cases hout
    · rw [if_neg hle] at hout ⊢
      have hrange : ∀ n ∈ (Report.of p).fields, n < e.fields.length := fun n hn =>
        Nat.lt_of_le_of_lt (Report.le_greatest hn hlast) (Nat.not_le.1 hle)
      exact make_cutAt hback hvary hval he hrange hout d

end Outputs

/-- The value before the current one, `val[t-1]`. -/
def Program.lag : Program :=
  .ofExpr "val[t-1]" (.point .broadcast (.sub .current (.constant 1)))

/-- An entity with three prices. -/
def threePrices : Entity Float :=
  { identity := ⟨"A", "a", false⟩
    series := [⟨.labelled "Price", [⟨0, 1⟩, ⟨1, 2⟩, ⟨2, 3⟩], false⟩] }

/-- What is before the prices up to the second day is what is before them in all prices. -/
theorem outputs_cutAt_lag : ∃ out, outputs .lag (.of .lag) threePrices = .ok out ∧
    outputs .lag (.of .lag) (threePrices.cutAt 1) = .ok (out.map (Series.cutAt 1)) := by
  have hout : outputs .lag (.of .lag) threePrices =
      .ok [.ofWrites { Header.labelled "Price" with transformed := true } [⟨1, 1⟩, ⟨2, 2⟩]] := by
    cbv
  refine ⟨_, hout, outputs_cutAt (by decide) (by decide) (by decide +kernel) ?_ hout 1⟩
  refine List.forall_mem_singleton.2 ?_
  show Points.Increasing _
  decide

end PanelQuery.Formula
