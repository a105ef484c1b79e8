import Mathlib.Data.List.Infix
import PanelQuery.Formula.Application
import PanelQuery.Proofs.Formula.Heights
import PanelQuery.Proofs.Formula.Lockstep

/-! # Programs that look back

A program whose indices are the begin, the current position or some positions before it sees nothing
that comes after the current position. It has the same value where all series are cut off anywhere
behind that.

* **`IndexCode.looksBack`, `Program.looksBack`** — such indices, and programs that have no others;
* **`Context.CutOff`** — one context is another one with its series cut off behind the position;
* **`Context.CutOff.loadsAgree`** — all loads of a program that looks back agree in both;
* **`pointValue_eq_of_cutOff`** — its value is the same. -/

namespace PanelQuery.Formula

/-! ## (1) Indices -/

/-- Whether a position is the begin, the current position, or some positions before it. -/
def IndexCode.looksBack : IndexCode → Bool
  | [.first] | [.current] => true
  | [.current, .constant k, .sub] => decide (0 ≤ k)
  | _ => false

/-- Whether all positions of an index look back. -/
def IndexSpec.looksBack : IndexSpec → Bool
  | .point code => code.looksBack
  | .range low high => low.looksBack && high.looksBack

/-- Whether all indices of a program look back. -/
def Program.looksBack (p : Program) : Bool := p.indices.all IndexSpec.looksBack

/-- `n ≤ position`: a number of positions before the current one, as any build settles it, does not
come after the current one, where the difference has more than 64 bits, so has the current
position. -/
theorem settle?_sub_le {o : Overflow} {k : Int64} (hk : 0 ≤ k) {position : Nat} {n : Int}
    (h : o.settle? (position - k.toInt) = some n) : n ≤ position := by
  have hk : 0 ≤ k.toInt := Int64.le_iff_toInt_le.1 hk
  have hk' : k.toInt < 2 ^ 63 := k.toInt_lt
  unfold Overflow.settle? isWord at h
  split at h
  · rw [← Option.some.inj h]
    omega
  · rename_i hword
    rw [decide_eq_true_eq, not_and_or, Int.not_le, Int.not_lt] at hword
    cases o with
    | stops => cases h
    | wraps =>
      rw [← Option.some.inj h]
      have hlt : (position - k.toInt).bmod 18446744073709551616 < 9223372036854775808 :=
        Int.bmod_lt (by decide)
      omega

/-- **A position that looks back** does not come after the current one, and does not depend on the
length of the series; nor does it depend on the length whether it overflows.
`(∃ n : Int, n ≤ position ∧ ∀ length, code.eval o length position = .ok n)` or
`∃ e, ∀ length, code.eval o length position = .error e`. -/
theorem IndexCode.eval_of_looksBack {code : IndexCode} (h : code.looksBack) (o : Overflow)
    (position : Nat) : (∃ n : Int, n ≤ position ∧ ∀ length, code.eval o length position = .ok n) ∨
      ∃ e, ∀ length, code.eval o length position = .error e := by
  unfold looksBack at h
  split at h
  · exact .inl ⟨0, Int.natCast_nonneg position, fun _ => rfl⟩
  · exact .inl ⟨position, Int.le_refl _, fun _ => rfl⟩
  · rename_i k
    have hk : 0 ≤ k := of_decide_eq_true h
    have heval : ∀ length, IndexCode.eval o length position [.current, .constant k, .sub] =
        indexSum o (position - k.toInt) := by
      intro length
      change ((indexSum o _ >>= _) >>= pure) >>= _ = _
      cases indexSum o (position - k.toInt) <;> rfl
    unfold indexSum at heval
    cases hsub : o.settle? (position - k.toInt) with
    | none => exact .inr ⟨.indexOverflow, fun length => by rw [heval, hsub]⟩
    | some n => exact .inl ⟨n, settle?_sub_le hk hsub, fun length => by rw [heval, hsub]⟩
  · cases h

/-- The one position that an index asks for; a range has none. -/
theorem IndexSpec.point?_of_looksBack {spec : IndexSpec} (h : spec.looksBack) (o : Overflow)
    (position : Nat) :
    (∃ n : Int, n ≤ position ∧ ∀ length, spec.point? o position length = .ok n) ∨
      ∃ e, ∀ length, spec.point? o position length = .error e := by
  cases spec with
  | point code => exact IndexCode.eval_of_looksBack h o position
  | range low high => exact .inr ⟨_, fun _ => rfl⟩

/-- The two ends of an index. -/
theorem IndexSpec.ends_of_looksBack {spec : IndexSpec} (h : spec.looksBack) (o : Overflow)
    (position : Nat) : (∃ low high : Int, low ≤ position ∧ high ≤ position ∧
        ∀ length, spec.ends o position length = .ok (low, high)) ∨
      ∃ e, ∀ length, spec.ends o position length = .error e := by
  cases spec with
  | point code =>
    rcases IndexCode.eval_of_looksBack h o position with ⟨n, hn, heval⟩ | ⟨e, heval⟩
    · -- a point is a stretch that ends where it begins
      refine .inl ⟨n, n, hn, hn, fun length => ?_⟩
      rw [ends, heval]
      rfl
    · refine .inr ⟨e, fun length => ?_⟩
      rw [ends, heval]
      rfl
  | range low high =>
    obtain ⟨hlow, hhigh⟩ := Bool.and_eq_true_iff.1 h
    rcases IndexCode.eval_of_looksBack hlow o position with ⟨n, hn, hevalLow⟩ | ⟨e, hevalLow⟩
    · rcases IndexCode.eval_of_looksBack hhigh o position with ⟨m, hm, hevalHigh⟩ | ⟨e, hevalHigh⟩
      · refine .inl ⟨n, m, hn, hm, fun length => ?_⟩
        rw [ends, hevalLow, hevalHigh]
        rfl
      · refine .inr ⟨e, fun length => ?_⟩
        rw [ends, hevalLow, hevalHigh]
        rfl
    · refine .inr ⟨e, fun length => ?_⟩
      rw [ends, hevalLow]
      rfl

/-! ## (2) Faults -/

/-- Faults that do the same to the output: equal ones, and any two that only leave out a
position. -/
def EvalError.Alike (e e' : EvalError) : Prop :=
  e = e' ∨ e.isPointLocal = true ∧ e'.isPointLocal = true

/-- A fault is like itself: `e.Alike e`. -/
theorem EvalError.Alike.refl (e : EvalError) : e.Alike e := .inl rfl

/-- `settle r = settle r'`: results that agree up to such faults are the same in the output. -/
theorem settle_eq_of_agree {r r' : Except EvalError Float} (h : Agree EvalError.Alike r r') :
    settle r = settle r' := by
  cases r with
  | ok v =>
    cases r' with
    | ok v' => exact congrArg (Except.ok ∘ some) h
    | error e' => exact h.elim
  | error e =>
    cases r' with
    | ok v' => exact h.elim
    | error e' =>
      rcases h with rfl | ⟨he, he'⟩
      · rfl
      · exact (if_pos he).trans (if_pos he').symm

/-! ## (3) Contexts -/

/-- `Program.Reads p reference`: whether a program loads from a series. -/
def Program.Reads (p : Program) (reference : Reference) : Prop :=
  ∃ op ∈ p.ops, op.reference? = some reference

/-- One context is another one with its series cut off somewhere behind the position, as far as a
program reads them. -/
structure Context.CutOff (p : Program) (ctx ctx' : Context) : Prop where
  position : ctx'.position = ctx.position
  overflow : ctx'.overflow = ctx.overflow
  ledger : ctx'.ledger = ctx.ledger
  category : ctx'.category = ctx.category
  /-- The output has come to the position. -/
  written : ctx.ledger.length = ctx.position
  driver : ctx'.driver <+: ctx.driver
  behind : ctx.position < ctx'.driver.length
  series : ∀ reference, p.Reads reference → ∃ ps ps', ctx.points reference = .ok ps ∧
    ctx'.points reference = .ok ps' ∧ ps' <+: ps ∧ ctx.position < ps'.length

namespace Context.CutOff

variable {p : Program} {ctx ctx' : Context}

/-- `bs'[n]? = bs[n]?`: a beginning of a list has the same elements. -/
theorem getElem?_beginning {β : Type} {bs bs' : List β} (h : bs' <+: bs) {n : Nat}
    (hn : n < bs'.length) : bs'[n]? = bs[n]? := by
  obtain ⟨rest, rfl⟩ := h
  exact (List.getElem?_append_left hn).symm

/-- An index up to the position is checked alike against all lengths behind it:
`Agree EvalError.Alike (checked n length) (checked n length')`. -/
theorem agree_checked {position length length' : Nat} (h : position < length)
    (h' : position < length') {n : Int} (hn : n ≤ position) :
    Agree EvalError.Alike (checked n length) (checked n length') := by
  unfold checked
  by_cases hneg : n < 0
  · rw [if_pos (.inl hneg), if_pos (.inl hneg)]
    -- before the first point, where the lengths are told in the message only
    exact .inr ⟨rfl, rfl⟩
  · rw [if_neg (by omega), if_neg (by omega)]
    exact rfl

/-- `ctx.length reference = .ok (List.length ps)`: the length of a series that is not the output is
the number of its points. -/
theorem length_of_points {reference : Reference} (hne : reference ≠ .output) {ps : Points Float}
    (hps : ctx.points reference = .ok ps) : ctx.length reference = .ok (List.length ps) := by
  cases reference with
  | output => exact absurd rfl hne
  | broadcast | field k =>
    show (ctx.points _).map List.length = _
    rw [hps]
    rfl

/-- `ctx.valueAt reference n = .ok ps[n].value`: the value of a series that is not the output is
that of its point. -/
theorem valueAt_of_points {reference : Reference} (hne : reference ≠ .output) {ps : Points Float}
    (hps : ctx.points reference = .ok ps) {n : Nat} (hn : n < List.length ps) :
    ctx.valueAt reference n = .ok ps[n].value := by
  unfold valueAt
  split
  · exact absurd rfl hne
  · rw [hps]
    show (bind (Except.ok ps) _ : Except EvalError Float) = _
    simp only [bind, Except.bind, List.getElem?_eq_getElem hn]
    rfl

/-- **A series in both contexts**: indices up to the position are checked alike, and where one is
within the shorter series, it has the same value in both. There are `length` and `length'` with
`ctx.length reference = .ok length`, `ctx'.length reference = .ok length'`,
`(∀ n : Int, n ≤ ctx.position → Agree EvalError.Alike (checked n length) (checked n length'))` and
`∀ n, n < length' → ctx.valueAt reference n = ctx'.valueAt reference n`. -/
theorem view (h : ctx.CutOff p ctx') {reference : Reference} (hread : p.Reads reference) :
    ∃ length length', ctx.length reference = .ok length ∧ ctx'.length reference = .ok length' ∧
      (∀ n : Int, n ≤ ctx.position →
        Agree EvalError.Alike (checked n length) (checked n length')) ∧
      ∀ n, n < length' → ctx.valueAt reference n = ctx'.valueAt reference n := by
  by_cases hout : reference = .output
  · -- both have the same output so far
    subst hout
    refine ⟨ctx.ledger.length, ctx'.ledger.length, rfl, rfl, fun n _ => ?_, fun n _ => ?_⟩
    · rw [h.ledger]
      exact Agree.refl .refl _
    · rw [valueAt, valueAt, h.ledger]
  · obtain ⟨ps, ps', hps, hps', hbegins, hbehind⟩ := h.series reference hread
    refine ⟨ps.length, ps'.length, length_of_points hout hps, length_of_points hout hps',
      fun n hn => ?_, fun n hn => ?_⟩
    · exact agree_checked (Nat.lt_of_lt_of_le hbehind hbegins.length_le) hbehind hn
    · have hlt : n < List.length ps := Nat.lt_of_lt_of_le hn hbegins.length_le
      rw [valueAt_of_points hout hps hlt, valueAt_of_points hout hps' hn]
      rw [List.IsPrefix.getElem hbegins hn]

/-- `n < length ∧ (n : Int) = index`: an index that passes the check is within the length, and stays
what it is. -/
theorem of_checked {index : Int} {length n : Nat} (h : checked index length = .ok n) :
    n < length ∧ (n : Int) = index := by
  unfold checked at h
  split at h
  · cases h
  · have hn := Except.ok.inj h
    omega

/-- **Single values agree.** -/
theorem agree_pointAt (h : ctx.CutOff p ctx') {reference : Reference} (hread : p.Reads reference)
    {spec : IndexSpec} (hspec : spec.looksBack) :
    Agree EvalError.Alike (ctx.pointAt reference (spec.point? ctx.overflow ctx.position))
      (ctx'.pointAt reference (spec.point? ctx'.overflow ctx'.position)) := by
  obtain ⟨length, length', hlength, hlength', hchecked, hvalue⟩ := h.view hread
  unfold pointAt
  rw [hlength, hlength', h.position, h.overflow]
  rcases IndexSpec.point?_of_looksBack hspec ctx.overflow ctx.position with
    ⟨n, hn, hpoint⟩ | ⟨e, hpoint⟩
  · show Agree _ (spec.point? ctx.overflow ctx.position length >>= _)
      (spec.point? ctx.overflow ctx.position length' >>= _)
    rw [hpoint, hpoint]
    refine (hchecked n hn).bind fun k _ hk => Agree.of_eq .refl ?_
    exact hvalue k ((of_checked hk).1)
  · show Agree _ (spec.point? ctx.overflow ctx.position length >>= _)
      (spec.point? ctx.overflow ctx.position length' >>= _)
    rw [hpoint, hpoint]
    exact EvalError.Alike.refl e

/-- `daysBetween ps' low high = daysBetween ps low high`: the days between two positions of a
beginning of a series. -/
theorem daysBetween_beginning {ps ps' : Points Float} (h : ps' <+: ps) {low high : Nat}
    (hlow : low < ps'.length) (hhigh : high < ps'.length) :
    daysBetween ps' low high = daysBetween ps low high := by
  unfold daysBetween
  rw [getElem?_beginning h hlow, getElem?_beginning h hhigh]

/-- A stretch between two ends that are found. -/
theorem cutBetween_of_ends {reference : Reference} {resolve : Nat → Except EvalError (Int × Int)}
    {length : Nat} {low high : Int} (hlength : ctx.length reference = .ok length)
    (hends : resolve length = .ok (low, high)) :
    ctx.cutBetween reference resolve =
      if high < low then .error (.invalidRange low high)
      else checked low length >>= fun low => checked high length >>= fun high =>
        (List.range' low (high + 1 - low)).mapM (ctx.valueAt reference) >>= fun values =>
          ctx.points reference >>= fun ps => .ok ⟨values, daysBetween ps low high⟩ := by
  unfold cutBetween
  rw [hlength]
  show (resolve length >>= _) = _
  rw [hends]
  by_cases hlt : high < low
  · rw [if_pos hlt]
    exact if_pos hlt
  · rw [if_neg hlt]
    exact if_neg hlt

/-- `ns.mapM (ctx.valueAt reference) = ns.mapM (ctx'.valueAt reference)`: the values of a list of
positions, of which each has the same in both contexts. -/
theorem mapM_valueAt_eq {reference : Reference} {ns : List Nat}
    (h : ∀ n ∈ ns, ctx.valueAt reference n = ctx'.valueAt reference n) :
    ns.mapM (ctx.valueAt reference) = ns.mapM (ctx'.valueAt reference) := by
  induction ns with
  | nil => rfl
  | cons n ns ih =>
    obtain ⟨hn, hns⟩ := List.forall_mem_cons.1 h
    rw [List.mapM_cons, List.mapM_cons, hn, ih hns]

/-- **Stretches agree.** -/
theorem agree_cutBetween (h : ctx.CutOff p ctx') {reference : Reference}
    (hread : p.Reads reference) {spec : IndexSpec} (hspec : spec.looksBack) :
    Agree EvalError.Alike (ctx.cutBetween reference (spec.ends ctx.overflow ctx.position))
      (ctx'.cutBetween reference (spec.ends ctx'.overflow ctx'.position)) := by
  obtain ⟨length, length', hlength, hlength', hchecked, hvalue⟩ := h.view hread
  rw [h.position, h.overflow]
  rcases IndexSpec.ends_of_looksBack hspec ctx.overflow ctx.position with
    ⟨low, high, hlow, hhigh, hends⟩ | ⟨e, hends⟩
  case inr =>
    -- the ends fail alike
    unfold cutBetween
    rw [hlength, hlength']
    show Agree _ (spec.ends ctx.overflow ctx.position length >>= _)
      (spec.ends ctx.overflow ctx.position length' >>= _)
    rw [hends, hends]
    exact EvalError.Alike.refl e
  obtain ⟨ps, ps', hps, hps', hbegins, hbehind⟩ := h.series reference hread
  rw [cutBetween_of_ends hlength (hends length),
    cutBetween_of_ends hlength' (hends length')]
  by_cases hlt : high < low
  · -- the ends do not depend on the length, and so are the wrong way round in both
    rw [if_pos hlt, if_pos hlt]
    exact Agree.refl .refl _
  rw [if_neg hlt, if_neg hlt]
  -- both ends look back, and so are checked alike
  refine (hchecked low hlow).bind fun n hn hn' => ?_
  refine (hchecked high hhigh).bind fun m hm hm' => ?_
  -- all positions of the stretch are within the shorter series
  have hvalues : (List.range' n (m + 1 - n)).mapM (ctx.valueAt reference) =
      (List.range' n (m + 1 - n)).mapM (ctx'.valueAt reference) := by
    refine mapM_valueAt_eq fun k hk => hvalue k ?_
    obtain ⟨hnk, hkm⟩ := List.mem_range'_1.1 hk
    have hlt' := (of_checked hm').1
    omega
  rw [hvalues]
  refine (Agree.refl .refl _).bind fun values _ _ => ?_
  rw [hps, hps']
  refine congrArg (Cut.mk values) (daysBetween_beginning hbegins ?_ ?_).symm
  · have hposition := (of_checked hn').2
    omega
  · have hposition := (of_checked hm').2
    omega

/-- **Categories agree**: `Agree EvalError.Alike (ctx.categoryAt (spec.point? ctx.overflow
ctx.position)) (ctx'.categoryAt (spec.point? ctx'.overflow ctx'.position))`. -/
theorem agree_categoryAt (h : ctx.CutOff p ctx') {spec : IndexSpec} (hspec : spec.looksBack) :
    Agree EvalError.Alike (ctx.categoryAt (spec.point? ctx.overflow ctx.position))
      (ctx'.categoryAt (spec.point? ctx'.overflow ctx'.position)) := by
  unfold categoryAt
  rw [h.position, h.overflow, h.category]
  rcases IndexSpec.point?_of_looksBack hspec ctx.overflow ctx.position with
    ⟨n, hn, hpoint⟩ | ⟨e, hpoint⟩
  · show Agree _ (spec.point? ctx.overflow ctx.position ctx.driver.length >>= _)
      (spec.point? ctx.overflow ctx.position ctx'.driver.length >>= _)
    rw [hpoint, hpoint]
    have hlength : ctx'.driver.length ≤ ctx.driver.length := h.driver.length_le
    refine (agree_checked (Nat.lt_of_lt_of_le h.behind hlength) h.behind hn).bind fun k _ hk => ?_
    -- the date is the same in both
    have hdate : ctx'.driver[k]? = ctx.driver[k]? := getElem?_beginning h.driver (of_checked hk).1
    rw [hdate, List.getElem?_eq_getElem (Nat.lt_of_lt_of_le (of_checked hk).1 hlength)]
    exact rfl
  · show Agree _ (spec.point? ctx.overflow ctx.position ctx.driver.length >>= _)
      (spec.point? ctx.overflow ctx.position ctx'.driver.length >>= _)
    rw [hpoint, hpoint]
    exact EvalError.Alike.refl e

/-- **All loads of a program that looks back agree** in a context and one that is cut off:
`Context.LoadsAgree p EvalError.Alike ctx ctx'`. -/
theorem loadsAgree (h : ctx.CutOff p ctx') (hback : p.looksBack) :
    Context.LoadsAgree p EvalError.Alike ctx ctx' := by
  have hspec : ∀ slot (spec : IndexSpec), p.indices[slot]? = some spec → spec.looksBack :=
    fun slot spec hslot => List.all_eq_true.1 hback spec (List.mem_of_getElem? hslot)
  refine ⟨fun _ => h.position.symm, fun reference slot spec hop hslot => ?_,
    fun reference slot spec hop hslot => ?_, fun slot spec _ hslot => ?_⟩
  · exact h.agree_pointAt ⟨_, hop, rfl⟩ (hspec slot spec hslot)
  · exact h.agree_cutBetween ⟨_, hop, rfl⟩ (hspec slot spec hslot)
  · exact h.agree_categoryAt (hspec slot spec hslot)

end Context.CutOff

/-- **A program that looks back has the same value** where the series are cut off behind it:
`pointValue p ctx = pointValue p ctx'`. -/
theorem pointValue_eq_of_cutOff {p : Program} {ctx ctx' : Context} (hback : p.looksBack)
    (h : ctx.CutOff p ctx') : pointValue p ctx = pointValue p ctx' := by
  rw [pointValue, pointValue]
  exact settle_eq_of_agree (p.evaluate_agree .refl (h.loadsAgree hback))

end PanelQuery.Formula
