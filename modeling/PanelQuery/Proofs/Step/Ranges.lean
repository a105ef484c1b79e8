import PanelQuery.Proofs.Json.Values
import PanelQuery.Proofs.Query.Validity
import PanelQuery.Proofs.Time.Calendar
import PanelQuery.Settings.Document

/-! # Parameters of prepared steps

A parameter that is read is within the range of its step, and where none is read a default takes its
place. The defaults of windows and of days are within their ranges: some are constants, some are
settings that are checked when they are loaded. The number of entities that a ranking keeps is
such a default, too, but is not checked; zero of the settings goes into the step.

* **`Settings.fault?_eq_none_iff`** — the settings that are checked;
* **`le_readCountFrom_iff`, `readDays_nonneg`** — parameters and their defaults;
* **`TimeWindow.InRange`, `prepareWindow_inRange`** — windows and their defaults;
* **`Step.InRange`, `StepKind.inRange_prepare_iff`** — the steps that are prepared. -/

namespace PanelQuery

/-! ## (1) Settings -/

namespace Settings

variable {s : Settings}

/-- Nothing is wrong with settings when depth, window and days are within their ranges:
`s.fault? = none ↔ 0 < s.maxDepth ∧ 2 ≤ s.rollingWindow ∧ 0 ≤ s.daysBefore ∧ 0 ≤ s.daysAfter`. -/
theorem fault?_eq_none_iff :
    s.fault? = none ↔
      0 < s.maxDepth ∧ 2 ≤ s.rollingWindow ∧ 0 ≤ s.daysBefore ∧ 0 ≤ s.daysAfter := by
  unfold fault?
  split
  next hdepth => exact iff_of_false nofun (by lia)
  next hdepth =>
    split
    next hwindow => exact iff_of_false nofun (by lia)
    next hwindow =>
      split
      next hdays => exact iff_of_false nofun (by lia)
      next hdays => exact iff_of_true rfl (by lia)

/-- **Nothing is wrong with settings that are loaded**: `s.fault? = none`. -/
theorem fault?_of_load {source : String} (h : load source = .ok s) : s.fault? = none := by
  unfold load checked at h
  split at h
  · cases h
  · split at h
    · cases h
    next hfault =>
      cases h
      exact hfault

/-- `load j.render = checked (some j)`: the settings of a document's text are those of the
document. -/
theorem load_render {j : Json} (h : Json.Readable Json.depthLimit j) :
    load j.render = checked (some j) := by
  rw [load, Json.parse?_render h]

end Settings

/-! ## (2) Parameters -/

variable {first : Option Argument} {step what : String} {least default : Nat} {s : Settings}

/-- The first parameter, if it is a count of at least `least`. -/
def givenCount? (first : Option Argument) (least : Nat) : Option Nat :=
  (first.bind fun a => a.count? 0).filter fun n => decide (least ≤ n)

/-- A count that is given is at least the least one: `least ≤ n`. -/
theorem le_of_givenCount? {n : Nat} (h : givenCount? first least = some n) : least ≤ n :=
  of_decide_eq_true (Option.filter_eq_some_iff.1 h).2

/-- `(readCountFrom first step least default).1 = (givenCount? first least).getD default`: a count
is the one that is given, or else the default. -/
theorem readCountFrom_fst (first : Option Argument) (step : String) (least default : Nat) :
    (readCountFrom first step least default).1 = (givenCount? first least).getD default := by
  have hgiven : givenCount? first least =
      ((first.bind fun a => a.parameter? 0).bind readCount?).filter
        fun n => decide (least ≤ n) := by
    rw [givenCount?, Option.bind_assoc]
    rfl
  unfold readCountFrom
  rw [hgiven]
  cases first.bind fun a => a.parameter? 0 with
  | none => rfl
  | some text =>
    dsimp only
    rw [Option.bind_some]
    cases (readCount? text).filter fun n => decide (least ≤ n) with
    | none => rfl
    | some n => rfl

/-- **A count is at least the least one** when one is given or the default is:
`least ≤ (readCountFrom first step least default).1` just when
`(givenCount? first least).isSome ∨ least ≤ default`. -/
theorem le_readCountFrom_iff : least ≤ (readCountFrom first step least default).1 ↔
    (givenCount? first least).isSome ∨ least ≤ default := by
  rw [readCountFrom_fst]
  cases h : givenCount? first least with
  | none => simp
  | some n => simpa using le_of_givenCount? h

/-- **Days are not negative** unless the default is: `0 ≤ (readDays first place what default).1`. -/
theorem readDays_nonneg {default : Int} (h : 0 ≤ default) (first : Option Argument) (place : Nat)
    (what : String) : 0 ≤ (readDays first place what default).1 := by
  unfold readDays
  split
  · exact h
  · split
    next n hn => exact of_decide_eq_true (Option.filter_eq_some_iff.1 hn).2
    · exact h

/-- Periods are at least one: `0 < n`. -/
theorem readPeriods?_pos {n : Nat} (h : readPeriods? first = some n) : 0 < n := by
  have hrange := (Option.filter_eq_some_iff.1 h).2
  rw [Bool.and_eq_true] at hrange
  exact of_decide_eq_true hrange.1

/-! ## (3) Windows -/

/-- A window of one month at least, or one that does not end before it begins. -/
inductive TimeWindow.InRange : TimeWindow → Prop where
  | lastMonths {n : Nat} (pos : 1 ≤ n) : InRange (.lastMonths n)
  | yearToDate : InRange .yearToDate
  | between {first last : Instant} (le : first ≤ last) : InRange (.between first last)
  | allTime : InRange .allTime

/-- Days that are read are in order: `w.InRange`. -/
theorem readDateRange?_inRange {a : Argument} {w : TimeWindow} (h : readDateRange? a = some w) :
    w.InRange := by
  simp only [readDateRange?, Option.bind_eq_bind, Option.bind_eq_some_iff] at h
  obtain ⟨first, -, last, -, hw⟩ := h
  split at hw
  next hle =>
    cases hw
    exact .between (Day.midnight_le_iff.2 hle)
  · cases hw

/-- **A window that is read is in range**: `w.InRange`. -/
theorem readTimeWindow?_inRange {name : String} {a : Option Argument} {w : TimeWindow}
    (h : readTimeWindow? name a = some w) : w.InRange := by
  unfold readTimeWindow? at h
  split at h
  next =>
    cases h
    exact .lastMonths (by decide)
  next =>
    cases h
    exact .yearToDate
  next =>
    obtain ⟨n, hn, hw⟩ := Option.bind_eq_some_iff.1 h
    obtain ⟨years, hyears, rfl⟩ := Option.map_eq_some_iff.1 hn
    have hpos := readPeriods?_pos hyears
    split at hw
    · cases hw
      exact .lastMonths (by lia)
    · cases hw
  next =>
    obtain ⟨n, hn, rfl⟩ := Option.map_eq_some_iff.1 h
    exact .lastMonths (readPeriods?_pos hn)
  next =>
    obtain ⟨argument, -, hw⟩ := Option.bind_eq_some_iff.1 h
    exact readDateRange?_inRange hw
  next =>
    cases h
    exact .allTime
  next => cases h

/-- A window that may be there is in range, where another one takes its place:
`(w.getD default).InRange`. -/
theorem TimeWindow.inRange_getD {w : Option TimeWindow} {default : TimeWindow}
    (hdefault : default.InRange) (h : ∀ v, w = some v → v.InRange) :
    (w.getD default).InRange := by
  cases w with
  | none => exact hdefault
  | some v => exact h v rfl

/-- The window of the settings is in range, be it a name that is known or not:
`s.defaultWindow.InRange`. -/
theorem Settings.defaultWindow_inRange (s : Settings) : s.defaultWindow.InRange := by
  unfold defaultWindow
  exact TimeWindow.inRange_getD (.lastMonths (by decide)) fun _ => readTimeWindow?_inRange

/-- The window is the one that the argument asks for, or else that of the settings:
`(prepareWindow s first).1` is
`(first.bind fun a => readTimeWindow? a.canonicalName (some a)).getD s.defaultWindow`. -/
theorem prepareWindow_fst (s : Settings) (first : Option Argument) :
    (prepareWindow s first).1 =
      (first.bind fun a => readTimeWindow? a.canonicalName (some a)).getD s.defaultWindow := by
  unfold prepareWindow
  generalize s.defaultWindow = default
  cases first with
  | none => dsimp only [Option.bind_none, Option.getD_none]
  | some a =>
    dsimp only [Option.bind_some]
    generalize readTimeWindow? a.canonicalName (some a) = w
    cases w with
    | none => rfl
    | some w => rfl

/-- **The window of an argument is in range**, or the one that takes its place:
`(prepareWindow s first).1.InRange`. -/
theorem prepareWindow_inRange (s : Settings) (first : Option Argument) :
    (prepareWindow s first).1.InRange := by
  rw [prepareWindow_fst]
  refine TimeWindow.inRange_getD s.defaultWindow_inRange fun w hw => ?_
  obtain ⟨a, -, hread⟩ := Option.bind_eq_some_iff.1 hw
  exact readTimeWindow?_inRange hread

/-! ## (4) Steps -/

/-- A ranking of one entity at least, or buckets of one at least. -/
def Reducer.InRange : Reducer → Prop
  | top n => 1 ≤ n
  | bottom n => 1 ≤ n
  | quantile n => 1 ≤ n
  | _ => True

instance : DecidablePred Reducer.InRange
  | .top n => inferInstanceAs (Decidable (1 ≤ n))
  | .bottom n => inferInstanceAs (Decidable (1 ≤ n))
  | .quantile n => inferInstanceAs (Decidable (1 ≤ n))
  | .sum | .average | .count | .percentPositive | .median | .boxplot =>
      inferInstanceAs (Decidable True)

/-- Two observations for lines through the last ones. -/
def Regression.InRange (window : Nat) : Regression → Prop
  | static => True
  | rollingBeta => 2 ≤ window
  | rollingAlpha => 2 ≤ window

/-- Two observations for a deviation, and one for a mean or a lag. -/
def Transform.InRange (window : Nat) : Transform → Prop
  | rollingStddev => 2 ≤ window
  | movingAverage => 1 ≤ window
  | lag => 1 ≤ window
  | _ => True

/-- A step with parameters that it can be computed with. -/
def Step.InRange : Step → Prop
  | timeWindow w => w.InRange
  | eventAlign w => 0 ≤ w.before ∧ 0 ≤ w.after
  | aggregate r => r.InRange
  | regression kind window => kind.InRange window
  | transform kind window => kind.InRange window
  | _ => True

/-- Whether a kind of step ranks entities. -/
def StepKind.ranks : StepKind → Bool
  | classify .top => true
  | classify .bottom => true
  | _ => false

/-- Whether what a kind of step has before parameters are read is in range. -/
def StepKind.isFixedInRange : StepKind → Bool
  | aggregate r => decide r.InRange
  | classify (.quantile (some n)) => decide (Reducer.quantile n).InRange
  | _ => true

/-- The kinds of steps in the full table are in range:
`∀ entry ∈ StepTable.standard, entry.step.isFixedInRange = true`. -/
theorem StepTable.isFixedInRange_of_standard :
    ∀ entry ∈ StepTable.standard, entry.step.isFixedInRange = true := by
  decide +kernel

/-- The window of a regression is in range if that of the settings is:
`kind.InRange (kind.prepareWindow first s).1`. -/
theorem Regression.inRange_prepareWindow (kind : Regression) (first : Option Argument)
    (h : 2 ≤ s.rollingWindow) : kind.InRange (kind.prepareWindow first s).1 := by
  cases kind with
  | static => trivial
  | rollingBeta => exact le_readCountFrom_iff.2 (.inr h)
  | rollingAlpha => exact le_readCountFrom_iff.2 (.inr h)

/-- The window of a transform is in range if that of the settings is:
`kind.InRange (kind.prepareWindow first s).1`. -/
theorem Transform.inRange_prepareWindow (kind : Transform) (first : Option Argument)
    (h : 2 ≤ s.rollingWindow) : kind.InRange (kind.prepareWindow first s).1 := by
  cases kind with
  | movingAverage => exact le_readCountFrom_iff.2 (.inr (by lia))
  | rollingStddev => exact le_readCountFrom_iff.2 (.inr h)
  | lag => exact le_readCountFrom_iff.2 (.inr (by decide))
  | _ => trivial

/-- A ranking or classification is in range if a count is given; without one, if that of the
settings is or none of them is asked for. -/
theorem Classifier.inRange_prepare_iff (c : Classifier)
    (h : (StepKind.classify c).isFixedInRange = true) :
    (c.prepare first s).1.InRange ↔ ((StepKind.classify c).ranks = true →
      (givenCount? first 1).isSome ∨ 1 ≤ s.rankCount) := by
  cases c with
  | top => exact le_readCountFrom_iff.trans ⟨fun hcount _ => hcount, fun hcount => hcount rfl⟩
  | bottom => exact le_readCountFrom_iff.trans ⟨fun hcount _ => hcount, fun hcount => hcount rfl⟩
  | quantile buckets =>
    refine iff_of_true ?_ nofun
    cases buckets with
    | none => exact le_readCountFrom_iff.2 (.inr (by decide))
    | some n => exact of_decide_eq_true (p := (Reducer.quantile n).InRange) h

/-- **A prepared step is in range**, unless it ranks entities and their number is neither given nor
set: `(kind.prepare n s).1.InRange` just when
`(kind.ranks = true → (givenCount? n.arguments.head? 1).isSome ∨ 1 ≤ s.rankCount)`. -/
theorem StepKind.inRange_prepare_iff {kind : StepKind} (hkind : kind.isFixedInRange = true)
    (hs : s.fault? = none) (n : Node) :
    (kind.prepare n s).1.InRange ↔ (kind.ranks = true →
      (givenCount? n.arguments.head? 1).isSome ∨ 1 ≤ s.rankCount) := by
  obtain ⟨-, hwindow, hbefore, hafter⟩ := Settings.fault?_eq_none_iff.1 hs
  -- the number of a ranking is the one default that nothing has checked
  cases kind with
  | classify c => exact c.inRange_prepare_iff hkind
  | timeWindow => exact iff_of_true (prepareWindow_inRange s _) nofun
  | eventAlign snap =>
    exact iff_of_true ⟨readDays_nonneg hbefore _ 0 _, readDays_nonneg hafter _ 1 _⟩ nofun
  | aggregate r => exact iff_of_true (of_decide_eq_true (p := r.InRange) hkind) nofun
  | regression kind => exact iff_of_true (kind.inRange_prepareWindow _ hwindow) nofun
  | transform kind => exact iff_of_true (kind.inRange_prepareWindow _ hwindow) nofun
  | formula =>
    refine iff_of_true ?_ nofun
    unfold prepare
    dsimp only
    split <;> trivial
  | _ => exact iff_of_true trivial nofun

/-- **With settings that are loaded and the full table, a prepared step is in range**, unless it
ranks entities and their number is neither given nor set: `(kind.prepare n s).1.InRange` just when
`(kind.ranks = true → (givenCount? n.arguments.head? 1).isSome ∨ 1 ≤ s.rankCount)`. -/
theorem StepKind.inRange_prepare_of_load {source : String} {s : Settings}
    (hs : Settings.load source = .ok s) {n : Node} {kind : StepKind}
    (hkind : StepTable.standard.resolve? n = some kind) :
    (kind.prepare n s).1.InRange ↔ (kind.ranks = true →
      (givenCount? n.arguments.head? 1).isSome ∨ 1 ≤ s.rankCount) := by
  obtain ⟨entry, hentry, -, rfl⟩ := StepTable.resolve?_eq_some hkind
  exact inRange_prepare_iff (StepTable.isFixedInRange_of_standard entry hentry)
    (Settings.fault?_of_load hs) n

/-- A ranking that asks for no entity at all. -/
def zeroRanking : Node where
  kind := .classification
  arguments := [{ canonicalName := "Top N", kind := .classification, parameters := ["0"] }]

/-- Settings with nothing but the number of entities that a ranking keeps. -/
def rankSettings (n : Nat) : Json := .object [("default_classification_count", .integer n)]

/-- `Settings.load (rankSettings n).render = .ok { rankCount := n }`: such settings are loaded, with
three entities or with none. -/
theorem load_rankSettings {n : Nat} (h : n = 0 ∨ n = 3) :
    Settings.load (rankSettings n).render = .ok { rankCount := n } := by
  have hreadable : Json.Readable Json.depthLimit (rankSettings n) := by
    refine .object fun m hm => ?_
    obtain rfl := List.mem_singleton.1 hm
    exact .integer (by rcases h with rfl | rfl <;> exact ⟨by decide, by decide⟩)
  rw [Settings.load_render hreadable]
  rcases h with rfl | rfl <;> decide +kernel

/-- Three entities of the settings take the place of none. -/
theorem StepKind.inRange_prepare_zeroRanking :
    Settings.load (rankSettings 3).render = .ok { rankCount := 3 } ∧
      StepTable.standard.resolve? zeroRanking = some (.classify .top) ∧
      ((StepKind.classify .top).prepare zeroRanking { rankCount := 3 }).1 = .aggregate (.top 3) ∧
      ((StepKind.classify .top).prepare zeroRanking { rankCount := 3 }).1.InRange := by
  have hload := load_rankSettings (n := 3) (.inr rfl)
  have hresolve : StepTable.standard.resolve? zeroRanking = some (.classify .top) := by
    decide +kernel
  exact ⟨hload, hresolve, by decide +kernel,
    (inRange_prepare_of_load hload hresolve).2 fun _ => .inr (by decide)⟩

/-- None of the settings does so, too. -/
theorem StepKind.not_inRange_prepare_zeroRanking :
    ¬∀ (source : String) (s : Settings) (n : Node) (kind : StepKind),
      Settings.load source = .ok s → StepTable.standard.resolve? n = some kind →
        (kind.prepare n s).1.InRange := by
  intro h
  have hresolve : StepTable.standard.resolve? zeroRanking = some (.classify .top) := by
    decide +kernel
  have hprepare : ((StepKind.classify .top).prepare zeroRanking { rankCount := 0 }).1 =
      .aggregate (.top 0) := by decide +kernel
  have hrange := h _ _ _ _ (load_rankSettings (.inl rfl)) hresolve
  rw [hprepare] at hrange
  exact absurd hrange (by decide : ¬1 ≤ 0)

end PanelQuery
