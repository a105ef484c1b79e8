import Mathlib.Data.List.Basic
import Mathlib.Data.List.Induction
import Mathlib.Data.List.Zip
import PanelQuery.Proofs.Series.Lookup
import PanelQuery.Regression
import PanelQuery.Transform

/-! # Figures of what was known

Transforms and rolling regressions go along with time: an observation that comes after all others
adds at most one figure, at its own time, and changes none of those before. So what is computed of
what is known at a time is what is known, at this time, of all that is computed.

* **`Trailing`, `Trailing.filter_le`** — computations that go along with time, and cuts of them;
* **`Statistics.sliding_concat`** — one more element of a list makes one more stretch of neighbours;
* **`trailing_sliding`** — figures of the stretches, at the times of their last elements;
* **`Transform.trailing_points`, `trailing_rollingLines`, `trailing_residuals`** — what is computed;
* **`pairsOf_filter_le`** — the values that two cut fields have at the same times;
* **`figures_causal`** — transforms and rolling regressions of cut series. -/

namespace PanelQuery

/-! ## (1) Computations along time -/

section Trailing

variable {β γ δ : Type} {time : β → Instant} {time' : γ → Instant} {time'' : δ → Instant}

/-- A computation that goes along with time. One more element adds at most one result, which is of
its time, and changes none of the results before. -/
structure Trailing (time : β → Instant) (time' : γ → Instant) (f : List β → List γ) : Prop where
  nil : f [] = []
  concat : ∀ bs b, ∃ new : Option γ, f (bs ++ [b]) = f bs ++ new.toList ∧
    ∀ c ∈ new, time' c = time b

namespace Trailing

variable {f : List β → List γ}

/-- Results are of times of elements, in the same order:
`((f bs).map time').Sublist (bs.map time)`. -/
theorem times_sublist (hf : Trailing time time' f) (bs : List β) :
    ((f bs).map time').Sublist (bs.map time) := by
  induction bs using List.reverseRecOn with
  | nil => simp [hf.nil]
  | append_singleton bs b ih =>
    obtain ⟨new, hnew, htime⟩ := hf.concat bs b
    rw [hnew, List.map_append, List.map_append]
    refine ih.append ?_
    cases new with
    | none => simp
    | some c => simp [htime c rfl]

/-- Results of elements in order of time are in order of time:
`(f bs).Pairwise fun c c' => time' c < time' c'`. -/
theorem pairwise (hf : Trailing time time' f) {bs : List β}
    (hbs : bs.Pairwise fun b b' => time b < time b') :
    (f bs).Pairwise fun c c' => time' c < time' c' := by
  have htimes : (bs.map time).Pairwise (· < ·) := List.pairwise_map.2 hbs
  exact List.pairwise_map.1 (htimes.sublist (hf.times_sublist bs))

/-- **What is computed of the elements up to a time** are the results up to this time:
`f (bs.filter fun b => decide (time b ≤ d)) = (f bs).filter fun c => decide (time' c ≤ d)`. -/
theorem filter_le (hf : Trailing time time' f) {bs : List β}
    (hbs : bs.Pairwise fun b b' => time b < time b') (d : Instant) :
    f (bs.filter fun b => decide (time b ≤ d)) = (f bs).filter fun c => decide (time' c ≤ d) := by
  -- the last element decides: up to the time, nothing is cut; after it, the element is
  induction bs using List.reverseRecOn with
  | nil => simp [hf.nil]
  | append_singleton bs b ih =>
    obtain ⟨hinit, -, hlast⟩ := List.pairwise_append.1 hbs
    by_cases hb : time b ≤ d
    · have hall : ∀ b' ∈ bs ++ [b], time b' ≤ d := by
        intro b' hb'
        rcases List.mem_append.1 hb' with hmem | hmem
        · exact Int.le_trans (Int.le_of_lt (hlast b' hmem b (List.mem_singleton_self b))) hb
        · exact List.mem_singleton.1 hmem ▸ hb
      have hresults : ∀ c ∈ f (bs ++ [b]), time' c ≤ d := by
        intro c hc
        obtain ⟨b', hb', htime⟩ := List.mem_map.1
          ((hf.times_sublist (bs ++ [b])).subset (List.mem_map_of_mem hc))
        exact htime ▸ hall b' hb'
      rw [List.filter_eq_self.2 fun b' hb' => decide_eq_true (hall b' hb'),
        List.filter_eq_self.2 fun c hc => decide_eq_true (hresults c hc)]
    · obtain ⟨new, hnew, htime⟩ := hf.concat bs b
      have hcut : (new.toList.filter fun c => decide (time' c ≤ d)) = [] := by
        cases new with
        | none => rfl
        | some c => simp [htime c rfl, hb]
      rw [hnew, List.filter_append, List.filter_append, hcut, List.append_nil, ← ih hinit]
      simp [hb]

/-- Some of the results, changed, but of the same times:
`Trailing time time'' fun bs => (f bs).filterMap g`. -/
theorem filterMap (hf : Trailing time time' f) {g : γ → Option δ}
    (hg : ∀ c r, g c = some r → time'' r = time' c) :
    Trailing time time'' fun bs => (f bs).filterMap g where
  nil := by simp [hf.nil]
  concat bs b := by
    obtain ⟨new, hnew, htime⟩ := hf.concat bs b
    refine ⟨new.bind g, ?_, ?_⟩
    · rw [hnew, List.filterMap_append]
      cases new with
      | none => rfl
      | some c => cases hc : g c <;> simp [hc]
    · intro r hr
      obtain ⟨c, hc, hcr⟩ := Option.bind_eq_some_iff.1 hr
      rw [hg c r hcr, htime c hc]

/-- The results, changed, but of the same times: `Trailing time time'' fun bs => (f bs).map g`. -/
theorem map (hf : Trailing time time' f) {g : γ → δ} (hg : ∀ c, time'' (g c) = time' c) :
    Trailing time time'' fun bs => (f bs).map g := by
  have hmap := hf.filterMap (g := fun c => some (g c)) fun c r hr => Option.some.inj hr ▸ hg c
  simpa only [List.filterMap_eq_map'] using hmap

end Trailing

end Trailing

/-! ## (2) Stretches of neighbours -/

namespace Statistics

variable {β : Type}

/-- `sliding size xs = []`: a list that is too short has no stretch. -/
theorem sliding_of_lt {size : Nat} {xs : List β} (h : xs.length < size) : sliding size xs = [] := by
  cases xs with
  | nil => rfl
  | cons x rest => exact if_neg (Nat.not_le.2 h)

/-- **One more element makes one more stretch**, which ends with it, as soon as there are enough
elements: `sliding size (xs ++ [x]) = sliding size xs ++ if size ≤ xs.length + 1 then [(xs ++
[x]).drop (xs.length + 1 - size)] else []`. -/
theorem sliding_concat (size : Nat) (xs : List β) (x : β) :
    sliding size (xs ++ [x]) = sliding size xs ++
      if size ≤ xs.length + 1 then [(xs ++ [x]).drop (xs.length + 1 - size)] else [] := by
  induction xs with
  | nil =>
    rcases size with _ | _ | size
    · rfl
    · rfl
    · have hshort : [x].length < size + 1 + 1 := by simp
      have hnot : ¬size + 1 + 1 ≤ ([] : List β).length + 1 := Nat.not_le.2 hshort
      rw [List.nil_append, sliding_of_lt hshort, if_neg hnot]
      rfl
  | cons y rest ih =>
    have hlength : (rest ++ [x]).length = rest.length + 1 := List.length_append
    rw [List.cons_append, sliding, sliding, hlength, ih, List.length_cons]
    rcases Nat.lt_trichotomy size (rest.length + 2) with hlt | rfl | hgt
    · -- the first stretch does not reach the new element
      have hdrop : rest.length + 1 + 1 - size = (rest.length + 1 - size) + 1 := by omega
      have hfirst : (y :: (rest ++ [x])).take size = (y :: rest).take size := by
        rw [← List.cons_append]
        exact List.take_append_of_le_length (by simpa using Nat.le_of_lt_succ hlt)
      rw [if_pos (by omega), if_pos (by omega), if_pos (by omega), if_pos (by omega), hfirst, hdrop,
        List.drop_succ_cons, List.cons_append]
    · -- the whole list is the first stretch
      rw [if_pos (by omega), if_neg (by omega), if_neg (by omega), if_pos (by omega),
        sliding_of_lt (by omega), List.take_of_length_le (by simp)]
      simp
    · rw [if_neg (by omega), if_neg (by omega), if_neg (by omega), List.nil_append]

/-- The last element of a stretch, and the first one. -/
def ends? (stretch : List β) : Option (β × β) :=
  stretch.getLast?.bind fun last => stretch.head?.map fun first => (last, first)

/-- **Elements with those some places before** are the ends of stretches:
`(xs.drop n).zip xs = (sliding (n + 1) xs).filterMap ends?`. -/
theorem zip_drop_eq_sliding (n : Nat) (xs : List β) :
    (xs.drop n).zip xs = (sliding (n + 1) xs).filterMap ends? := by
  induction xs with
  | nil => simp [sliding]
  | cons x rest ih =>
    by_cases hn : n ≤ rest.length
    · have hlt : n < (x :: rest).length := Nat.lt_succ_of_le hn
      have hlast : ((x :: rest).take (n + 1)).getLast? = some (x :: rest)[n] := by
        rw [List.getLast?_take, if_neg (Nat.succ_ne_zero n), Nat.add_sub_cancel,
          List.getElem?_eq_getElem hlt, Option.some_or]
      have hends : ends? ((x :: rest).take (n + 1)) = some ((x :: rest)[n], x) := by
        rw [ends?, hlast]
        rfl
      rw [sliding, if_pos (Nat.succ_le_succ hn), List.filterMap_cons_some hends, ← ih,
        List.drop_eq_getElem_cons hlt, List.zip_cons_cons, List.drop_succ_cons]
    · rw [sliding, if_neg (by omega), List.drop_eq_nil_of_le (by simp; omega)]
      rfl

end Statistics

/-- **Figures of stretches** go along with time, if each is of the time of the last element:
`Trailing time time' fun bs => (Statistics.sliding size bs).filterMap figure`. -/
theorem trailing_sliding {β γ : Type} {time : β → Instant} {time' : γ → Instant} (size : Nat)
    {figure : List β → Option γ}
    (hfigure : ∀ stretch c, figure stretch = some c →
      ∃ last, stretch.getLast? = some last ∧ time' c = time last) :
    Trailing time time' fun bs => (Statistics.sliding size bs).filterMap figure where
  nil := rfl
  concat bs b := by
    rw [Statistics.sliding_concat, List.filterMap_append]
    split
    · -- the new stretch ends with the new element
      refine ⟨figure ((bs ++ [b]).drop (bs.length + 1 - size)), ?_, fun c hc => ?_⟩
      · cases hnew : figure ((bs ++ [b]).drop (bs.length + 1 - size)) <;> simp [hnew]
      · obtain ⟨last, hlast, htime⟩ := hfigure _ c hc
        rw [List.getLast?_drop, List.getLast?_concat] at hlast
        split at hlast
        · cases hlast
        · rw [htime, Option.some.inj hlast]
    · exact ⟨none, by simp, by simp⟩

/-! ## (3) Transforms -/

namespace Points

variable {α : Type}

/-- Elements with those some places before go along with time: `Trailing Point.time (fun pair :
Point α × Point α => pair.1.time) fun ps => (ps.drop n).zip ps`. -/
theorem trailing_zip_drop (n : Nat) :
    Trailing Point.time (fun pair : Point α × Point α => pair.1.time)
      fun ps => (ps.drop n).zip ps := by
  simp only [Statistics.zip_drop_eq_sliding]
  refine trailing_sliding (n + 1) fun stretch pair hpair => ?_
  obtain ⟨last, hlast, hfirst⟩ := Option.bind_eq_some_iff.1 hpair
  obtain ⟨first, -, rfl⟩ := Option.map_eq_some_iff.1 hfirst
  exact ⟨last, hlast, rfl⟩

/-- The values of some observations before: `Trailing Point.time Point.time (lagged (α := α) n)`. -/
theorem trailing_lagged (n : Nat) : Trailing Point.time Point.time (lagged (α := α) n) := by
  have heq : ∀ ps : Points α, ps.lagged n =
      ((ps.drop n).zip ps).map fun pair => ⟨pair.1.time, pair.2.value⟩ := by
    intro ps
    rw [List.map_zip_eq_zipWith]
    rfl
  rw [funext heq]
  exact (trailing_zip_drop n).map fun _ => rfl

/-- A figure of the last values: `Trailing Point.time Point.time (trailing size figure)`. -/
theorem trailing_trailing (size : Nat) (figure : List α → Option α) :
    Trailing Point.time Point.time (trailing size figure) := by
  refine trailing_sliding size fun stretch p hp => ?_
  obtain ⟨last, hlast, hp⟩ := Option.bind_eq_some_iff.1 hp
  obtain ⟨v, -, hp⟩ := Option.bind_eq_some_iff.1 hp
  obtain rfl := Option.some.inj hp
  exact ⟨last, hlast, rfl⟩

variable [Scalar α]

/-- Differences: `Trailing Point.time Point.time (changes (α := α))`. -/
theorem trailing_changes : Trailing Point.time Point.time (changes (α := α)) := by
  have heq : ∀ ps : Points α, ps.changes =
      ((ps.drop 1).zip ps).map fun pair => ⟨pair.1.time, pair.1.value - pair.2.value⟩ := by
    intro ps
    rw [List.map_zip_eq_zipWith, List.zipWith_comm, List.drop_one]
    rfl
  rw [funext heq]
  exact (trailing_zip_drop 1).map fun _ => rfl

/-- Growth, where the former value is not zero:
`Trailing Point.time Point.time (growth (α := α))`. -/
theorem trailing_growth : Trailing Point.time Point.time (growth (α := α)) := by
  have heq : ∀ ps : Points α, ps.growth =
      ((ps.drop 1).zip ps).filterMap fun pair => if pair.2.value == 0 then none
        else some ⟨pair.1.time, pair.1.value / pair.2.value - 1⟩ := by
    intro ps
    rw [growth, List.drop_one, ← List.zip_swap, List.filterMap_map]
    rfl
  rw [funext heq]
  refine (trailing_zip_drop 1).filterMap fun pair q hq => ?_
  split at hq
  · cases hq
  · rw [← Option.some.inj hq]

/-- Compounded growth, whatever the product before:
`Trailing Point.time Point.time (compoundFrom product)`. -/
theorem trailing_compoundFrom (product : α) :
    Trailing Point.time Point.time (compoundFrom product) where
  nil := rfl
  concat ps p := by
    -- the product so far goes through the points and is handed to the new one
    induction ps generalizing product with
    | nil => exact ⟨some ⟨p.time, product * (1 + p.value) - 1⟩, rfl, by simp⟩
    | cons q rest ih =>
      obtain ⟨new, hnew, htime⟩ := ih (product * (1 + q.value))
      exact ⟨new, congrArg (List.cons _) hnew, htime⟩

end Points

/-- **Transforms go along with time**, over a window of any number of observations:
`Trailing Point.time Point.time (kind.points (α := α) window)`. -/
theorem Transform.trailing_points {α : Type} [Analytic α] (kind : Transform) (window : Nat) :
    Trailing Point.time Point.time (kind.points (α := α) window) := by
  cases kind with
  | change => exact Points.trailing_changes
  | percentageChange => exact Points.trailing_growth
  | cumulativeReturn => exact Points.trailing_compoundFrom 1
  | movingAverage => exact Points.trailing_trailing window Statistics.mean
  | rollingStddev => exact Points.trailing_trailing window Statistics.stddev
  | lag => exact Points.trailing_lagged window

/-- **A transform of what is known at a time**:
`(s.cutAt d).transform kind window = (s.transform kind window).cutAt d`. -/
theorem Series.transform_cutAt {α : Type} [Analytic α] (kind : Transform) (window : Nat)
    {s : Series α} (hs : s.Increasing) (d : Instant) :
    (s.cutAt d).transform kind window = (s.transform kind window).cutAt d := by
  have htrailing := kind.trailing_points (α := α) window
  have hcut := htrailing.filter_le hs d
  have hpoints : Points.ofWrites (kind.points window (s.cutAt d).points) =
      (Points.ofWrites (kind.points window s.points)).filter fun p => decide (p.time ≤ d) := by
    rw [Points.Increasing.filter_ofWrites (htrailing.pairwise hs), ← hcut]
    rfl
  exact congrArg (fun points => (⟨kind.header s.header, points, s.isWeight⟩ : Series α)) hpoints

/-! ## (4) Rolling regressions -/

section Regression

variable {α : Type}

/-- `valueAt? (ps.filter fun p => decide (p.time ≤ d)) t = ps.valueAt? t`: the value at a time that
is not cut. -/
theorem Points.valueAt?_filter_le (ps : Points α) {t d : Instant} (h : t ≤ d) :
    valueAt? (ps.filter fun p => decide (p.time ≤ d)) t = ps.valueAt? t := by
  have htest : (fun p : Point α => decide (decide (p.time ≤ d) = true ∧ (p.time == t) = true)) =
      fun p => p.time == t := by
    funext p
    by_cases hp : p.time = t <;> simp [hp, h]
  rw [valueAt?, valueAt?, List.find?_filter, htest]

/-- The values that two fields have at the same times are in order of time:
`(pairsOf x y).Pairwise fun p q => p.time < q.time`. -/
theorem pairwise_pairsOf (x : Points α) {y : Points α} (hy : y.Increasing) :
    (pairsOf x y).Pairwise fun p q => p.time < q.time := by
  refine hy.filterMap _ fun p q hlt => ?_
  intro p' hp' q' hq'
  obtain ⟨_, -, rfl⟩ := Option.map_eq_some_iff.1 hp'
  obtain ⟨_, -, rfl⟩ := Option.map_eq_some_iff.1 hq'
  exact hlt

/-- **The values that two cut fields have at the same times** are those of the fields, cut:
`pairsOf (x.filter fun p => decide (p.time ≤ d)) (y.filter fun p => decide (p.time ≤ d))` is
`(pairsOf x y).filter fun p => decide (p.time ≤ d)`. -/
theorem pairsOf_filter_le (x y : Points α) (d : Instant) :
    pairsOf (x.filter fun p => decide (p.time ≤ d)) (y.filter fun p => decide (p.time ≤ d)) =
      (pairsOf x y).filter fun p => decide (p.time ≤ d) := by
  unfold pairsOf
  rw [List.filterMap_filter, List.filter_filterMap]
  refine List.filterMap_congr fun p _ => ?_
  by_cases hp : p.time ≤ d
  · rw [if_pos (decide_eq_true hp), Points.valueAt?_filter_le x hp]
    cases x.valueAt? p.time <;> simp [Option.filter_some, hp]
  · cases x.valueAt? p.time <;> simp [Option.filter_some, hp]

/-- A field that is computed along with time of pairs up to a time:
`figureSeries label (f (pairs.filter fun p => decide (p.time ≤ d)))` is
`(figureSeries label (f pairs)).cutAt d`. -/
theorem figureSeries_filter_le {f : List (Pair α) → Points α}
    (hf : Trailing Pair.time Point.time f) (label : String) {pairs : List (Pair α)}
    (hpairs : pairs.Pairwise fun p q => p.time < q.time) (d : Instant) :
    figureSeries label (f (pairs.filter fun p => decide (p.time ≤ d))) =
      (figureSeries label (f pairs)).cutAt d := by
  rw [figureSeries, figureSeries, Series.cutAt_ofWrites (hf.pairwise hpairs), hf.filter_le hpairs]

variable [Scalar α]

/-- **Lines through the last pairs** go along with time:
`Trailing Pair.time Prod.fst (rollingLines (α := α) size)`. -/
theorem trailing_rollingLines (size : Nat) :
    Trailing Pair.time Prod.fst (rollingLines (α := α) size) := by
  refine trailing_sliding size fun stretch line hline => ?_
  obtain ⟨last, hlast, hline⟩ := Option.bind_eq_some_iff.1 hline
  obtain ⟨fitted, -, hline⟩ := Option.bind_eq_some_iff.1 hline
  obtain rfl := Option.some.inj hline
  exact ⟨last, hlast, rfl⟩

/-- **Distances from the lines through the pairs before** go along with time:
`Trailing Pair.time Point.time (residuals (α := α) size)`. -/
theorem trailing_residuals (size : Nat) :
    Trailing Pair.time Point.time (residuals (α := α) size) := by
  refine trailing_sliding (size + 1) fun stretch p hp => ?_
  obtain ⟨last, hlast, hp⟩ := Option.bind_eq_some_iff.1 hp
  obtain ⟨line, -, hp⟩ := Option.bind_eq_some_iff.1 hp
  obtain rfl := Option.some.inj hp
  exact ⟨last, hlast, rfl⟩

/-- **A rolling regression over what is known at a time**:
`kind.figures window (pairsOf (x.cutAt d).points (y.cutAt d).points)` is
`(kind.figures window (pairsOf x.points y.points)).map (Series.cutAt d)`. -/
theorem Regression.figures_cutAt {kind : Regression} (hkind : kind ≠ .static) (window : Nat)
    (x : Series α) {y : Series α} (hy : y.Increasing) (d : Instant) :
    kind.figures window (pairsOf (x.cutAt d).points (y.cutAt d).points) =
      (kind.figures window (pairsOf x.points y.points)).map (Series.cutAt d) := by
  have hpairs := pairwise_pairsOf x.points hy
  have hlines := trailing_rollingLines (α := α) window
  have hcut : pairsOf (x.cutAt d).points (y.cutAt d).points =
      (pairsOf x.points y.points).filter fun p => decide (p.time ≤ d) :=
    pairsOf_filter_le x.points y.points d
  rw [hcut]
  cases kind with
  | static => exact absurd rfl hkind
  | rollingBeta =>
    have hslopes : Trailing Pair.time Point.time fun pairs : List (Pair α) =>
        (rollingLines window pairs).map fun line => ⟨line.1, line.2.slope⟩ :=
      hlines.map fun _ => rfl
    have hexplained : Trailing Pair.time Point.time fun pairs : List (Pair α) =>
        (rollingLines window pairs).map fun line => ⟨line.1, line.2.explained⟩ :=
      hlines.map fun _ => rfl
    exact congr (congrArg List.cons (figureSeries_filter_le hslopes "Beta" hpairs d))
      (congrArg (fun s => [s]) (figureSeries_filter_le hexplained "R Squared" hpairs d))
  | rollingAlpha =>
    exact congrArg (fun s => [s])
      (figureSeries_filter_le (trailing_residuals window) "Alpha" hpairs d)

end Regression

/-! ## (5) What is known at a time -/

/-- **Transforms and rolling regressions are causal.** Over a window of any number of observations,
what is computed of series in order that are cut at a time is what is computed of the whole series,
cut at this time. -/
theorem figures_causal {α : Type} [Analytic α] (window : Nat) (d : Instant) :
    (∀ (kind : Transform) (s : Series α), s.Increasing →
      (s.cutAt d).transform kind window = (s.transform kind window).cutAt d) ∧
    ∀ (kind : Regression) (x y : Series α), kind ≠ .static → x.Increasing → y.Increasing →
      kind.figures window (pairsOf (x.cutAt d).points (y.cutAt d).points) =
        (kind.figures window (pairsOf x.points y.points)).map (Series.cutAt d) := by
  constructor
  · intro kind s hs
    exact Series.transform_cutAt kind window hs d
  · intro kind x y hkind hx hy
    exact Regression.figures_cutAt hkind window x hy d

/-- Prices and a market that has no value at the third time. What is known at this time are the
prices two observations before, and one line through the last two pairs. -/
theorem figures_causal_prices :
    let price : Series Float := ⟨.labelled "Price", [⟨0, 1⟩, ⟨1, 2⟩, ⟨2, 4⟩, ⟨3, 3⟩], false⟩
    let market : Series Float := ⟨.labelled "Price", [⟨0, 1⟩, ⟨1, 3⟩, ⟨3, 5⟩], false⟩
    let figures := Regression.rollingBeta.figures 2 (pairsOf market.points price.points)
    price.Increasing ∧ market.Increasing ∧
      ((price.transform .lag 2).cutAt 2).points = [⟨2, 1⟩] ∧
      (figures.map (Series.cutAt 2)).map Series.points = [[⟨1, 0.5⟩], [⟨1, 1⟩]] := by
  intro price market figures
  have hprice : price.Increasing := by decide
  have hmarket : market.Increasing := by decide
  obtain ⟨htransform, hregression⟩ := figures_causal (α := Float) 2 2
  refine ⟨hprice, hmarket, ?_, ?_⟩
  · rw [← htransform .lag price hprice]
    exact (Points.ofWrites_of_increasing (by decide)).trans (by decide)
  · rw [← hregression .rollingBeta market price (by decide) hmarket hprice]
    show [Points.ofWrites _, Points.ofWrites _] = _
    rw [Points.ofWrites_of_increasing (by decide +kernel),
      Points.ofWrites_of_increasing (by decide +kernel)]
    decide +kernel

end PanelQuery
