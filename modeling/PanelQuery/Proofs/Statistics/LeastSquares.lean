import Mathlib.Algebra.Order.BigOperators.Group.List
import Mathlib.Tactic.FieldSimp
import PanelQuery.Proofs.Statistics
import PanelQuery.Statistics.LeastSquares

/-! # Lines of least squares

Of exact numbers, a line is fitted by sums about the two means. The squared distances of the pairs
to any line are told by the same sums: they are what they are for the fitted line, and two squares
more.

* **`Line.squares`, `Line.IsLeastSquares`** — squared distances to a line, and lines than which no
  other one is nearer;
* **`Line.squares_about`, `Line.weighed_about`** — distances in terms of the sums about two numbers;
* **`Line.fitted`, `Line.fit_eq`** — the fitted line, and when there is one;
* **`Line.squares_eq`** — what any other line has more;
* **`Line.one_sub_explained_mul`** — the share of variation that is not explained;
* **`Line.isLeastSquares_fitted`, `Line.fit_leastSquares`** — the fitted line is one of least
  squares. -/

namespace PanelQuery.Statistics.Line

/-! ## (1) Distances -/

/-- The distance of a pair to the line `a + b · x`. -/
def distance (a b : Rat) (p : Rat × Rat) : Rat := p.2 - (a + b * p.1)

/-- The sum of the squared distances of pairs to the line `a + b · x`. -/
def squares (a b : Rat) (pairs : List (Rat × Rat)) : Rat :=
  (pairs.map fun p => distance a b p * distance a b p).sum

/-- `residual line p`: the distance of a pair to a fitted line. -/
def residual (line : Line Rat) (p : Rat × Rat) : Rat := p.2 - line.predict p.1

/-- A line of least squares through pairs. -/
structure IsLeastSquares (line : Line Rat) (pairs : List (Rat × Rat)) : Prop where
  /-- No line is nearer to the pairs. -/
  least : ∀ a b, (pairs.map fun p => line.residual p * line.residual p).sum ≤ squares a b pairs
  /-- The distances outweigh each other. -/
  balanced : (pairs.map line.residual).sum = 0
  /-- They do not vary with `x`. -/
  orthogonal : (pairs.map fun p => line.residual p * p.1).sum = 0
  explained_nonneg : 0 ≤ line.explained
  explained_le_one : line.explained ≤ 1
  /-- All variation is explained when all pairs are on the line. -/
  explained_eq_one_iff : line.explained = 1 ↔ ∀ p ∈ pairs, line.residual p = 0

/-- A sum of squares is not negative: `0 ≤ (bs.map fun b => f b * f b).sum`. -/
theorem sum_squares_nonneg {β : Type} (f : β → Rat) (bs : List β) :
    0 ≤ (bs.map fun b => f b * f b).sum := by
  refine List.sum_nonneg fun x hx => ?_
  obtain ⟨b, -, rfl⟩ := List.mem_map.1 hx
  exact mul_self_nonneg (f b)

/-- `(bs.map fun b => f b * f b).sum = 0 ↔ ∀ b ∈ bs, f b = 0`: a sum of squares is zero when all of
them are. -/
theorem sum_squares_eq_zero_iff {β : Type} (f : β → Rat) (bs : List β) :
    (bs.map fun b => f b * f b).sum = 0 ↔ ∀ b ∈ bs, f b = 0 := by
  induction bs with
  | nil => simp
  | cons b bs ih =>
    rw [List.map_cons, List.sum_cons, add_eq_zero_iff_of_nonneg (mul_self_nonneg (f b))
      (sum_squares_nonneg f bs), mul_self_eq_zero, ih, List.forall_mem_cons]

/-- Squared distances are not negative: `0 ≤ squares a b pairs`. -/
theorem squares_nonneg (a b : Rat) (pairs : List (Rat × Rat)) : 0 ≤ squares a b pairs :=
  sum_squares_nonneg (distance a b) pairs

/-! ## (2) Sums about two numbers -/

section Spread

variable (mx my : Rat) (pairs : List (Rat × Rat))

/-- Sums that are continued from others. -/
theorem foldl_spread (s : Spread Rat) :
    pairs.foldl (fun s p =>
        let dx := p.1 - mx
        let dy := p.2 - my
        (⟨s.xx + dx * dx, s.xy + dx * dy, s.yy + dy * dy⟩ : Spread Rat)) s =
      ⟨s.xx + (pairs.map fun p => (p.1 - mx) * (p.1 - mx)).sum,
        s.xy + (pairs.map fun p => (p.1 - mx) * (p.2 - my)).sum,
        s.yy + (pairs.map fun p => (p.2 - my) * (p.2 - my)).sum⟩ := by
  induction pairs generalizing s with
  | nil => simp
  | cons p pairs ih =>
    rw [List.foldl_cons, ih]
    simp only [List.map_cons, List.sum_cons, add_assoc]

/-- **The sums of squares and of products** of the distances to two numbers. -/
theorem spread_about :
    Spread.about mx my pairs =
      ⟨(pairs.map fun p => (p.1 - mx) * (p.1 - mx)).sum,
        (pairs.map fun p => (p.1 - mx) * (p.2 - my)).sum,
        (pairs.map fun p => (p.2 - my) * (p.2 - my)).sum⟩ := by
  have hfold := foldl_spread mx my pairs ⟨0, 0, 0⟩
  simp only [zero_add] at hfold
  exact hfold

/-- **Squared distances to any line**, where it misses the two numbers by `c`. -/
theorem squares_about (a b : Rat) {c : Rat} (hc : my - (a + b * mx) = c) :
    squares a b pairs =
      (Spread.about mx my pairs).yy - 2 * b * (Spread.about mx my pairs).xy +
        b * b * (Spread.about mx my pairs).xx + pairs.length * (c * c) +
        2 * c * ((pairs.map fun p => p.2 - my).sum - b * (pairs.map fun p => p.1 - mx).sum) := by
  subst hc
  rw [spread_about, squares]
  induction pairs with
  | nil => simp
  | cons p pairs ih =>
    rw [List.map_cons, List.sum_cons, ih]
    simp only [List.map_cons, List.sum_cons, List.length_cons, distance]
    push_cast
    ring

/-- Distances to any line, weighed by how far along it they are. -/
theorem weighed_about (a b u v : Rat) {c : Rat} (hc : my - (a + b * mx) = c) :
    (pairs.map fun p => distance a b p * (u + v * p.1)).sum =
      v * ((Spread.about mx my pairs).xy - b * (Spread.about mx my pairs).xx +
          c * (pairs.map fun p => p.1 - mx).sum) +
        (u + v * mx) * ((pairs.map fun p => p.2 - my).sum -
          b * (pairs.map fun p => p.1 - mx).sum + pairs.length * c) := by
  subst hc
  rw [spread_about]
  induction pairs with
  | nil => simp
  | cons p pairs ih =>
    rw [List.map_cons, List.sum_cons, ih]
    simp only [List.map_cons, List.sum_cons, List.length_cons, distance]
    push_cast
    ring

end Spread

/-- `(bs.map fun b => f b - m).sum = (bs.map f).sum - bs.length * m`: distances to one number, all
together. -/
theorem sum_sub_const {β : Type} (f : β → Rat) (m : Rat) (bs : List β) :
    (bs.map fun b => f b - m).sum = (bs.map f).sum - bs.length * m := by
  induction bs with
  | nil => simp
  | cons b bs ih =>
    simp only [List.map_cons, List.sum_cons, List.length_cons, ih]
    push_cast
    ring

/-- **Distances to the mean** outweigh each other:
`(bs.map fun b => f b - sum (bs.map f) / bs.length).sum = 0`. -/
theorem sum_sub_mean {β : Type} (f : β → Rat) {bs : List β} (hbs : bs ≠ []) :
    (bs.map fun b => f b - sum (bs.map f) / bs.length).sum = 0 := by
  have hlength : (bs.length : Rat) ≠ 0 := by simpa using hbs
  rw [sum_sub_const, sum_eq_sum, mul_div_cancel₀ _ hlength, sub_self]

/-! ## (3) The fitted line -/

section Fitted

variable (pairs : List (Rat × Rat))

/-- The mean of the `x` of pairs. -/
def meanX : Rat := sum (pairs.map Prod.fst) / pairs.length

/-- The mean of the `y` of pairs. -/
def meanY : Rat := sum (pairs.map Prod.snd) / pairs.length

/-- The sums about the two means. -/
def spread : Spread Rat := Spread.about (meanX pairs) (meanY pairs) pairs

/-- The line that is fitted to pairs whose `x` differ. -/
def fitted : Line Rat :=
  let s := spread pairs
  { intercept := meanY pairs - s.xy / s.xx * meanX pairs
    slope := s.xy / s.xx
    explained := if s.yy == 0 then 1 else s.xy * s.xy / (s.xx * s.yy) }

/-- **A line is fitted** to two pairs or more that vary in `x`. -/
theorem fit_eq (xs ys : List Rat) :
    fit xs ys = if (xs.zip ys).length < 2 ∨ (spread (xs.zip ys)).xx = 0 then none
      else some (fitted (xs.zip ys)) := by
  have hfit : fit xs ys = if (xs.zip ys).length < 2 then none
      else if (spread (xs.zip ys)).xx == 0 then none else some (fitted (xs.zip ys)) := rfl
  rw [hfit]
  by_cases hxx : (spread (xs.zip ys)).xx = 0 <;> simp [hxx]

variable {pairs}

/-- The sum of squares of `x` is zero when all `x` are equal. -/
theorem spread_xx_eq_zero_iff (hpairs : pairs ≠ []) :
    (spread pairs).xx = 0 ↔ ∀ p ∈ pairs, ∀ q ∈ pairs, p.1 = q.1 := by
  rw [spread, spread_about, sum_squares_eq_zero_iff fun p : Rat × Rat => p.1 - meanX pairs]
  constructor
  · intro h p hp q hq
    rw [sub_eq_zero.1 (h p hp), sub_eq_zero.1 (h q hq)]
  · -- distances to the mean that are all equal outweigh each other only at zero
    intro h p hp
    have hsum := sum_sub_mean Prod.fst hpairs
    have hall : ∀ d ∈ pairs.map fun q => q.1 - meanX pairs, d = p.1 - meanX pairs := by
      intro d hd
      obtain ⟨q, hq, rfl⟩ := List.mem_map.1 hd
      rw [h q hq p hp]
    have hlength : (pairs.length : Rat) ≠ 0 := by simpa using hpairs
    rw [← meanX, List.eq_replicate_of_mem hall, List.sum_replicate, List.length_map, nsmul_eq_mul,
      mul_eq_zero] at hsum
    exact hsum.resolve_left hlength

/-- The sum of squares of `x` is not negative. -/
theorem spread_xx_nonneg (pairs : List (Rat × Rat)) : 0 ≤ (spread pairs).xx := by
  rw [spread, spread_about]
  exact sum_squares_nonneg (fun p : Rat × Rat => p.1 - meanX pairs) pairs

/-- The sum of squares of `y` is not negative. -/
theorem spread_yy_nonneg (pairs : List (Rat × Rat)) : 0 ≤ (spread pairs).yy := by
  rw [spread, spread_about]
  exact sum_squares_nonneg (fun p : Rat × Rat => p.2 - meanY pairs) pairs

/-- `meanY pairs - ((fitted pairs).intercept + (fitted pairs).slope * meanX pairs) = 0`: the line
goes through the means. -/
theorem fitted_through (pairs : List (Rat × Rat)) :
    meanY pairs - ((fitted pairs).intercept + (fitted pairs).slope * meanX pairs) = 0 := by
  unfold fitted
  ring

/-- A line along equal `y` explains all of their variation, which is none. -/
theorem explained_fitted_of_yy (hyy : (spread pairs).yy = 0) : (fitted pairs).explained = 1 :=
  if_pos (beq_iff_eq.2 hyy)

section Differing

variable (hpairs : pairs ≠ []) (hxx : (spread pairs).xx ≠ 0)

include hxx in
/-- `(fitted pairs).slope * (spread pairs).xx = (spread pairs).xy`: its slope is that of the
sums. -/
theorem fitted_slope_mul : (fitted pairs).slope * (spread pairs).xx = (spread pairs).xy :=
  div_mul_cancel₀ _ hxx

include hpairs in
/-- Squared distances to any line, about the means. -/
theorem squares_eq_spread (a b : Rat) :
    squares a b pairs =
      (spread pairs).yy - 2 * b * (spread pairs).xy + b * b * (spread pairs).xx +
        pairs.length * ((meanY pairs - (a + b * meanX pairs)) *
          (meanY pairs - (a + b * meanX pairs))) := by
  have hx := sum_sub_mean Prod.fst hpairs
  have hy := sum_sub_mean Prod.snd hpairs
  rw [← meanX] at hx
  rw [← meanY] at hy
  rw [squares_about (meanX pairs) (meanY pairs) pairs a b rfl, hx, hy, spread]
  ring

include hpairs hxx

/-- Squared distances to the fitted line:
`squares (fitted pairs).intercept (fitted pairs).slope pairs` is
`(spread pairs).yy - (fitted pairs).slope * (spread pairs).xy`. -/
theorem squares_fitted :
    squares (fitted pairs).intercept (fitted pairs).slope pairs =
      (spread pairs).yy - (fitted pairs).slope * (spread pairs).xy := by
  rw [squares_eq_spread hpairs, fitted_through, ← fitted_slope_mul hxx]
  ring

/-- **Squared distances to any line** are those to the fitted one and two squares more. -/
theorem squares_eq (a b : Rat) :
    squares a b pairs =
      squares (fitted pairs).intercept (fitted pairs).slope pairs +
        (spread pairs).xx * ((b - (fitted pairs).slope) * (b - (fitted pairs).slope)) +
        pairs.length * ((meanY pairs - (a + b * meanX pairs)) *
          (meanY pairs - (a + b * meanX pairs))) := by
  rw [squares_eq_spread hpairs, squares_fitted hpairs hxx, ← fitted_slope_mul hxx]
  ring

/-- **No line is nearer** than the fitted one:
`squares (fitted pairs).intercept (fitted pairs).slope pairs ≤ squares a b pairs`. -/
theorem squares_fitted_le (a b : Rat) :
    squares (fitted pairs).intercept (fitted pairs).slope pairs ≤ squares a b pairs := by
  rw [squares_eq hpairs hxx a b, add_assoc, le_add_iff_nonneg_right]
  have hslope := mul_nonneg (spread_xx_nonneg pairs) (mul_self_nonneg (b - (fitted pairs).slope))
  have hlength := mul_nonneg (Nat.cast_nonneg (α := Rat) pairs.length)
    (mul_self_nonneg (meanY pairs - (a + b * meanX pairs)))
  exact add_nonneg hslope hlength

/-- `(pairs.map fun p => (fitted pairs).residual p * (u + v * p.1)).sum = 0`: distances to the
fitted line outweigh each other, however they are weighed along it. -/
theorem weighed_fitted (u v : Rat) :
    (pairs.map fun p => (fitted pairs).residual p * (u + v * p.1)).sum = 0 := by
  have hx := sum_sub_mean Prod.fst hpairs
  have hy := sum_sub_mean Prod.snd hpairs
  rw [← meanX] at hx
  rw [← meanY] at hy
  have hweighed := weighed_about (meanX pairs) (meanY pairs) pairs (fitted pairs).intercept
    (fitted pairs).slope u v (fitted_through pairs)
  rw [hx, hy, ← spread, ← fitted_slope_mul hxx] at hweighed
  refine hweighed.trans ?_
  ring

/-- **The share that is not explained** is that of the squared distances:
`(1 - (fitted pairs).explained) * (spread pairs).yy` is
`squares (fitted pairs).intercept (fitted pairs).slope pairs`. -/
theorem one_sub_explained_mul :
    (1 - (fitted pairs).explained) * (spread pairs).yy =
      squares (fitted pairs).intercept (fitted pairs).slope pairs := by
  have hsquares := squares_fitted hpairs hxx
  have hslope := fitted_slope_mul hxx
  by_cases hyy : (spread pairs).yy = 0
  · -- all `y` are equal, and so no line is nearer than the one along them
    have hflat : squares (meanY pairs) 0 pairs = 0 := by
      rw [squares_eq_spread hpairs, hyy]
      ring
    have hle := squares_fitted_le hpairs hxx (meanY pairs) 0
    rw [hyy, mul_zero]
    exact le_antisymm (squares_nonneg _ _ _) (hle.trans_eq hflat)
  · have hexplained : (fitted pairs).explained =
        (spread pairs).xy * (spread pairs).xy / ((spread pairs).xx * (spread pairs).yy) :=
      if_neg (by simpa using hyy)
    rw [hsquares, hexplained, ← hslope]
    field_simp

/-- **The fitted line is one of least squares**: `(fitted pairs).IsLeastSquares pairs`. -/
theorem isLeastSquares_fitted : (fitted pairs).IsLeastSquares pairs := by
  have hshare := one_sub_explained_mul hpairs hxx
  have hsquares := squares_nonneg (fitted pairs).intercept (fitted pairs).slope pairs
  have hxx_nonneg := spread_xx_nonneg pairs
  have hyy_nonneg := spread_yy_nonneg pairs
  constructor
  case least => exact squares_fitted_le hpairs hxx
  case balanced => simpa using weighed_fitted hpairs hxx 1 0
  case orthogonal => simpa using weighed_fitted hpairs hxx 0 1
  case explained_nonneg =>
    unfold fitted
    dsimp only
    split
    · exact zero_le_one
    · exact div_nonneg (mul_self_nonneg _) (mul_nonneg hxx_nonneg hyy_nonneg)
  case explained_le_one =>
    by_cases hyy : (spread pairs).yy = 0
    · exact (explained_fitted_of_yy hyy).le
    · have hpos : 0 < (spread pairs).yy := lt_of_le_of_ne hyy_nonneg (Ne.symm hyy)
      rw [← hshare] at hsquares
      exact sub_nonneg.1 (nonneg_of_mul_nonneg_left hsquares hpos)
  case explained_eq_one_iff =>
    have hzero : squares (fitted pairs).intercept (fitted pairs).slope pairs = 0 ↔
        ∀ p ∈ pairs, (fitted pairs).residual p = 0 :=
      sum_squares_eq_zero_iff (fitted pairs).residual pairs
    rw [← hzero, ← hshare, mul_eq_zero, sub_eq_zero]
    constructor
    · exact fun hone => .inl hone.symm
    · rintro (hone | hyy)
      · exact hone.symm
      · exact explained_fitted_of_yy hyy

end Differing

end Fitted

/-- **A fitted line is one of least squares.** There is none just when both lists have less than two
numbers in common places, or all `x` are equal there; else it is one of least squares through the
pairs. -/
theorem fit_leastSquares (xs ys : List Rat) :
    (fit xs ys = none ↔ min xs.length ys.length < 2 ∨
      ∀ p ∈ xs.zip ys, ∀ q ∈ xs.zip ys, p.1 = q.1) ∧
    ∀ line, fit xs ys = some line → line.IsLeastSquares (xs.zip ys) := by
  have hlength : (xs.zip ys).length = min xs.length ys.length := List.length_zip
  have hpairs : ¬(xs.zip ys).length < 2 → xs.zip ys ≠ [] := by
    intro hlong hnil
    rw [hnil] at hlong
    exact hlong (by decide)
  rw [fit_eq, ← hlength]
  constructor
  · by_cases hshort : (xs.zip ys).length < 2
    · simp only [if_pos (Or.inl hshort), true_iff]
      exact .inl hshort
    · rw [← spread_xx_eq_zero_iff (hpairs hshort)]
      split <;> simp_all
  · intro line hline
    split at hline
    · cases hline
    · rename_i hdiffer
      obtain ⟨hlong, hxx⟩ := not_or.1 hdiffer
      rw [← Option.some.inj hline]
      exact isLeastSquares_fitted (hpairs hlong) hxx

/-- Three pairs that are on no line, and one number more: of their variation, the nearest line
explains three quarters. -/
theorem fit_leastSquares_threePairs :
    let xs : List Rat := [0, 1, 2, 5]
    let ys : List Rat := [1, 2, 2]
    let line : Line Rat := ⟨7/6, 1/2, 3/4⟩
    fit xs ys = some line ∧ line.IsLeastSquares (xs.zip ys) := by
  intro xs ys line
  have hnumbers : (fit xs ys).map (fun l => (l.intercept, l.slope, l.explained)) =
      some (7/6, 1/2, 3/4) := by decide +kernel
  obtain ⟨⟨a, b, r⟩, hfit, heq⟩ := Option.map_eq_some_iff.1 hnumbers
  cases heq
  exact ⟨hfit, (fit_leastSquares xs ys).2 line hfit⟩

end PanelQuery.Statistics.Line
