import Mathlib.Algebra.BigOperators.Group.List.Basic
import Mathlib.Algebra.Order.Field.Rat
import Mathlib.Tactic.Ring
import PanelQuery.Statistics

/-! # Statistics without rounding

Of exact numbers, a sum is a sum in whatever order it is taken, and sorted numbers are sorted in one
way only. So no figure of a list of numbers depends on their order, and those of some numbers are
there.

* **`Statistics.sum_eq_sum`** — a sum that is dealt over four totals;
* **`Scalar.sorted_eq_of_perm`** — sorted numbers;
* **`Statistics.mean_eq_of_perm`, `Statistics.median_eq_of_perm`** — figures of reordered numbers;
* **`Statistics.isSome_mean`, `Statistics.isSome_median`, `Statistics.isSome_minimum` and the lemmas
  after it, `Statistics.quantileSorted_eq`** — figures of some numbers. -/

namespace PanelQuery

/-! ## (1) Sums -/

/-- `Scalar.sumLeft xs = xs.sum`: a sum from left to right. -/
theorem Scalar.sumLeft_eq_sum (xs : List Rat) : Scalar.sumLeft xs = xs.sum :=
  List.sum_eq_foldl.symm

namespace Statistics

/-- The four totals of some numbers. -/
def Lanes.total (acc : Lanes Rat) : Rat := acc.first + acc.second + acc.third + acc.fourth

/-- `(acc.deal xs).1.total + (acc.deal xs).2.sum = acc.total + xs.sum`: numbers that are dealt to
the totals, and those that are left, have one sum. -/
theorem Lanes.total_deal (acc : Lanes Rat) (xs : List Rat) :
    (acc.deal xs).1.total + (acc.deal xs).2.sum = acc.total + xs.sum := by
  fun_induction Lanes.deal acc xs with
  | case1 acc a b c d rest ih =>
    rw [ih]
    simp only [total, List.sum_cons]
    ring
  | case2 acc rest h => rfl

/-- **A sum that is dealt over four totals** is the sum of all numbers: `sum xs = xs.sum`. -/
theorem sum_eq_sum (xs : List Rat) : sum xs = xs.sum := by
  have hdeal := Lanes.total_deal ⟨0, 0, 0, 0⟩ xs
  have hzero : Lanes.total ⟨0, 0, 0, 0⟩ = 0 := by simp only [Lanes.total, add_zero]
  rw [hzero, zero_add] at hdeal
  rw [← hdeal, sum]
  simp only [Scalar.sumLeft_eq_sum, Lanes.total, List.sum_cons, List.sum_nil]
  ring

/-- `sum xs = sum ys`: a sum of reordered numbers. -/
theorem sum_eq_of_perm {xs ys : List Rat} (h : xs.Perm ys) : sum xs = sum ys := by
  rw [sum_eq_sum, sum_eq_sum, h.sum_eq]

/-- `mean xs = mean ys`: a mean of reordered numbers. -/
theorem mean_eq_of_perm {xs ys : List Rat} (h : xs.Perm ys) : mean xs = mean ys := by
  rw [mean, mean, sum_eq_of_perm h, h.length_eq, h.isEmpty_eq]

/-- Some numbers have a mean: `(mean xs).isSome`. -/
theorem isSome_mean {α : Type} [Scalar α] {xs : List α} (h : xs ≠ []) : (mean xs).isSome := by
  rw [mean, if_neg (by simpa using h), Option.isSome_some]

end Statistics

/-! ## (2) Sorted numbers -/

/-- Sorted numbers are those that there are: `(Scalar.sorted xs).Perm xs`. -/
theorem Scalar.sorted_perm {α : Type} [Scalar α] (xs : List α) : (Scalar.sorted xs).Perm xs :=
  List.mergeSort_perm _ _

/-- Some numbers are still some when they are sorted: `Scalar.sorted xs ≠ []`. -/
theorem Scalar.sorted_ne_nil {α : Type} [Scalar α] {xs : List α} (h : xs ≠ []) :
    Scalar.sorted xs ≠ [] :=
  fun hnil => h (hnil ▸ Scalar.sorted_perm xs).nil_eq.symm

/-- They are in order: `(Scalar.sorted xs).Pairwise (· ≤ ·)`. -/
theorem Scalar.sorted_pairwise (xs : List Rat) : (Scalar.sorted xs).Pairwise (· ≤ ·) := by
  have hsorted : (xs.mergeSort fun a b : Rat => decide (a ≤ b)).Pairwise
      (fun a b => decide (a ≤ b) = true) := by
    refine List.pairwise_mergeSort (fun a b c hab hbc => ?_) (fun a b => ?_) xs
    · exact decide_eq_true ((of_decide_eq_true hab).trans (of_decide_eq_true hbc))
    · rw [Bool.or_eq_true, decide_eq_true_eq, decide_eq_true_eq]
      exact le_total a b
  exact hsorted.imp fun h => of_decide_eq_true h

/-- **Reordered numbers are sorted in one way**: `Scalar.sorted xs = Scalar.sorted ys`. -/
theorem Scalar.sorted_eq_of_perm {xs ys : List Rat} (h : xs.Perm ys) :
    Scalar.sorted xs = Scalar.sorted ys :=
  List.Perm.eq_of_pairwise (fun _ _ _ _ hab hba => le_antisymm hab hba)
    (sorted_pairwise xs) (sorted_pairwise ys)
    ((sorted_perm xs).trans (h.trans (sorted_perm ys).symm))

namespace Statistics

/-- `median xs = median ys`: a median of reordered numbers. -/
theorem median_eq_of_perm {xs ys : List Rat} (h : xs.Perm ys) : median xs = median ys := by
  rw [median, median, Scalar.sorted_eq_of_perm h]

/-- Some numbers have a median: `(median xs).isSome`. -/
theorem isSome_median {α : Type} [Scalar α] {xs : List α} (h : xs ≠ []) : (median xs).isSome := by
  have hlength : 0 < (Scalar.sorted xs).length := List.length_pos_iff.2 (Scalar.sorted_ne_nil h)
  unfold median
  generalize Scalar.sorted xs = ys at hlength
  dsimp only
  split
  · rw [List.getElem?_eq_getElem (show ys.length / 2 < ys.length by omega), Option.isSome_some]
  · rw [List.getElem?_eq_getElem (show ys.length / 2 - 1 < ys.length by omega),
      List.getElem?_eq_getElem (show ys.length / 2 < ys.length by omega)]
    rfl

/-- Some numbers have a smallest one: `(minimum xs).isSome`. -/
theorem isSome_minimum {α : Type} [Scalar α] {xs : List α} (h : xs ≠ []) :
    (minimum xs).isSome := by
  obtain ⟨x, xs, rfl⟩ := List.exists_cons_of_ne_nil h
  rfl

/-- Some numbers have a greatest one: `(maximum xs).isSome`. -/
theorem isSome_maximum {α : Type} [Scalar α] {xs : List α} (h : xs ≠ []) :
    (maximum xs).isSome := by
  obtain ⟨x, xs, rfl⟩ := List.exists_cons_of_ne_nil h
  rfl

/-- Some numbers have a product: `(product xs).isSome`. -/
theorem isSome_product {α : Type} [Scalar α] {xs : List α} (h : xs ≠ []) :
    (product xs).isSome := by
  rw [product, if_neg (by simpa using h), Option.isSome_some]

/-- Some returns are compounded: `(compound xs).isSome`. -/
theorem isSome_compound {α : Type} [Scalar α] {xs : List α} (h : xs ≠ []) :
    (compound xs).isSome := by
  rw [compound, if_neg (by simpa using h), Option.isSome_some]

/-- `Scalar.clamp 0 1 q = max 0 (min 1 q)`: a number that is held between zero and one. -/
theorem clamp_eq (q : Rat) : Scalar.clamp 0 1 q = max 0 (min 1 q) := by
  unfold Scalar.clamp
  split
  · rename_i hlow
    rw [max_eq_left ((min_le_right 1 q).trans hlow.le)]
  split
  · rename_i hhigh
    rw [min_eq_left hhigh.le, max_eq_right zero_le_one]
  · rename_i hlow hhigh
    rw [min_eq_right (not_lt.1 hhigh), max_eq_right (not_lt.1 hlow)]

/-- It is at most one: `Scalar.clamp 0 1 q ≤ 1`. -/
theorem clamp_le_one (q : Rat) : Scalar.clamp 0 1 q ≤ 1 := by
  rw [clamp_eq]
  exact max_le zero_le_one (min_le_left 1 q)

/-- It is not negative: `0 ≤ Scalar.clamp 0 1 q`. -/
theorem clamp_nonneg (q : Rat) : 0 ≤ Scalar.clamp 0 1 q := by
  rw [clamp_eq]
  exact le_max_left 0 _

/-- Numbers that are held stay in order: `Scalar.clamp 0 1 q ≤ Scalar.clamp 0 1 q'`. -/
theorem clamp_mono {q q' : Rat} (h : q ≤ q') : Scalar.clamp 0 1 q ≤ Scalar.clamp 0 1 q' := by
  rw [clamp_eq, clamp_eq]
  exact max_le_max_left 0 (min_le_min_left 1 h)

/-- The ranks next to one that is at most the last are at most the last as well:
`rank.floor.toNat < n ∧ rank.ceil.toNat < n`. -/
theorem neighbours_lt {n : Nat} (hn : 0 < n) {rank : Rat} (h : rank ≤ (n - 1 : Nat)) :
    rank.floor.toNat < n ∧ rank.ceil.toNat < n := by
  have hfloor : rank.floor ≤ (n - 1 : Nat) := by exact_mod_cast (Rat.floor_le rank).trans h
  have hceil : rank.ceil ≤ (n - 1 : Nat) := Rat.ceil_le_iff.2 (by exact_mod_cast h)
  omega

/-- **A quantile** lies on the line between the two numbers next to its rank, which is at most that of
the last. -/
theorem quantileSorted_eq {ys : List Rat} (h : ys ≠ []) {q rank : Rat}
    (hrank : Scalar.clamp 0 1 q * (ys.length - 1 : Nat) = rank) :
    ∃ (hlo : rank.floor.toNat < ys.length) (hhi : rank.ceil.toNat < ys.length),
      quantileSorted ys q = some (ys[rank.floor.toNat] +
        (ys[rank.ceil.toNat] - ys[rank.floor.toNat]) * (rank - (rank.floor.toNat : Nat))) := by
  subst hrank
  obtain ⟨hlo, hhi⟩ := neighbours_lt (List.length_pos_iff.2 h)
    (mul_le_of_le_one_left (Nat.cast_nonneg (ys.length - 1)) (clamp_le_one q))
  refine ⟨hlo, hhi, ?_⟩
  rw [quantileSorted, if_neg (by simpa using h)]
  change (ys[(Scalar.clamp 0 1 q * (ys.length - 1 : Nat)).floor.toNat]?.bind fun below =>
    ys[(Scalar.clamp 0 1 q * (ys.length - 1 : Nat)).ceil.toNat]?.bind fun above => _) = _
  rw [List.getElem?_eq_getElem hlo, List.getElem?_eq_getElem hhi]
  rfl

/-- **Some numbers have every quantile**: `(quantileSorted ys q).isSome`. -/
theorem isSome_quantileSorted {ys : List Rat} (h : ys ≠ []) (q : Rat) :
    (quantileSorted ys q).isSome := by
  obtain ⟨_, _, heq⟩ := quantileSorted_eq h (q := q) rfl
  rw [heq, Option.isSome_some]

end Statistics

end PanelQuery
