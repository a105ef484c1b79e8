import Mathlib.Algebra.BigOperators.Fin
import PanelQuery.Proofs.Statistics

/-! # Sums that are dealt out

Numbers are added up on four running totals, and so are the products of two lists, which are cut to
one length and dealt in step. Dealing in step comes to the same as dealing the list of all products,
number by number and with whatever rounding there is. Of exact numbers, how they are dealt does not
show in their sum at all.

* **`Lanes.dealProducts_fst`, `Lanes.zipWith_dealProducts`** — two lists that are dealt in step, and
  the list of their products;
* **`sumProduct_eq_sum`** — a sum of products is the sum of that list;
* **`sums_plain`** — both sums of exact numbers. -/

namespace PanelQuery.Statistics

/-! ## (1) Two lists in step -/

section Products

variable {α : Type} [Scalar α]

/-- `acc.deal xs = (acc, xs)`: less than four numbers are not dealt. -/
theorem Lanes.deal_of_length_lt (acc : Lanes α) {xs : List α} (h : xs.length < 4) :
    acc.deal xs = (acc, xs) := by
  match xs, h with
  | [], _ | [_], _ | [_, _], _ | [_, _, _], _ => rfl

/-- Two lists of which one has less than four numbers have less than four products:
`(List.zipWith (· * ·) xs ys).length < 4`. -/
theorem length_zipWith_lt_four {xs ys : List α}
    (h : ∀ a b c d xs' a' b' c' d' ys', xs = a :: b :: c :: d :: xs' →
      ys = a' :: b' :: c' :: d' :: ys' → False) :
    (List.zipWith (· * ·) xs ys).length < 4 := by
  match xs, ys with
  | a :: b :: c :: d :: xs, a' :: b' :: c' :: d' :: ys =>
    exact (h a b c d xs a' b' c' d' ys rfl rfl).elim
  | [], _ | [_], _ | [_, _], _ | [_, _, _], _ =>
    rw [List.length_zipWith]
    exact Nat.lt_of_le_of_lt (Nat.min_le_left _ _) (by simp)
  | _, [] | _, [_] | _, [_, _] | _, [_, _, _] =>
    rw [List.length_zipWith]
    exact Nat.lt_of_le_of_lt (Nat.min_le_right _ _) (by simp)

/-- **Two lists in step** give the totals of their products:
`(acc.dealProducts xs ys).1 = (acc.deal (List.zipWith (· * ·) xs ys)).1`. -/
theorem Lanes.dealProducts_fst (acc : Lanes α) (xs ys : List α) :
    (acc.dealProducts xs ys).1 = (acc.deal (List.zipWith (· * ·) xs ys)).1 := by
  -- each round takes four numbers of both lists, and four products
  fun_induction Lanes.dealProducts acc xs ys with
  | case1 acc a b c d xs a' b' c' d' ys ih => exact ih
  | case2 acc xs ys h => rw [deal_of_length_lt acc (length_zipWith_lt_four h)]

/-- **What is left of both** has the products that are left:
`List.zipWith (· * ·) (acc.dealProducts xs ys).2.1 (acc.dealProducts xs ys).2.2` is
`(acc.deal (List.zipWith (· * ·) xs ys)).2`. -/
theorem Lanes.zipWith_dealProducts (acc : Lanes α) (xs ys : List α) :
    List.zipWith (· * ·) (acc.dealProducts xs ys).2.1 (acc.dealProducts xs ys).2.2 =
      (acc.deal (List.zipWith (· * ·) xs ys)).2 := by
  fun_induction Lanes.dealProducts acc xs ys with
  | case1 acc a b c d xs a' b' c' d' ys ih => exact ih
  | case2 acc xs ys h => rw [deal_of_length_lt acc (length_zipWith_lt_four h)]

/-- Lists that are cut to the length of the shorter one have the same products:
`List.zipWith (· * ·) (xs.take (min xs.length ys.length)) (ys.take (min xs.length ys.length))` is
`List.zipWith (· * ·) xs ys`. -/
theorem zipWith_take_min (xs ys : List α) :
    List.zipWith (· * ·) (xs.take (min xs.length ys.length)) (ys.take (min xs.length ys.length)) =
      List.zipWith (· * ·) xs ys := by
  rw [← List.take_zipWith, List.take_of_length_le (by rw [List.length_zipWith])]

/-- **A sum of products is the sum of the list of products**, dealt in the same way:
`sumProduct xs ys = sum (List.zipWith (· * ·) xs ys)`. -/
theorem sumProduct_eq_sum (xs ys : List α) :
    sumProduct xs ys = sum (List.zipWith (· * ·) xs ys) := by
  unfold sumProduct sum
  dsimp only
  rw [Lanes.dealProducts_fst, Lanes.zipWith_dealProducts, zipWith_take_min]

end Products

/-! ## (2) Exact numbers -/

/-- The products of two lists, place by place:
`(List.zipWith (· * ·) xs ys).sum = ∑ i : Fin (min xs.length ys.length), xs[i] * ys[i]`. -/
theorem sum_zipWith_eq (xs ys : List Rat) : (List.zipWith (· * ·) xs ys).sum =
    ∑ i : Fin (min xs.length ys.length), xs[i] * ys[i] := by
  have hproducts : List.zipWith (· * ·) xs ys =
      List.ofFn fun i : Fin (min xs.length ys.length) => xs[i] * ys[i] :=
    List.ext_getElem (by simp) (by simp)
  rw [hproducts, List.sum_ofFn]

/-- **Sums that are dealt over four totals are plain sums**, however many numbers there are: the sum
of a list is that of its numbers, and the sum of products of two lists is that of the products at
all places that both of them have. `(∀ xs : List Rat, sum xs = xs.sum)` and
`∀ xs ys : List Rat, sumProduct xs ys = ∑ i : Fin (min xs.length ys.length), xs[i] * ys[i]`. -/
theorem sums_plain :
    (∀ xs : List Rat, sum xs = xs.sum) ∧
    ∀ xs ys : List Rat, sumProduct xs ys =
      ∑ i : Fin (min xs.length ys.length), xs[i] * ys[i] := by
  refine ⟨sum_eq_sum, fun xs ys => ?_⟩
  calc sumProduct xs ys
      = sum (List.zipWith (· * ·) xs ys) := sumProduct_eq_sum xs ys
    _ = (List.zipWith (· * ·) xs ys).sum := sum_eq_sum _
    _ = ∑ i : Fin (min xs.length ys.length), xs[i] * ys[i] := sum_zipWith_eq xs ys

/-- Five numbers and seven: one round of four, and one product that is left. -/
example : sumProduct [1, 2, 3, 4, 5] [2, 2, 2, 2, 10, 7, 7] = (70 : Rat) := by decide +kernel

end PanelQuery.Statistics
