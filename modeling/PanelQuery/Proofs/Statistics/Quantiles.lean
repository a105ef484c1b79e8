import Mathlib.Data.List.GetD
import Mathlib.Order.Bounds.Basic
import PanelQuery.Proofs.Statistics.Buckets

/-! # Quantiles of exact numbers

A quantile goes along straight lines from the smallest number to the greatest. On the way it passes
every number at the fraction of its rank, never turns back, and half way it is at the median.

* **`interpolated`, `quantileSorted_eq_interpolated`** — the number at a rank, also between two
  numbers;
* **`interpolated_mono`** — it does not fall with the rank;
* **`median_eq_interpolated`** — the median is half way to the last number;
* **`quantile`, `quantile_mono`, `quantile_rank`** — the quantiles of some numbers, in order, and
  those at the fraction of a rank;
* **`Quantiles`, `quantiles`** — all that is said of them. -/

namespace PanelQuery.Statistics

/-! ## (1) Numbers at ranks -/

/-- The number at a rank of sorted numbers: on the line between the two that are next to it. -/
def interpolated (ys : List Rat) (rank : Rat) : Rat :=
  let below := ys.getD rank.floor.toNat 0
  below + (ys.getD rank.ceil.toNat 0 - below) * (rank - (rank.floor.toNat : Nat))

/-- **A quantile is the number at its rank**, which is a fraction of that of the last number:
`quantileSorted ys q = some (interpolated ys (Scalar.clamp 0 1 q * (ys.length - 1 : Nat)))`. -/
theorem quantileSorted_eq_interpolated {ys : List Rat} (h : ys ≠ []) (q : Rat) :
    quantileSorted ys q =
      some (interpolated ys (Scalar.clamp 0 1 q * (ys.length - 1 : Nat))) := by
  obtain ⟨hlo, hhi, heq⟩ := quantileSorted_eq h (q := q) rfl
  rw [heq, interpolated, List.getD_eq_getElem _ _ hlo, List.getD_eq_getElem _ _ hhi]

section Interpolated

variable {ys : List Rat} (hys : ys.Pairwise (· ≤ ·)) {rank rank' : Rat}

include hys in
/-- Sorted numbers do not fall from place to place: `ys.getD i 0 ≤ ys.getD j 0`. -/
theorem getD_mono {i j : Nat} (hij : i ≤ j) (hj : j < ys.length) : ys.getD i 0 ≤ ys.getD j 0 := by
  rw [List.getD_eq_getElem _ _ (hij.trans_lt hj), List.getD_eq_getElem _ _ hj]
  rcases hij.eq_or_lt with rfl | hlt
  · exact le_refl _
  · exact List.pairwise_iff_getElem.1 hys i j (hij.trans_lt hj) hj hlt

/-- The places next to a rank are in order, and at most one apart:
`rank.floor.toNat ≤ rank.ceil.toNat ∧ rank.ceil.toNat ≤ rank.floor.toNat + 1`. -/
theorem floor_le_ceil (rank : Rat) :
    rank.floor.toNat ≤ rank.ceil.toNat ∧ rank.ceil.toNat ≤ rank.floor.toNat + 1 := by
  have hle : rank.floor ≤ rank.ceil := by exact_mod_cast (Rat.floor_le rank).trans Rat.le_ceil
  have hnext : rank.ceil ≤ rank.floor + 1 := by
    refine Rat.ceil_le_iff.2 ?_
    exact_mod_cast (Rat.lt_floor_add_one rank).le
  omega

include hys in
/-- **The number at a rank** lies between the two that are next to it:
`ys.getD rank.floor.toNat 0 ≤ interpolated ys rank` and
`interpolated ys rank ≤ ys.getD rank.ceil.toNat 0`. -/
theorem interpolated_between (h0 : 0 ≤ rank) (h1 : rank ≤ (ys.length - 1 : Nat)) (h : ys ≠ []) :
    ys.getD rank.floor.toNat 0 ≤ interpolated ys rank ∧
      interpolated ys rank ≤ ys.getD rank.ceil.toNat 0 := by
  obtain ⟨-, hhi⟩ := neighbours_lt (List.length_pos_iff.2 h) h1
  obtain ⟨-, -, hpast, hshort⟩ := neighbours_of_rank h0 0
  have hrise := getD_mono hys (floor_le_ceil rank).1 hhi
  unfold interpolated
  dsimp only
  constructor
  · exact le_line (le_refl _) hrise hpast hshort.le
  · nlinarith

include hys in
/-- **It does not fall with the rank**: `interpolated ys rank ≤ interpolated ys rank'`. -/
theorem interpolated_mono (h0 : 0 ≤ rank) (hle : rank ≤ rank')
    (h1 : rank' ≤ (ys.length - 1 : Nat)) (h : ys ≠ []) :
    interpolated ys rank ≤ interpolated ys rank' := by
  have hlength := List.length_pos_iff.2 h
  obtain ⟨hlo', hhi'⟩ := neighbours_lt hlength h1
  obtain ⟨hlo, hhi⟩ := neighbours_lt hlength (hle.trans h1)
  have hfloor : rank.floor.toNat ≤ rank'.floor.toNat := Int.toNat_le_toNat (Rat.floor_monotone hle)
  have hceil : rank.ceil.toNat ≤ rank'.ceil.toNat :=
    Int.toNat_le_toNat (Rat.ceil_le_iff.2 (hle.trans Rat.le_ceil))
  rcases hfloor.eq_or_lt with heq | hlt
  · -- both ranks come after the same number, and the line to the next one rises
    obtain ⟨-, -, hpast, -⟩ := neighbours_of_rank h0 0
    have hrise := getD_mono hys (floor_le_ceil rank).1 hhi
    have hnext := getD_mono hys hceil hhi'
    have hslopes := sub_le_sub_right hnext (ys.getD rank.floor.toNat 0)
    have hsteps := sub_le_sub_right hle (rank.floor.toNat : Rat)
    unfold interpolated
    rw [← heq]
    exact add_le_add_right
      (mul_le_mul hslopes hsteps hpast ((sub_nonneg.2 hrise).trans hslopes)) _
  · -- there is a number between them
    calc interpolated ys rank
        ≤ ys.getD rank.ceil.toNat 0 := (interpolated_between hys h0 (hle.trans h1) h).2
      _ ≤ ys.getD rank'.floor.toNat 0 :=
          getD_mono hys ((floor_le_ceil rank).2.trans hlt) hlo'
      _ ≤ interpolated ys rank' := (interpolated_between hys (h0.trans hle) h1 h).1

/-- `interpolated ys k = ys.getD k 0`: at the rank of a number there is this number. -/
theorem interpolated_natCast (ys : List Rat) (k : Nat) : interpolated ys k = ys.getD k 0 := by
  have hfloor : (k : Rat).floor.toNat = k :=
    congrArg Int.toNat (Rat.floor_intCast k)
  rw [interpolated, hfloor, sub_self, mul_zero, add_zero]

/-- `interpolated ys (k + 1 / 2) = (ys.getD k 0 + ys.getD (k + 1) 0) / 2`: half way between the
ranks of two numbers there is their mean. -/
theorem interpolated_add_half (ys : List Rat) (k : Nat) :
    interpolated ys (k + 1 / 2) = (ys.getD k 0 + ys.getD (k + 1) 0) / 2 := by
  have hfloor : ((k : Rat) + 1 / 2).floor = k := by
    refine le_antisymm (Int.le_of_lt_add_one (Rat.floor_lt_iff.2 ?_)) (Rat.le_floor_iff.2 ?_)
    · push_cast
      linarith
    · push_cast
      linarith
  have hceil : ((k : Rat) + 1 / 2).ceil = (k + 1 : Nat) := by
    rw [Nat.cast_succ]
    refine le_antisymm (Rat.ceil_le_iff.2 ?_) (Int.add_one_le_of_lt (Rat.lt_ceil_iff.2 ?_))
    · push_cast
      linarith
    · push_cast
      linarith
  rw [interpolated, hfloor, hceil, Int.toNat_natCast, Int.toNat_natCast]
  ring

end Interpolated

/-! ## (2) The middle and the ends -/

section Figures

variable {xs : List Rat}

/-- `ys[k]? = some (ys.getD k 0)`: a place of sorted numbers that has one. -/
theorem getElem?_eq_getD {ys : List Rat} {k : Nat} (h : k < ys.length) :
    ys[k]? = some (ys.getD k 0) := by
  rw [List.getElem?_eq_getElem h, List.getD_eq_getElem _ _ h]

/-- **Half way to the last number is the median**: `median xs` is
`some (interpolated (Scalar.sorted xs) (1 / 2 * ((Scalar.sorted xs).length - 1 : Nat)))`. -/
theorem median_eq_interpolated (h : xs ≠ []) : median xs =
    some (interpolated (Scalar.sorted xs) (1 / 2 * ((Scalar.sorted xs).length - 1 : Nat))) := by
  have hlength : 0 < (Scalar.sorted xs).length := List.length_pos_iff.2 (Scalar.sorted_ne_nil h)
  unfold median
  generalize Scalar.sorted xs = ys at hlength
  dsimp only
  rcases Nat.even_or_odd' ys.length with ⟨m, heven | hodd⟩
  · -- of an even count, the rank is half way between those of the two middle numbers
    obtain ⟨k, rfl⟩ : ∃ k, m = k + 1 := Nat.exists_eq_succ_of_ne_zero (by omega)
    have hrank : (1 / 2 * ((ys.length - 1 : Nat) : Rat)) = k + 1 / 2 := by
      rw [heven, show 2 * (k + 1) - 1 = 2 * k + 1 by omega]
      push_cast
      ring
    rw [if_neg (by rw [beq_iff_eq]; omega), show ys.length / 2 - 1 = k by omega,
      show ys.length / 2 = k + 1 by omega, getElem?_eq_getD (show k < ys.length by omega),
      getElem?_eq_getD (show k + 1 < ys.length by omega), hrank, interpolated_add_half]
    rfl
  · -- of an odd count, it is that of the middle number
    have hrank : (1 / 2 * ((ys.length - 1 : Nat) : Rat)) = m := by
      rw [hodd, Nat.add_sub_cancel]
      push_cast
      ring
    rw [if_pos (by rw [beq_iff_eq]; omega), show ys.length / 2 = m by omega,
      getElem?_eq_getD (by omega), hrank, interpolated_natCast]

/-- `minimum xs = xs.min?`: the smallest of exact numbers, as the library has it. -/
theorem minimum_eq_min? (xs : List Rat) : minimum xs = xs.min? := by
  have hmin : (Scalar.minimum : Rat → Rat → Rat) = min := by
    funext a b
    rw [Scalar.minimum, beq_self_eq_true, if_pos rfl]
    rcases lt_or_ge b a with hlt | hle
    · rw [if_pos hlt, min_eq_right hlt.le]
    · rw [if_neg (not_lt.2 hle), min_eq_left hle]
  cases xs with
  | nil => rfl
  | cons x xs => rw [minimum, hmin, List.min?_cons']

/-- `maximum xs = xs.max?`: the greatest of exact numbers. -/
theorem maximum_eq_max? (xs : List Rat) : maximum xs = xs.max? := by
  have hmax : (Scalar.maximum : Rat → Rat → Rat) = max := by
    funext a b
    rw [Scalar.maximum, beq_self_eq_true, if_pos rfl]
    rcases lt_or_ge a b with hlt | hle
    · rw [if_pos hlt, max_eq_right hlt.le]
    · rw [if_neg (not_lt.2 hle), max_eq_left hle]
  cases xs with
  | nil => rfl
  | cons x xs => rw [maximum, hmax, List.max?_cons']

end Figures

/-! ## (3) The quantiles of some numbers -/

/-- `quantile xs q`: the quantile of some numbers at a fraction of the way. -/
def quantile (xs : List Rat) (q : Rat) : Rat :=
  interpolated (Scalar.sorted xs) (Scalar.clamp 0 1 q * ((Scalar.sorted xs).length - 1 : Nat))

section Quantile

variable {xs : List Rat} {q : Rat}

/-- The rank of a quantile is at most that of the last number:
`0 ≤ Scalar.clamp 0 1 q * (n : Rat) ∧ Scalar.clamp 0 1 q * (n : Rat) ≤ n`. -/
theorem rank_bounds (q : Rat) (n : Nat) :
    0 ≤ Scalar.clamp 0 1 q * (n : Rat) ∧ Scalar.clamp 0 1 q * (n : Rat) ≤ n :=
  ⟨mul_nonneg (clamp_nonneg q) (Nat.cast_nonneg n),
    mul_le_of_le_one_left (Nat.cast_nonneg n) (clamp_le_one q)⟩

/-- Quantiles do not fall: `Monotone (quantile xs)`. -/
theorem quantile_mono (h : xs ≠ []) : Monotone (quantile xs) := fun q _ hle =>
  interpolated_mono (Scalar.sorted_pairwise xs) (rank_bounds q _).1
    (mul_le_mul_of_nonneg_right (clamp_mono hle) (Nat.cast_nonneg _)) (rank_bounds _ _).2
    (Scalar.sorted_ne_nil h)

/-- `quantile xs q = quantile xs 0`: before the first one there is no other. -/
theorem quantile_of_nonpos (h : q ≤ 0) : quantile xs q = quantile xs 0 := by
  have hclamp : Scalar.clamp 0 1 q = 0 := by
    rw [clamp_eq, max_eq_left ((min_le_right 1 q).trans h)]
  rw [quantile, quantile, hclamp, clamp_eq_self (le_refl 0) zero_le_one]

/-- `quantile xs q = quantile xs 1`: after the last one there is no other. -/
theorem quantile_of_one_le (h : 1 ≤ q) : quantile xs q = quantile xs 1 := by
  have hclamp : Scalar.clamp 0 1 q = 1 := by
    rw [clamp_eq, min_eq_left h, max_eq_right zero_le_one]
  rw [quantile, quantile, hclamp, clamp_eq_self zero_le_one (le_refl 1)]

/-- **At the fraction of its rank, there is each number**:
`quantile xs (k / ((Scalar.sorted xs).length - 1 : Nat)) = (Scalar.sorted xs).getD k 0`. -/
theorem quantile_rank {k : Nat} (hk : k < (Scalar.sorted xs).length) :
    quantile xs (k / ((Scalar.sorted xs).length - 1 : Nat)) = (Scalar.sorted xs).getD k 0 := by
  have hle : (k : Rat) ≤ ((Scalar.sorted xs).length - 1 : Nat) :=
    Nat.cast_le.2 (Nat.le_sub_one_of_lt hk)
  have hnonneg : (0 : Rat) ≤ k := Nat.cast_nonneg k
  rw [quantile, clamp_eq_self (div_nonneg hnonneg (hnonneg.trans hle))
    (div_le_one_of_le₀ hle (hnonneg.trans hle)),
    div_mul_cancel_of_imp fun hzero => le_antisymm (hle.trans_eq hzero) hnonneg,
    interpolated_natCast]

/-- `quantile xs 0 = (Scalar.sorted xs).getD 0 0`: the first quantile is the first number. -/
theorem quantile_zero (xs : List Rat) : quantile xs 0 = (Scalar.sorted xs).getD 0 0 := by
  rw [quantile, clamp_eq_self (le_refl 0) zero_le_one, zero_mul]
  exact_mod_cast interpolated_natCast (Scalar.sorted xs) 0

/-- `quantile xs 1 = (Scalar.sorted xs).getD ((Scalar.sorted xs).length - 1) 0`: the last one is the
last number. -/
theorem quantile_one (xs : List Rat) :
    quantile xs 1 = (Scalar.sorted xs).getD ((Scalar.sorted xs).length - 1) 0 := by
  rw [quantile, clamp_eq_self zero_le_one (le_refl 1), one_mul, interpolated_natCast]

/-- The first of sorted numbers is the smallest one, and the last is the greatest:
`IsLeast {x | x ∈ xs} ((Scalar.sorted xs).getD 0 0)` and
`IsGreatest {x | x ∈ xs} ((Scalar.sorted xs).getD ((Scalar.sorted xs).length - 1) 0)`. -/
theorem bounds_sorted (h : xs ≠ []) :
    IsLeast {x | x ∈ xs} ((Scalar.sorted xs).getD 0 0) ∧
      IsGreatest {x | x ∈ xs} ((Scalar.sorted xs).getD ((Scalar.sorted xs).length - 1) 0) := by
  have hys := Scalar.sorted_pairwise xs
  have hmem : ∀ x, x ∈ Scalar.sorted xs ↔ x ∈ xs := fun x => (Scalar.sorted_perm xs).mem_iff
  have hlength := List.length_pos_iff.2 (Scalar.sorted_ne_nil h)
  generalize Scalar.sorted xs = ys at hys hmem hlength
  have hplace : ∀ {k}, k < ys.length → ys.getD k 0 ∈ xs := by
    intro k hk
    rw [List.getD_eq_getElem _ _ hk, ← hmem]
    exact List.getElem_mem hk
  have hat : ∀ x ∈ xs, ∃ k < ys.length, ys.getD k 0 = x := by
    intro x hx
    obtain ⟨k, hk, heq⟩ := List.getElem_of_mem ((hmem x).2 hx)
    exact ⟨k, hk, (List.getD_eq_getElem _ _ hk).trans heq⟩
  refine ⟨⟨hplace hlength, fun x hx => ?_⟩, ⟨hplace (Nat.sub_one_lt hlength.ne'), fun x hx => ?_⟩⟩
  · obtain ⟨k, hk, rfl⟩ := hat x hx
    exact getD_mono hys (Nat.zero_le k) hk
  · obtain ⟨k, hk, rfl⟩ := hat x hx
    exact getD_mono hys (Nat.le_sub_one_of_lt hk) (Nat.sub_one_lt hlength.ne')

end Quantile

/-- What the quantiles of some numbers are: `value q` is the one at the fraction `q` of the way. -/
structure Quantiles (xs : List Rat) (value : Rat → Rat) : Prop where
  /-- There are numbers at the two places that a quantile is drawn from. -/
  places : ∀ q : Rat, ∀ rank, rank = Scalar.clamp 0 1 q * Scalar.ofNat (xs.length - 1) →
    Scalar.floor rank < (Scalar.sorted xs).length ∧ Scalar.ceil rank < (Scalar.sorted xs).length
  /-- So each quantile is there. -/
  computed : ∀ q, quantileSorted (Scalar.sorted xs) q = some (value q)
  /-- The first one is the smallest number. -/
  least : minimum xs = some (value 0) ∧ IsLeast {x | x ∈ xs} (value 0)
  /-- The last one is the greatest number. -/
  greatest : maximum xs = some (value 1) ∧ IsGreatest {x | x ∈ xs} (value 1)
  /-- All others are between them. -/
  between : ∀ q, value 0 ≤ value q ∧ value q ≤ value 1
  /-- They do not fall. -/
  mono : Monotone value
  /-- Before the first one and after the last one there are no others. -/
  clamped : ∀ q, (q ≤ 0 → value q = value 0) ∧ (1 ≤ q → value q = value 1)
  /-- At the fraction of its rank, there is each number. -/
  ranked : ∀ k (hk : k < (Scalar.sorted xs).length),
    value (k / (xs.length - 1 : Nat)) = (Scalar.sorted xs)[k]
  /-- Half way there is the median of the numbers, in whatever order they come. -/
  middle : ∀ zs, zs.Perm xs → median zs = some (value (1 / 2))

/-- **Quantiles of some numbers**: `Quantiles xs (quantile xs)`. -/
theorem quantiles {xs : List Rat} (h : xs ≠ []) : Quantiles xs (quantile xs) where
  places q rank hrank := by
    rw [← (Scalar.sorted_perm xs).length_eq] at hrank
    exact neighbours_lt (List.length_pos_iff.2 (Scalar.sorted_ne_nil h))
      (hrank.trans_le (rank_bounds q _).2)
  computed := quantileSorted_eq_interpolated (Scalar.sorted_ne_nil h)
  least := by
    rw [quantile_zero, minimum_eq_min?, List.min?_eq_some_iff]
    exact ⟨(bounds_sorted h).1, (bounds_sorted h).1⟩
  greatest := by
    rw [quantile_one, maximum_eq_max?, List.max?_eq_some_iff]
    exact ⟨(bounds_sorted h).2, (bounds_sorted h).2⟩
  between q := by
    -- a fraction outside counts as the nearer end
    rcases le_or_gt q 0 with hlow | hlow
    · rw [quantile_of_nonpos hlow]
      exact ⟨le_refl _, quantile_mono h zero_le_one⟩
    rcases le_or_gt 1 q with hhigh | hhigh
    · rw [quantile_of_one_le hhigh]
      exact ⟨quantile_mono h zero_le_one, le_refl _⟩
    · exact ⟨quantile_mono h hlow.le, quantile_mono h hhigh.le⟩
  mono := quantile_mono h
  clamped _ := ⟨quantile_of_nonpos, quantile_of_one_le⟩
  ranked k hk := by
    rw [← (Scalar.sorted_perm xs).length_eq, quantile_rank hk, List.getD_eq_getElem _ _ hk]
  middle zs hperm := by
    rw [median_eq_of_perm hperm, median_eq_interpolated h, quantile,
      clamp_eq_self (by norm_num) (by norm_num)]

end PanelQuery.Statistics
